import Likeness.Files.Glob
import Likeness.Files.Kind
import Likeness.Proofs.Text.Lines
import Mathlib.Data.String.Basic
import Mathlib.Tactic.SplitIfs

namespace Likeness.Files

section Pieces

theorem splitSlashes_eq_splitOn (text : String) :
    splitSlashes text = (text.toList.splitOn '/').map String.ofList := by
  unfold splitSlashes
  generalize text.toList = cs
  induction cs with
  | nil => rfl
  | cons c cs ih =>
    rw [List.splitOn_cons_eq_if_modifyHead, List.foldr_cons]
    obtain ⟨first, rest, hcs⟩ := List.exists_cons_of_ne_nil (List.splitOn_ne_nil '/' cs)
    rw [hcs] at ih ⊢
    generalize List.foldr _ _ cs = read at ih ⊢
    obtain ⟨pieces, current⟩ := read
    obtain ⟨hfirst, hrest⟩ := List.cons.inj ih
    by_cases hslash : c = '/'
    · rw [if_pos (beq_iff_eq.mpr hslash)]
      dsimp only
      rw [if_pos hslash]
      exact congrArg ("" :: ·) ih
    · rw [if_neg (mt beq_iff_eq.mp hslash)]
      dsimp only
      rw [if_neg hslash]
      have hcurrent : current = first := by
        rw [← String.toList_ofList (l := current), hfirst, String.toList_ofList]
      rw [hcurrent, hrest]
      rfl

theorem splitSlashes_ne_nil (text : String) : splitSlashes text ≠ [] := by
  rw [splitSlashes_eq_splitOn]
  exact mt List.map_eq_nil_iff.mp (List.splitOn_ne_nil _ _)

theorem splitSlashes_append_slash (a b : String) :
    splitSlashes (a ++ "/" ++ b) = splitSlashes a ++ splitSlashes b := by
  have hlist : (a ++ "/" ++ b).toList = a.toList ++ '/' :: b.toList := by simp
  rw [splitSlashes_eq_splitOn, splitSlashes_eq_splitOn, splitSlashes_eq_splitOn, hlist,
    List.splitOn_append_cons_self, List.map_append]

theorem splitSlashes_of_notMem {name : String} (h : '/' ∉ name.toList) :
    splitSlashes name = [name] := by
  rw [splitSlashes_eq_splitOn, List.splitOn_eq_singleton h, List.map_singleton,
    String.ofList_toList]

-- The steps of a path that name something.
def namedSteps (steps : List String) : List String :=
  steps.filter fun step => step != "" && step != "."

theorem namedSteps_append (steps steps' : List String) :
    namedSteps (steps ++ steps') = namedSteps steps ++ namedSteps steps' := List.filter_append ..

def named (text : String) : List String := namedSteps (splitSlashes text)

theorem named_append_slash (a b : String) : named (a ++ "/" ++ b) = named a ++ named b := by
  unfold named
  rw [splitSlashes_append_slash, namedSteps_append]

theorem startsWith_slash (text : String) :
    text.startsWith "/" = (text.toList.head? == some '/') := by
  rw [Bool.eq_iff_iff, String.startsWith_string_iff, beq_iff_eq]
  cases text.toList with
  | nil => simp
  | cons c cs => simp [List.cons_prefix_cons, eq_comm]

theorem endsWith_slash_iff (text : String) :
    text.endsWith "/" = true ↔ ∃ a, text = a ++ "/" := by
  rw [String.endsWith, String.Slice.endsWith_string_iff, String.copy_toSlice]
  constructor
  · rintro ⟨cs, hcs⟩
    refine ⟨String.ofList cs, ?_⟩
    rw [← String.toList_inj, ← hcs]
    simp
  · rintro ⟨a, rfl⟩
    exact ⟨a.toList, by simp⟩

-- What is joined to a path stands after one slash.
theorem exists_join {dir : String} (hdir : dir ≠ "") :
    ∃ a, (∀ b, join dir b = a ++ "/" ++ b) ∧ (dir = a ∨ dir = a ++ "/") := by
  unfold join
  simp only [if_neg hdir]
  cases hend : dir.endsWith "/" with
  | false => exact ⟨dir, fun b => rfl, .inl rfl⟩
  | true =>
    obtain ⟨a, rfl⟩ := (endsWith_slash_iff dir).mp hend
    exact ⟨a, fun b => rfl, .inr rfl⟩

end Pieces

section Steps

-- The mark of a relative path that starts with a point.
def mark (text : String) : List String :=
  if !text.startsWith "/" && (splitSlashes text).head? == some "." then ["."] else []

theorem stepsOf_eq (text : String) :
    stepsOf text = ⟨text.startsWith "/", mark text ++ named text⟩ := by
  unfold stepsOf mark
  dsimp only
  split
  · rename_i hmark
    rw [Bool.and_eq_true, Bool.not_eq_true'] at hmark
    rw [hmark.1]
    rfl
  · rfl

theorem mark_congr {a b : String} (hstart : a.startsWith "/" = b.startsWith "/")
    (hhead : (splitSlashes a).head? = (splitSlashes b).head?) : mark a = mark b := by
  unfold mark
  rw [hstart, hhead]

-- What is joined to a path does not change how it starts, and comes after its steps.
theorem stepsOf_join {dir : String} (hdir : dir ≠ "") (b : String) :
    stepsOf (join dir b) = ⟨(stepsOf dir).fromRoot, (stepsOf dir).parts ++ named b⟩ := by
  obtain ⟨a, hjoin, hcases⟩ := exists_join hdir
  obtain ⟨piece, pieces, hpieces⟩ := List.exists_cons_of_ne_nil (splitSlashes_ne_nil a)
  have hempty : splitSlashes "" = [""] := rfl
  have hstart : (join dir b).startsWith "/" = dir.startsWith "/" := by
    rw [hjoin, startsWith_slash, startsWith_slash]
    rcases hcases with rfl | rfl
    · obtain ⟨c, cs, hcs⟩ := List.exists_cons_of_ne_nil (mt String.toList_eq_nil_iff.mp hdir)
      simp [hcs]
    · simp [List.head?_append]
  have hhead : (splitSlashes (join dir b)).head? = (splitSlashes dir).head? := by
    rw [hjoin, splitSlashes_append_slash]
    rcases hcases with rfl | rfl
    · rw [hpieces]
      rfl
    · rw [← String.append_empty (s := a ++ "/"), splitSlashes_append_slash, hpieces]
      rfl
  have hnamed : named (join dir b) = named dir ++ named b := by
    rw [hjoin, named_append_slash]
    rcases hcases with rfl | rfl
    · rfl
    · have hclosed : named (a ++ "/") = named a := by
        rw [← String.append_empty (s := a ++ "/"), named_append_slash]
        exact List.append_nil _
      rw [hclosed]
  rw [stepsOf_eq, stepsOf_eq dir, hstart, mark_congr hstart hhead, hnamed, List.append_assoc]

-- The pieces of a path that name something are neither empty nor points, and have no slash.
structure IsPiece (piece : String) : Prop where
  ne_empty : piece ≠ ""
  ne_point : piece ≠ "."
  no_slash : '/' ∉ piece.toList

-- Whether a text is the name of an entry of a directory.
structure IsName (name : String) : Prop extends IsPiece name where
  ne_points : name ≠ ".."

instance (name : String) : Decidable (IsName name) :=
  decidable_of_iff (name ≠ "" ∧ name ≠ "." ∧ '/' ∉ name.toList ∧ name ≠ "..")
    ⟨fun h => ⟨⟨h.1, h.2.1, h.2.2.1⟩, h.2.2.2⟩,
      fun h => ⟨h.ne_empty, h.ne_point, h.no_slash, h.ne_points⟩⟩

theorem IsPiece.named {piece : String} (h : IsPiece piece) : named piece = [piece] := by
  unfold Files.named namedSteps
  rw [splitSlashes_of_notMem h.no_slash]
  simp [h.ne_empty, h.ne_point]

theorem stepsOf_join_name {dir name : String} (hdir : dir ≠ "") (h : IsName name) :
    stepsOf (join dir name) = ⟨(stepsOf dir).fromRoot, (stepsOf dir).parts ++ [name]⟩ := by
  rw [stepsOf_join hdir, h.toIsPiece.named]

theorem join_ne_empty {dir name : String} (hdir : dir ≠ "") : join dir name ≠ "" := by
  obtain ⟨a, hjoin, -⟩ := exists_join hdir
  rw [hjoin]
  intro hempty
  have hlist := congrArg String.toList hempty
  simp at hlist

end Steps

section Rebuilt

end Rebuilt

section Order

end Order

end Likeness.Files
