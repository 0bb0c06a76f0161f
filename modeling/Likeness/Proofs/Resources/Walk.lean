import Likeness.Proofs.Json.Value
import Likeness.Proofs.Resources.KeyPath

namespace Likeness

namespace Json

-- The value that keys lead to, from the outermost object on.
def Value.follow : List String → Value → Option Value
  | [], v => some v
  | key :: rest, .object fields => (lookup key fields).bind (follow rest)
  | _ :: _, _ => none

theorem Value.follow_cons_iff {fields : List (String × Value)} (hkeys : (fields.map (·.1)).Nodup)
    (key : String) (rest : List String) (w : Value) :
    (Value.object fields).follow (key :: rest) = some w ↔
      ∃ v, (key, v) ∈ fields ∧ v.follow rest = some w := by
  rw [follow, Option.bind_eq_some_iff]
  simp only [lookup_eq_some_iff hkeys]

theorem Value.Proper.follow {v w : Value} (hv : v.Proper) {chain : List String}
    (h : v.follow chain = some w) : w.Proper := by
  induction chain generalizing v with
  | nil =>
    cases h
    exact hv
  | cons key rest ih =>
    cases hv with
    | object fields hkeys hfields =>
      obtain ⟨u, hu, hrest⟩ := (follow_cons_iff hkeys key rest w).mp h
      exact ih (hfields _ hu) hrest
    | _ => cases h

end Json

namespace Resources

open Json

namespace Place

-- A value in a file that keys lead to after those of a path.
def under (file : Files.Path) (path : String) (chain : List String) (v : Value) : Place :=
  ⟨v, file, joinChain path chain, valueDigest "value" v⟩

end Place

section Walk

variable (file : Files.Path) (path : String) (depth : ℕ) {p : Place}

-- A walk meets the fields of an object and all that is below them.
theorem mem_visitFields_iff (fields : List (String × Value)) :
    p ∈ (visitFields file path depth fields).filterMap Visit.place? ↔
      ∃ field ∈ fields, p = .under file path [field.1] field.2 ∨ p ∈
        (visitBelow file (joinKey path field.1) (depth + 1) field.2).filterMap Visit.place? := by
  induction fields with
  | nil => simp [visitFields]
  | cons field rest ih =>
    rw [visitFields, List.filterMap_cons_some (f := Visit.place?) rfl, List.mem_cons,
      List.filterMap_append, List.mem_append, ih, List.exists_mem_cons_iff, or_assoc]
    rfl

-- A walk meets the values that keys lead to, as long as there are not too many of them.
theorem mem_visitBelow_iff {v : Value} (hv : v.Proper) :
    p ∈ (visitBelow file path depth v).filterMap Visit.place? ↔
      ∃ chain w, chain ≠ [] ∧ depth + chain.length ≤ depthLimit + 1 ∧ v.follow chain = some w ∧
        p = .under file path chain w := by
  induction v using Value.inductionOnParts generalizing path depth with
  | object fields ih =>
    cases hv with | object _ hkeys hfields =>
    rw [visitBelow]
    split
    · rename_i hdeep
      simp only [List.filterMap_cons, List.filterMap_nil, Visit.place?, List.not_mem_nil,
        false_iff, not_exists, not_and]
      intro chain w hne hlength
      have hpos := List.length_pos_iff.mpr hne
      omega
    rename_i hdepth
    rw [mem_visitFields_iff]
    constructor
    · rintro ⟨⟨key, v⟩, hfield, rfl | hbelow⟩
      · refine ⟨[key], v, List.cons_ne_nil _ _, ?_, ?_, rfl⟩
        · rw [List.length_singleton]
          omega
        · exact (Value.follow_cons_iff hkeys key [] v).mpr ⟨v, hfield, rfl⟩
      · obtain ⟨chain, w, -, hlength, hfollow, rfl⟩ :=
          (ih _ hfield _ _ (hfields _ hfield)).mp hbelow
        refine ⟨key :: chain, w, List.cons_ne_nil _ _, ?_, ?_, rfl⟩
        · rw [List.length_cons]
          omega
        · exact (Value.follow_cons_iff hkeys key chain w).mpr ⟨v, hfield, hfollow⟩
    · rintro ⟨chain, w, hne, hlength, hfollow, rfl⟩
      obtain ⟨key, rest, rfl⟩ := List.exists_cons_of_ne_nil hne
      obtain ⟨v, hfield, hrest⟩ := (Value.follow_cons_iff hkeys key rest w).mp hfollow
      rw [List.length_cons] at hlength
      refine ⟨(key, v), hfield, ?_⟩
      cases rest with
      | nil =>
        cases hrest
        exact .inl rfl
      | cons next rest =>
        refine .inr ((ih _ hfield _ _ (hfields _ hfield)).mpr
          ⟨next :: rest, w, List.cons_ne_nil _ _, ?_, hrest, rfl⟩)
        omega
  | _ =>
    simp only [visitBelow, List.filterMap_nil, List.not_mem_nil, false_iff, not_exists]
    rintro (_ | ⟨key, rest⟩) w ⟨hne, -, hfollow, -⟩
    · exact hne rfl
    · cases hfollow

end Walk

-- The values that are compared are those that at most so many keys lead to.
theorem mem_catalogue_iff {ds : List Document} (hds : ∀ d ∈ ds, d.value.Proper) (p : Place) :
    p ∈ catalogue ds ↔ ∃ d ∈ ds, ∃ chain v, chain ≠ [] ∧ chain.length ≤ depthLimit ∧
      d.value.follow chain = some v ∧ p = .under d.file "" chain v := by
  rw [catalogue_eq, List.mem_flatMap]
  refine exists_congr fun d => and_congr_right fun hd => ?_
  rw [Document.places, Document.visits, mem_visitBelow_iff d.file "" 1 (hds d hd)]
  refine exists₂_congr fun chain v => and_congr_right fun _ => and_congr_left fun _ => ?_
  omega

end Resources

end Likeness
