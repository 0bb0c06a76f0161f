import Likeness.Components.Component
import Likeness.Proofs.Duplicates.PairKey
import Likeness.Proofs.Duplicates.Site
import Likeness.Proofs.Syntax.Source

namespace Likeness

open Duplicates Syntax Syntax.Reading

-- A name cannot be taken for the end of a path and more, or for a pair.
structure PlainName (name : String) : Prop where
  no_hash : '#' ∉ name.toList
  nullFree : NullFree name

theorem plainName_of_isPlain {name : String} (h : ∀ c ∈ name.toList, isPlain c = true) :
    PlainName name :=
  ⟨fun hc => absurd (h _ hc) (by decide), fun hc => absurd (h _ hc) (by decide)⟩

namespace Function

-- Where a function gets its name from: the name of what is declared, or a word.
def NamedBy (t name : Tree) : Prop :=
  name ∈ t.children ∧
    ((t.kind? = some .functionDeclaration ∨ t.kind? = some .generatorFunctionDeclaration) ∧
        name.role = some .name ∨
      name.hasKind .identifier = true)

theorem namedBy_of_ofNode? {s : Source} {t : Tree} {f : Function} (h : ofNode? s t = some f) :
    ∃ name, NamedBy t name ∧ f.name = s.textOf name := by
  have hdeclared {name : Tree} (hkind : t.kind? = some .functionDeclaration ∨
      t.kind? = some .generatorFunctionDeclaration) (hname : t.child? .name = some name) :
      NamedBy t name := by
    obtain ⟨hmem, hrole⟩ := Tree.mem_children_of_child? hname
    exact ⟨hmem, .inl ⟨hkind, hrole⟩⟩
  unfold ofNode? at h
  split at h
  · next hkind =>
    split at h <;> cases h
    next name hname => exact ⟨name, hdeclared (.inl hkind) hname, rfl⟩
  · next hkind =>
    split at h <;> cases h
    next name hname => exact ⟨name, hdeclared (.inr hkind) hname, rfl⟩
  · split at h
    · next name value hname _ =>
      split at h
      · next hshape =>
        cases h
        rw [Bool.and_eq_true] at hshape
        exact ⟨name, ⟨(Tree.mem_children_of_child? hname).1, .inr hshape.2⟩, rfl⟩
      · cases h
    · cases h
  · cases h

theorem plainName_of_mem_all {s : Source} (hs : s.tree.Plain s.chars) {f : Function}
    (h : f ∈ all s) : PlainName f.name := by
  obtain ⟨t, ht, hf⟩ := List.mem_filterMap.mp h
  have hplain := Tree.plain_of_mem_visitNodes [s.tree] (List.forall_mem_singleton.mpr hs) t ht
  obtain ⟨name, ⟨hmem, hname⟩, hf⟩ := namedBy_of_ofNode? hf
  have hspan : PlainSpan s.chars name.span := by
    rcases hname with ⟨hkind, hrole⟩ | hword
    · exact hplain.span_of_name hkind hmem hrole
    · exact (hplain.children name hmem).span_of_identifier hword
  rw [hf]
  exact plainName_of_isPlain (isPlain_of_mem_textOf hspan)

end Function

namespace Component

theorem ofFunction?_eq_some {s : Source} {file : Files.Path}
    {declared : List Components.StyledComponent} {f : Function} {c : Component}
    (h : ofFunction? s file declared f = some c) : c.file = file ∧ c.name = f.name := by
  unfold ofFunction? at h
  split at h
  · rw [Option.some.injEq] at h
    subst h
    exact ⟨rfl, rfl⟩
  · cases h

theorem file_of_mem_all {s : Source} {file : Files.Path} {c : Component} (h : c ∈ all s file) :
    c.file = file := by
  obtain ⟨f, -, hc⟩ := List.mem_filterMap.mp h
  exact (ofFunction?_eq_some hc).1

theorem name_of_mem_all {s : Source} {file : Files.Path} {c : Component} (h : c ∈ all s file) :
    ∃ f ∈ Function.all s, c.name = f.name := by
  obtain ⟨f, hf, hc⟩ := List.mem_filterMap.mp h
  exact ⟨f, hf, (ofFunction?_eq_some hc).2⟩

theorem id_toList (c : Component) : c.id.toList = c.file.text.toList ++ '#' :: c.name.toList := by
  simp [id]

-- An id can be taken apart, as the last hash in it is its own.
theorem id_eq_iff {c d : Component} (hc : PlainName c.name) (hd : PlainName d.name) :
    c.id = d.id ↔ c.file.text = d.file.text ∧ c.name = d.name := by
  constructor
  · intro h
    have hlist : (c.name.toList.reverse ++ '#' :: c.file.text.toList.reverse) =
        d.name.toList.reverse ++ '#' :: d.file.text.toList.reverse := by
      simpa [id_toList] using congrArg (List.reverse ∘ String.toList) h
    obtain ⟨hname, hfile⟩ := append_cons_inj (by simpa using hc.no_hash)
      (by simpa using hd.no_hash) hlist
    exact ⟨String.toList_inj.mp (List.reverse_injective hfile),
      String.toList_inj.mp (List.reverse_injective hname)⟩
  · rintro ⟨hfile, hname⟩
    rw [id, id, hfile, hname]

-- The components of some files, one file after the other.
def ofFiles (files : List (Files.Path × Source)) : List Component :=
  files.flatMap fun file => all file.2 file.1

theorem nodup_ids_all_iff (file : Files.Path × Source) :
    ((all file.2 file.1).map id).Nodup ↔ ((all file.2 file.1).map (·.name)).Nodup := by
  have hid : (all file.2 file.1).map id =
      ((all file.2 file.1).map (·.name)).map (file.1.text ++ "#" ++ ·) := by
    rw [List.map_map]
    refine List.map_congr_left fun c hc => ?_
    rw [id, file_of_mem_all hc]
    rfl
  rw [hid, List.nodup_map_iff]
  intro name other h
  simpa using h

-- Ids are unique just when the names in each file are, and no name is in two files that are shown
-- alike.
theorem nodup_ids_iff {files : List (Files.Path × Source)}
    (hnames : ∀ c ∈ ofFiles files, PlainName c.name) :
    ((ofFiles files).map id).Nodup ↔
      (∀ file ∈ files, ((all file.2 file.1).map (·.name)).Nodup) ∧
        files.Pairwise fun file other => file.1.text = other.1.text →
          ((all file.2 file.1).map (·.name)).Disjoint ((all other.2 other.1).map (·.name)) := by
  have hin {file : Files.Path × Source} (hmem : file ∈ files) {c : Component}
      (hc : c ∈ all file.2 file.1) : PlainName c.name :=
    hnames c (List.mem_flatMap.mpr ⟨file, hmem, hc⟩)
  rw [ofFiles, List.map_flatMap, List.nodup_flatMap]
  simp only [nodup_ids_all_iff]
  refine and_congr_right fun _ => List.Pairwise.iff_of_mem fun {file other} hmem hother => ?_
  have hids {c d : Component} (hc : c ∈ all file.2 file.1) (hd : d ∈ all other.2 other.1) :
      d.id = c.id ↔ file.1.text = other.1.text ∧ d.name = c.name := by
    rw [id_eq_iff (hin hother hd) (hin hmem hc), file_of_mem_all hc, file_of_mem_all hd,
      eq_comm (a := other.1.text)]
  simp only [Function.onFun, List.disjoint_left, List.mem_map]
  constructor
  · rintro h htext _ ⟨c, hc, rfl⟩ ⟨d, hd, hname⟩
    exact h ⟨c, hc, rfl⟩ ⟨d, hd, (hids hc hd).mpr ⟨htext, hname⟩⟩
  · rintro h _ ⟨c, hc, rfl⟩ ⟨d, hd, hid⟩
    obtain ⟨htext, hname⟩ := (hids hc hd).mp hid
    exact h htext ⟨c, hc, rfl⟩ ⟨d, hd, hname⟩

end Component

end Likeness
