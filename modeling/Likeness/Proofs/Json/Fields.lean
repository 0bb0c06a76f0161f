import Likeness.Proofs.Json.Value
import Likeness.Proofs.Lists
import Mathlib.Data.String.Basic

namespace Likeness.Json

section Insertion

variable {key : String} {v : Value} {fields : List (String × Value)}

theorem mem_of_mem_insertField {f : String × Value} (h : f ∈ insertField key v fields) :
    f = (key, v) ∨ f ∈ fields := by
  induction fields with
  | nil => exact .inl (List.mem_singleton.mp h)
  | cons field rest ih =>
    obtain ⟨k, w⟩ := field
    rw [insertField] at h
    split_ifs at h with hlt heq
    · exact List.mem_cons.mp h
    · exact (List.mem_cons.mp h).imp_right (List.mem_cons_of_mem _)
    · rcases List.mem_cons.mp h with hfirst | hrest
      · exact .inr (hfirst ▸ List.mem_cons_self)
      · exact (ih hrest).imp_right (List.mem_cons_of_mem _)

-- Fields stay in ascending order, and each key is there once.
theorem pairwise_insertField (h : fields.Pairwise fun f g => f.1 < g.1) :
    (insertField key v fields).Pairwise fun f g => f.1 < g.1 := by
  induction fields with
  | nil => exact List.pairwise_singleton _ _
  | cons field rest ih =>
    obtain ⟨k, w⟩ := field
    obtain ⟨hfirst, hrest⟩ := List.pairwise_cons.mp h
    rw [insertField]
    split_ifs with hlt heq
    · refine List.pairwise_cons.mpr ⟨fun f hf => ?_, h⟩
      rcases List.mem_cons.mp hf with rfl | hf
      · exact hlt
      · exact hlt.trans (hfirst f hf)
    · exact List.pairwise_cons.mpr ⟨heq ▸ hfirst, hrest⟩
    · refine List.pairwise_cons.mpr ⟨fun f hf => ?_, ih hrest⟩
      rcases mem_of_mem_insertField hf with rfl | hf
      · exact lt_of_le_of_ne (not_lt.mp hlt) (Ne.symm heq)
      · exact hfirst f hf

-- A field that is added takes the place of the one of its key, and all others stay.
theorem mem_insertField_iff (h : fields.Pairwise fun f g => f.1 < g.1) (f : String × Value) :
    f ∈ insertField key v fields ↔ f = (key, v) ∨ f.1 ≠ key ∧ f ∈ fields := by
  induction fields with
  | nil => simp [insertField]
  | cons field rest ih =>
    obtain ⟨k, w⟩ := field
    obtain ⟨hfirst, hrest⟩ := List.pairwise_cons.mp h
    rw [insertField]
    split_ifs with hlt heq
    · -- all fields have later keys
      have hother : f ∈ (k, w) :: rest → f.1 ≠ key := by
        rintro hf rfl
        rcases List.mem_cons.mp hf with rfl | hf
        · exact lt_irrefl _ hlt
        · exact lt_asymm hlt (hfirst f hf)
      rw [List.mem_cons, and_iff_right_of_imp hother]
    · subst heq
      have hother : f ∈ rest → f.1 ≠ key := fun hf => (hfirst f hf).ne'
      simp only [List.mem_cons]
      constructor
      · rintro (hf | hf)
        · exact .inl hf
        · exact .inr ⟨hother hf, .inr hf⟩
      · rintro (hf | ⟨hne, rfl | hf⟩)
        · exact .inl hf
        · exact absurd rfl hne
        · exact .inr hf
    · rw [List.mem_cons, ih hrest, List.mem_cons]
      constructor
      · rintro (rfl | hf | ⟨hne, hf⟩)
        · exact .inr ⟨Ne.symm heq, .inl rfl⟩
        · exact .inl hf
        · exact .inr ⟨hne, .inr hf⟩
      · rintro (hf | ⟨hne, hf | hf⟩)
        · exact .inr (.inl hf)
        · exact .inl hf
        · exact .inr (.inr ⟨hne, hf⟩)

end Insertion

-- Adds fields one after the other.
def insertFields (fields more : List (String × Value)) : List (String × Value) :=
  more.foldl (fun fields f => insertField f.1 f.2 fields) fields

theorem insertFields_concat (fields more : List (String × Value)) (f : String × Value) :
    insertFields fields (more ++ [f]) = insertField f.1 f.2 (insertFields fields more) := by
  rw [insertFields, List.foldl_append]
  rfl

theorem pairwise_insertFields (more : List (String × Value)) :
    (insertFields [] more).Pairwise fun f g => f.1 < g.1 := by
  induction more using List.reverseRecOn with
  | nil => exact List.Pairwise.nil
  | append_singleton more f ih =>
    rw [insertFields_concat]
    exact pairwise_insertField ih

theorem nodup_keys_insertFields (more : List (String × Value)) :
    ((insertFields [] more).map (·.1)).Nodup :=
  List.pairwise_map.mpr ((pairwise_insertFields more).imp ne_of_lt)

-- Of fields of one key the last one is kept.
theorem mem_insertFields_iff (more : List (String × Value)) (f : String × Value) :
    f ∈ insertFields [] more ↔
      ∃ before after, more = before ++ f :: after ∧ ∀ g ∈ after, g.1 ≠ f.1 := by
  induction more using List.reverseRecOn with
  | nil => simp [insertFields]
  | append_singleton more g ih =>
    rw [insertFields_concat, mem_insertField_iff (pairwise_insertFields more), ih]
    constructor
    · rintro (rfl | ⟨hne, before, after, rfl, hafter⟩)
      · exact ⟨more, [], rfl, by simp⟩
      · refine ⟨before, after ++ [g], by simp, fun h hh => ?_⟩
        rcases List.mem_append.mp hh with hh | hh
        · exact hafter h hh
        · exact List.mem_singleton.mp hh ▸ hne.symm
    · rintro ⟨before, after, hmore, hafter⟩
      rcases List.eq_nil_or_concat after with rfl | ⟨after, last, rfl⟩
      · obtain ⟨-, hlast⟩ := List.append_inj' hmore rfl
        exact .inl (List.singleton_inj.mp hlast).symm
      · rw [List.concat_eq_append, ← List.cons_append, ← List.append_assoc] at hmore
        obtain ⟨rfl, hlast⟩ := List.append_inj' hmore rfl
        obtain rfl := List.singleton_inj.mp hlast
        refine .inr ⟨(hafter g (by simp)).symm, before, after, rfl, fun h hh => ?_⟩
        exact hafter h (by simp [hh])

theorem mem_keys_insertFields_iff (more : List (String × Value)) (key : String) :
    key ∈ (insertFields [] more).map (·.1) ↔ key ∈ more.map (·.1) := by
  induction more using List.reverseRecOn with
  | nil => rfl
  | append_singleton more g ih =>
    rw [insertFields_concat, List.map_append, List.mem_append, ← ih, List.map_singleton,
      List.mem_singleton, List.mem_map, List.mem_map]
    simp only [mem_insertField_iff (pairwise_insertFields more)]
    constructor
    · rintro ⟨f, rfl | ⟨-, hf⟩, rfl⟩
      · exact .inr rfl
      · exact .inl ⟨f, hf, rfl⟩
    · rintro (⟨f, hf, rfl⟩ | rfl)
      · by_cases hkey : f.1 = g.1
        · exact ⟨g, .inl rfl, hkey.symm⟩
        · exact ⟨f, .inr ⟨hkey, hf⟩, rfl⟩
      · exact ⟨g, .inl rfl, rfl⟩

-- There are as many fields as keys.
theorem length_insertFields (more : List (String × Value)) :
    (insertFields [] more).length = (more.map (·.1)).eraseDups.length := by
  have hperm : ((insertFields [] more).map (·.1)).Perm (more.map (·.1)).eraseDups := by
    rw [List.perm_ext_iff_of_nodup (nodup_keys_insertFields more) (nodup_eraseDups _)]
    intro key
    rw [mem_keys_insertFields_iff, List.mem_eraseDups]
  rw [← List.length_map, hperm.length_eq]

theorem length_insertFields_eq_iff (more : List (String × Value)) :
    (insertFields [] more).length = more.length ↔ (more.map (·.1)).Nodup := by
  have hlength : more.length = (more.map (·.1)).length := (List.length_map _).symm
  rw [length_insertFields, hlength]
  refine ⟨nodup_of_length_eraseDups _, fun h => ?_⟩
  rw [eraseDups_eq_self _ h]

end Likeness.Json
