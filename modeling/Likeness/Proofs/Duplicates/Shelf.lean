import Likeness.Proofs.Duplicates.Site

namespace Likeness.Duplicates.Shelf

open Number

section Index

variable {α : Type}

def keys (s : Shelf α) : List String := s.groups.map (·.key)

-- The index is in step with the groups: a key stands where its group does, and no other key stands
-- anywhere.
def InStep (s : Shelf α) : Prop := ∀ key i, s.place? key = some i ↔ s.keys[i]? = some key

theorem inStep_empty : (empty : Shelf α).InStep := by simp [InStep, empty, place?, keys]

-- Two groups of one key would both stand in its one place.
theorem InStep.nodup_keys {s : Shelf α} (h : s.InStep) : s.keys.Nodup := by
  rw [List.nodup_iff_getElem?_ne_getElem?]
  intro i j hij hj heq
  have hkey : s.keys[j]? = some s.keys[j] := List.getElem?_eq_getElem hj
  have hi : s.place? s.keys[j] = some i := (h _ i).mpr (heq.trans hkey)
  have hplace : s.place? s.keys[j] = some j := (h _ j).mpr hkey
  rw [hi, Option.some.injEq] at hplace
  omega

theorem InStep.isSome_place?_iff {s : Shelf α} (h : s.InStep) (key : String) :
    (s.place? key).isSome = true ↔ key ∈ s.keys := by
  rw [Option.isSome_iff_exists, List.mem_iff_getElem?]
  simp only [h key]

theorem InStep.place?_eq_none_iff {s : Shelf α} (h : s.InStep) (key : String) :
    s.place? key = none ↔ key ∉ s.keys := by
  rw [← h.isSome_place?_iff, Option.isSome_iff_ne_none, not_not]

-- The group of a key, whether or not it is shown.
def group? (s : Shelf α) (key : String) : Option (Group α) := s.groups.find? (·.key = key)

-- The occurrences of the group of a key; none without a group.
def occurrencesAt (s : Shelf α) (key : String) : List Occurrence :=
  (s.group? key).elim [] (·.occurrences)

theorem InStep.group?_eq_some_iff {s : Shelf α} (h : s.InStep) (g : Group α) (key : String) :
    s.group? key = some g ↔ g ∈ s.groups ∧ g.key = key := by
  constructor
  · intro hg
    exact ⟨List.mem_of_find?_eq_some hg, by simpa using List.find?_some hg⟩
  · rintro ⟨hg, rfl⟩
    obtain ⟨other, hother⟩ : ∃ other, s.group? g.key = some other :=
      Option.isSome_iff_exists.mp (List.find?_isSome.mpr ⟨g, hg, by simp⟩)
    have hkey : other.key = g.key := by simpa using List.find?_some hother
    rw [hother, List.inj_on_of_nodup_map h.nodup_keys (List.mem_of_find?_eq_some hother) hg hkey]

theorem group?_eq_none_iff (s : Shelf α) (key : String) :
    s.group? key = none ↔ key ∉ s.keys := by
  simp [group?, keys]

theorem getElem?_concat_eq_some_iff {β : Type} (bs : List β) (b c : β) (i : Nat) :
    (bs ++ [b])[i]? = some c ↔ bs[i]? = some c ∨ i = bs.length ∧ b = c := by
  rcases Nat.lt_trichotomy i bs.length with hi | hi | hi
  · rw [List.getElem?_append_left hi]
    simp [Nat.ne_of_lt hi]
  · subst hi
    simp
  · rw [List.getElem?_eq_none (by rw [List.length_append, List.length_singleton]; omega),
      List.getElem?_eq_none (Nat.le_of_lt hi)]
    simp [Nat.ne_of_gt hi]

-- A new group is put last, where the index says it stands.
theorem InStep.append {s : Shelf α} (h : s.InStep) (g : Group α) (hnew : s.place? g.key = none) :
    InStep ⟨s.groups ++ [g], (g.key, s.groups.length) :: s.places⟩ := by
  intro key i
  have hlength : s.groups.length = s.keys.length := by simp [keys]
  have hkeys : keys ⟨s.groups ++ [g], (g.key, s.groups.length) :: s.places⟩ =
      s.keys ++ [g.key] := by simp [keys]
  rw [hkeys, getElem?_concat_eq_some_iff, ← h key i, place?, List.lookup_cons, hlength]
  by_cases hk : key = g.key
  · subst hk
    simp [hnew, eq_comm]
  · simp [beq_eq_false_iff_ne.mpr hk, Ne.symm hk, place?]

-- Where a group is replaced by one of its key, all keys stay where they are.
theorem InStep.of_keys_eq {s t : Shelf α} (h : s.InStep) (hkeys : t.keys = s.keys)
    (hplaces : t.places = s.places) : t.InStep := by
  intro key i
  rw [hkeys, place?, hplaces]
  exact h key i

end Index

variable {α : Type} [Scalar α]

-- All that a finding can do to a shelf: it changes the group of its key, or puts a new group last.
theorem record_cases {s : Shelf α} (h : s.InStep) (f : Finding α) :
    (∃ before g after, s.groups = before ++ g :: after ∧ g.key = f.key ∧
      s.record f = (⟨before ++ f.addTo g :: after, s.places⟩, (f.addTo g).size - g.size)) ∨
    (f.key ∉ s.keys ∧
      s.record f = (⟨s.groups ++ [f.addTo f.firstGroup], (f.key, s.groups.length) :: s.places⟩,
        (f.addTo f.firstGroup).size)) := by
  cases hplace : s.place? f.key with
  | some place =>
    left
    obtain ⟨g, hg, hkey⟩ : ∃ g, s.groups[place]? = some g ∧ g.key = f.key := by
      simpa [keys] using (h f.key place).mp hplace
    obtain ⟨hlt, hg'⟩ := List.getElem?_eq_some_iff.mp hg
    obtain ⟨before, after, hgroups, hset⟩ : ∃ before after, s.groups = before ++ g :: after ∧
        s.groups.set place (f.addTo g) = before ++ f.addTo g :: after := by
      obtain ⟨before, after, hgroups, -, hset⟩ := List.exists_of_set hlt
      exact ⟨before, after, by rwa [hg'] at hgroups, hset⟩
    refine ⟨before, g, after, hgroups, hkey, ?_⟩
    simp [record, entry, hplace, hg, hset]
  | none =>
    right
    refine ⟨(h.place?_eq_none_iff f.key).mp hplace, ?_⟩
    have hfirst : f.firstGroup.size = 0 := rfl
    simp [record, entry, hplace, hfirst, List.set_append_right]

theorem InStep.record {s : Shelf α} (h : s.InStep) (f : Finding α) : (s.record f).1.InStep := by
  rcases record_cases h f with ⟨before, g, after, hgroups, hkey, hrecord⟩ | ⟨hnew, hrecord⟩
  · rw [hrecord]
    exact h.of_keys_eq (by simp [keys, hgroups]) rfl
  · rw [hrecord]
    simpa using h.append (f.addTo f.firstGroup) (by simpa [h.place?_eq_none_iff] using hnew)

-- A finding leaves the groups of other keys as they are.
theorem group?_record_other {s : Shelf α} (h : s.InStep) (f : Finding α) (key : String)
    (hne : key ≠ f.key) : (s.record f).1.group? key = s.group? key := by
  rcases record_cases h f with ⟨before, g, after, hgroups, hkey, hrecord⟩ | ⟨hnew, hrecord⟩
  · have hg : g.key ≠ key := by rw [hkey]; exact hne.symm
    simp [hrecord, group?, hgroups, List.find?_append, hg]
  · simp [hrecord, group?, List.find?_append, hne.symm]

end Likeness.Duplicates.Shelf
