import Likeness.Proofs.Duplicates.View

namespace Likeness

namespace Duplicates

open Number

section Groups

variable {α : Type}

theorem ofKey_eq_singleton {log : List (Finding α)} (hkeys : (log.map (·.key)).Nodup)
    {f : Finding α} (hf : f ∈ log) : ofKey f.key log = [f] := by
  induction log with
  | nil => cases hf
  | cons first log ih =>
    obtain ⟨hnew, hrest⟩ := List.nodup_cons.mp hkeys
    rcases List.mem_cons.mp hf with rfl | hmem
    · rw [ofKey, List.filter_cons_of_pos (by simp)]
      exact congrArg (f :: ·) ((ofKey_eq_nil_iff f.key log).mpr hnew)
    · have hne : first.key ≠ f.key := by
        intro heq
        apply hnew
        change first.key ∈ log.map (·.key)
        rw [heq]
        exact List.mem_map_of_mem hmem
      rw [ofKey, List.filter_cons_of_neg (by simpa using hne)]
      exact ih hrest hmem

end Groups

variable {α : Type} [Scalar α]

-- The group that a finding makes alone.
def Finding.group (f : Finding α) : Group α :=
  ⟨f.category, f.key, f.representative, Scalar.limit f.similarity,
    Occurrence.distinct f.occurrences⟩

theorem gather_singleton (f : Finding α) : gather [f] = some f.group := by
  simp [gather, Finding.group]

namespace Shelf

theorem Follows.length_groups_le {s : Shelf α} {log : List (Finding α)} (h : s.Follows log) :
    s.groups.length ≤ log.length := by
  have hlength := length_eraseDups_le (log.map (·.key))
  rwa [List.length_map, ← keysOf, ← h.keys_eq, keys, List.length_map] at hlength

theorem Follows.nodup_of_length_groups {s : Shelf α} {log : List (Finding α)} (h : s.Follows log)
    (hlength : s.groups.length = log.length) : (log.map (·.key)).Nodup := by
  refine nodup_of_length_eraseDups _ ?_
  rw [← keysOf, ← h.keys_eq, keys, List.length_map, List.length_map, hlength]

-- Findings of different keys stay apart.
theorem Follows.groups_eq {s : Shelf α} {log : List (Finding α)} (h : s.Follows log)
    (hkeys : (log.map (·.key)).Nodup) : s.groups = log.map Finding.group := by
  have hsame : s.groups.map (·.key) = log.map (·.key) := by
    rw [← eraseDups_eq_self _ hkeys]
    exact h.keys_eq
  have hgroups : s.groups.map some = (s.groups.map (·.key)).map fun key => gather (ofKey key log) := by
    rw [List.map_map]
    exact List.map_congr_left fun g hg => (h.gather_eq g hg).symm
  have hlog : (log.map Finding.group).map some =
      (log.map (·.key)).map fun key => gather (ofKey key log) := by
    rw [List.map_map, List.map_map]
    refine List.map_congr_left fun f hf => ?_
    simp only [Function.comp_apply, ofKey_eq_singleton hkeys hf, gather_singleton]
  exact List.map_injective_iff.mpr (fun _ _ => Option.some.inj)
    (hgroups.trans ((congrArg _ hsame).trans hlog.symm))

end Shelf

namespace Registry

variable {log : List (Finding α)} {category : Category}

theorem length_view (r : Registry α) (category : Category) :
    (r.view category).length = ((r.groups category).filter Group.isDuplicate).length := by
  cases category with
  | resources => exact List.length_mergeSort _
  | _ => rfl

-- No group is missing just when all findings have different keys and give two places or more.
theorem length_view_eq_iff (hlog : ∀ f ∈ log, f.category = category) :
    ((empty.recordAll log).view category).length = log.length ↔
      (log.map (·.key)).Nodup ∧ ∀ f ∈ log, f.group.isDuplicate = true := by
  have hfollows := follows_of_category hlog
  rw [length_view]
  constructor
  · intro hlength
    have hshown := List.length_filter_le Group.isDuplicate ((empty.recordAll log).groups category)
    have hgroups : ((empty.recordAll log).groups category).length ≤ log.length :=
      hfollows.length_groups_le
    have hall : ((empty.recordAll log).groups category).length = log.length := by omega
    have hkeys := hfollows.nodup_of_length_groups hall
    refine ⟨hkeys, fun f hf => ?_⟩
    have hfilter : ((empty.recordAll log).groups category).filter Group.isDuplicate =
        (empty.recordAll log).groups category := List.filter_sublist.eq_of_length_le (by omega)
    rw [groups, hfollows.groups_eq hkeys] at hfilter
    exact List.filter_eq_self.mp hfilter _ (List.mem_map_of_mem hf)
  · rintro ⟨hkeys, hshown⟩
    rw [groups, hfollows.groups_eq hkeys, List.filter_eq_self.mpr, List.length_map]
    simpa using hshown

-- Then the groups are those of the findings, in their order where it is kept.
theorem view_eq (hlog : ∀ f ∈ log, f.category = category) (horder : category ≠ .resources)
    (hkeys : (log.map (·.key)).Nodup) (hshown : ∀ f ∈ log, f.group.isDuplicate = true) :
    (empty.recordAll log).view category = log.map Finding.group := by
  have hfollows := follows_of_category hlog
  have hview : (empty.recordAll log).view category =
      ((empty.recordAll log).groups category).filter Group.isDuplicate := by
    cases category with
    | resources => exact absurd rfl horder
    | _ => rfl
  rw [hview, groups, hfollows.groups_eq hkeys, List.filter_eq_self]
  simpa using hshown

end Registry

end Duplicates

end Likeness
