import Likeness.Proofs.Duplicates.Log

namespace Likeness.Duplicates

open Number

section Groups

variable {α : Type}

-- Whether two places are seen to be alike: a group has them as two different places.
def ShownTogether (shown : List (Group α)) (o p : Occurrence) : Prop :=
  o.site ≠ p.site ∧ ∃ g ∈ shown,
    o.site ∈ g.occurrences.map Occurrence.site ∧ p.site ∈ g.occurrences.map Occurrence.site

theorem isDuplicate_of_sites {g : Group α} {s t : Files.Steps × Locator} (hne : s ≠ t)
    (hs : s ∈ g.occurrences.map Occurrence.site) (ht : t ∈ g.occurrences.map Occurrence.site) :
    g.isDuplicate = true := by
  rw [Group.isDuplicate, decide_eq_true_iff, Group.size]
  rcases hg : g.occurrences with _ | ⟨o, _ | ⟨p, ps⟩⟩
  · simp [hg] at hs
  · simp only [hg, List.map_singleton, List.mem_singleton] at hs ht
    exact absurd (hs.trans ht.symm) hne
  · simp

theorem exists_sites_of_isDuplicate {g : Group α}
    (hnodup : (g.occurrences.map Occurrence.site).Nodup) (h : g.isDuplicate = true) :
    ∃ s ∈ g.occurrences.map Occurrence.site, ∃ t ∈ g.occurrences.map Occurrence.site, s ≠ t := by
  rw [Group.isDuplicate, decide_eq_true_iff, Group.size] at h
  rcases hg : g.occurrences with _ | ⟨o, _ | ⟨p, ps⟩⟩
  · simp [hg] at h
  · simp [hg] at h
  · rw [hg, List.map_cons, List.map_cons, List.nodup_cons, List.mem_cons, not_or] at hnodup
    exact ⟨o.site, by simp, p.site, by simp, hnodup.1.1⟩

end Groups

namespace Registry

variable {α : Type} [Scalar α]

theorem mem_view_iff (r : Registry α) (category : Category) (g : Group α) :
    g ∈ r.view category ↔ g ∈ r.groups category ∧ g.isDuplicate = true := by
  cases category <;> simp [view]

theorem view_eq_nil_iff (r : Registry α) (category : Category) :
    r.view category = [] ↔ ∀ g ∈ r.groups category, g.isDuplicate = false := by
  simp [List.eq_nil_iff_forall_not_mem, mem_view_iff]

theorem view_eq_of_shelf_eq {r s : Registry α} {category : Category}
    (h : r.shelf category = s.shelf category) : r.view category = s.view category := by
  have hgroups : r.groups category = s.groups category := congrArg Shelf.groups h
  cases category <;> simp only [view, hgroups]

-- Findings of other categories make no difference.
theorem shelf_ofCategory (log : List (Finding α)) (category : Category) :
    (empty.recordAll (ofCategory category log)).shelf category =
      (empty.recordAll log).shelf category := by
  rw [shelf_recordAll, shelf_recordAll, ofCategory_ofCategory]

theorem view_ofCategory (log : List (Finding α)) (category : Category) :
    (empty.recordAll (ofCategory category log)).view category =
      (empty.recordAll log).view category := view_eq_of_shelf_eq (shelf_ofCategory log category)

theorem groups_ofCategory (log : List (Finding α)) (category : Category) :
    (empty.recordAll (ofCategory category log)).groups category =
      (empty.recordAll log).groups category :=
  congrArg Shelf.groups (shelf_ofCategory log category)

theorem nodup_keys (log : List (Finding α)) (category : Category) :
    (((empty.recordAll log).groups category).map (·.key)).Nodup :=
  (follows_recordAll log category).inStep.nodup_keys

theorem nodup_keys_view (log : List (Finding α)) (category : Category) :
    (((empty.recordAll log).view category).map (·.key)).Nodup := by
  have hshown : ((empty.recordAll log).view category).Perm
      (((empty.recordAll log).groups category).filter Group.isDuplicate) := by
    cases category with
    | resources => exact List.mergeSort_perm _ _
    | _ => exact List.Perm.refl _
  rw [(hshown.map _).nodup_iff]
  exact (nodup_keys log category).sublist (List.filter_sublist.map _)

-- A place of a group comes from a finding, all of whose places are in the group.
theorem exists_finding_of_mem_view {log : List (Finding α)} {category : Category} {g : Group α}
    (hg : g ∈ (empty.recordAll log).view category) {o : Occurrence} (ho : o ∈ g.occurrences) :
    ∃ f ∈ log, (∃ p ∈ f.occurrences, p.site = o.site) ∧
      ∀ p ∈ f.occurrences, p.site ∈ g.occurrences.map Occurrence.site := by
  have hgather := (follows_recordAll log category).gather_eq g ((mem_view_iff ..).mp hg).1
  have hsites (site : Files.Steps × Locator) : site ∈ g.occurrences.map Occurrence.site ↔
      ∃ f ∈ ofKey g.key (ofCategory category log), ∃ p ∈ f.occurrences, p.site = site := by
    rw [occurrences_of_gather hgather, Occurrence.mem_site_distinct]
    simp only [List.mem_map, List.mem_flatMap]
    grind
  obtain ⟨f, hf, hp⟩ := (hsites o.site).mp (List.mem_map_of_mem ho)
  exact ⟨f, List.mem_of_mem_filter (List.mem_of_mem_filter hf), hp,
    fun p hp => (hsites p.site).mpr ⟨f, hf, p, hp, rfl⟩⟩

-- Two places of one finding are shown together as long as they are two.
theorem shownTogether_of_mem {log : List (Finding α)} {f : Finding α} (hf : f ∈ log)
    {o p : Occurrence} (ho : o ∈ f.occurrences) (hp : p ∈ f.occurrences)
    (hne : o.site ≠ p.site) :
    ShownTogether ((empty.recordAll log).view f.category) o p := by
  have hfollows := follows_recordAll log f.category
  have hmem : f ∈ ofCategory f.category log := by simpa [ofCategory] using hf
  obtain ⟨g, hg, hkey⟩ :
      ∃ g ∈ ((empty.recordAll log).shelf f.category).groups, g.key = f.key :=
    List.mem_map.mp ((hfollows.mem_keys_iff f.key).mpr (List.mem_map_of_mem hmem))
  have hsites : ∀ q ∈ f.occurrences, q.site ∈ g.occurrences.map Occurrence.site := by
    intro q hq
    rw [occurrences_of_gather (hfollows.gather_eq g hg), Occurrence.mem_site_distinct]
    refine List.mem_map_of_mem (List.mem_flatMap.mpr ⟨f, ?_, hq⟩)
    simp [ofKey, hmem, hkey]
  exact ⟨hne, g, (mem_view_iff _ _ g).mpr
    ⟨hg, isDuplicate_of_sites hne (hsites o ho) (hsites p hp)⟩, hsites o ho, hsites p hp⟩

end Registry

end Likeness.Duplicates
