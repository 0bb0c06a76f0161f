import Likeness.Proofs.Duplicates.View
import Likeness.Proofs.Pairs
import Likeness.Proofs.Resources.KeyPath

namespace Likeness.Resources

open Duplicates Number Similarity

section Files

theorem exists_document_of_mem {ds : List Document} {a : Place} (ha : a ∈ catalogue ds) :
    ∃ d ∈ ds, a.file = d.file ∧ a.keyPath ∈ d.keyPaths := by
  rw [catalogue_eq, List.mem_flatMap] at ha
  obtain ⟨d, hd, hplace⟩ := ha
  have hmem := List.mem_map_of_mem (f := Place.occurrence) hplace
  rw [d.map_occurrence_places, List.mem_map] at hmem
  obtain ⟨path, hpath, heq⟩ := hmem
  simp only [Place.occurrence, Occurrence.mk.injEq, Locator.keyPath.injEq] at heq
  exact ⟨d, hd, heq.1.symm, heq.2.1 ▸ hpath⟩

-- With each file given once, a place is known by its file and its key path.
theorem site_eq_iff {ds : List Document} (hfiles : (ds.map fun d => d.file.steps).Nodup)
    {a b : Place} (ha : a ∈ catalogue ds) (hb : b ∈ catalogue ds) :
    a.occurrence.site = b.occurrence.site ↔ a.file = b.file ∧ a.keyPath = b.keyPath := by
  obtain ⟨d, hd, hfile, -⟩ := exists_document_of_mem ha
  obtain ⟨e, he, hfile', -⟩ := exists_document_of_mem hb
  simp only [Occurrence.site, Place.occurrence, Prod.mk.injEq, Locator.keyPath.injEq]
  refine and_congr_left fun _ => ⟨fun h => ?_, fun h => by rw [h]⟩
  rw [hfile, hfile'] at h ⊢
  rw [List.inj_on_of_nodup_map hfiles hd he h]

-- No two values are in one place just when no document has two values of one key path.
theorem nodup_sites_iff {ds : List Document}
    (hfiles : (ds.map fun d => d.file.steps).Nodup) :
    ((catalogue ds).map (·.occurrence.site)).Nodup ↔ ∀ d ∈ ds, d.keyPaths.Nodup := by
  have hsites : (catalogue ds).map (·.occurrence.site) = ds.flatMap fun d =>
      d.keyPaths.map fun path => (d.file.steps, Locator.keyPath path) := by
    rw [catalogue_eq, List.map_flatMap]
    congr 1
    funext d
    have h := congrArg (List.map Occurrence.site) d.map_occurrence_places
    rw [List.map_map, List.map_map] at h
    exact h
  rw [hsites, List.nodup_flatMap]
  have hpath : ∀ d : Document, (d.keyPaths.map fun path =>
      (d.file.steps, Locator.keyPath path)).Nodup ↔ d.keyPaths.Nodup := by
    intro d
    refine List.nodup_map_iff fun path other heq => ?_
    simpa using heq
  simp only [hpath, and_iff_left_iff_imp]
  intro _
  rw [List.Nodup, List.pairwise_map] at hfiles
  refine hfiles.imp fun hne => ?_
  simp only [Function.onFun, List.disjoint_left, List.mem_map]
  rintro _ ⟨path, -, rfl⟩ ⟨other, -, heq⟩
  exact hne (Prod.mk.inj heq).1.symm

end Files

section Among

variable {α : Type}

theorem findingsAmong_eq (test : Place → Place → Option (Finding α)) (before places : List Place) :
    findingsAmong test before places =
      (metPairs before places).filterMap fun pair => test pair.1 pair.2 := by
  induction places generalizing before with
  | nil => rfl
  | cons current rest ih =>
    rw [findingsAmong, metPairs, List.filterMap_append, ih, List.filterMap_map]
    rfl

end Among

variable {α : Type} [Scalar α]

-- The pairs of values that are counted, the earlier one first.
def counted (o : Options α) (ds : List Document) : List (Place × Place) :=
  (metPairs [] (catalogue ds)).filter fun pair => (valueFinding? o pair.1 pair.2).isSome

theorem length_valueFindings (o : Options α) (ds : List Document) :
    (valueFindings o ds).length = (counted o ds).length := by
  rw [valueFindings, findingsAmong_eq, counted, ← List.countP_eq_length_filter,
    List.length_filterMap_eq_countP]

theorem mem_counted_iff (o : Options α) (ds : List Document) (a b : Place) :
    (a, b) ∈ counted o ds ↔
      [a, b].Sublist (catalogue ds) ∧ (valueFinding? o a b).isSome = true := by
  rw [counted, List.mem_filter, mem_metPairs_iff]
  simp

theorem valueFinding?_eq_some {o : Options α} {a b : Place} {f : Finding α}
    (h : valueFinding? o a b = some f) :
    f.category = .resources ∧ f.occurrences = [a.occurrence, b.occurrence] := by
  unfold valueFinding? at h
  split at h
  · cases h
  · simp only [Option.ite_none_right_eq_some, Option.some.injEq] at h
    rw [← h.2]
    exact ⟨rfl, rfl⟩

theorem category_of_mem_documentFindings (o : Options α) (ds : List Document) :
    ∀ f ∈ documentFindings o ds, f.category = .resources := by
  intro f hf
  unfold documentFindings at hf
  split at hf
  · rw [findingsAmong_eq, List.mem_filterMap] at hf
    obtain ⟨pair, -, hfound⟩ := hf
    unfold documentFinding? at hfound
    simp only [Option.ite_none_right_eq_some, Option.some.injEq] at hfound
    rw [← hfound.2]
    rfl
  · cases hf

theorem category_of_mem_valueFindings (o : Options α) (ds : List Document) :
    ∀ f ∈ valueFindings o ds, f.category = .resources := by
  intro f hf
  rw [valueFindings, findingsAmong_eq, List.mem_filterMap] at hf
  obtain ⟨pair, -, hfound⟩ := hf
  exact (valueFinding?_eq_some hfound).1

-- A pair that is counted is shown as long as its values are in two places, whatever was recorded
-- before.
theorem shownTogether_of_counted (o : Options α) (ds : List Document)
    (earlier : List (Finding α)) {a b : Place} (hcounted : (a, b) ∈ counted o ds)
    (hne : a.occurrence.site ≠ b.occurrence.site) :
    ShownTogether ((Registry.empty.recordAll (earlier ++ valueFindings o ds)).view .resources)
      a.occurrence b.occurrence := by
  obtain ⟨hpair, hsome⟩ := (mem_counted_iff o ds a b).mp hcounted
  obtain ⟨f, hf⟩ := Option.isSome_iff_exists.mp hsome
  obtain ⟨hcategory, hoccurrences⟩ := valueFinding?_eq_some hf
  have hmem : f ∈ valueFindings o ds := by
    rw [valueFindings, findingsAmong_eq, List.mem_filterMap]
    exact ⟨(a, b), (mem_metPairs_iff a b [] _).mpr (.inr hpair), hf⟩
  rw [← hcategory]
  exact Registry.shownTogether_of_mem (List.mem_append_right _ hmem) (by simp [hoccurrences])
    (by simp [hoccurrences]) hne

-- Every pair of values that is counted is shown, but for pairs with one key path in one file. No
-- document has such pairs if its own keys are not empty and no key has a point in it.
theorem counted_shown (o : Options α) (ds : List Document)
    (hfiles : (ds.map fun d => d.file.steps).Nodup) (earlier : List (Finding α)) :
    let shown := (Registry.empty.recordAll (earlier ++ valueFindings o ds)).view .resources
    (valueFindings o ds).length = (counted o ds).length ∧
      (∀ a b, (a, b) ∈ counted o ds → (ShownTogether shown a.occurrence b.occurrence ↔
        ¬(a.file = b.file ∧ a.keyPath = b.keyPath))) ∧
      ((∀ a b, [a, b].Sublist (catalogue ds) → ¬(a.file = b.file ∧ a.keyPath = b.keyPath)) ↔
        ∀ d ∈ ds, d.keyPaths.Nodup) ∧
      (∀ d ∈ ds, d.Plain → distinctBelow d.value = true → d.keyPaths.Nodup) := by
  intro shown
  have hsite : ∀ a b, [a, b].Sublist (catalogue ds) →
      (a.occurrence.site = b.occurrence.site ↔ a.file = b.file ∧ a.keyPath = b.keyPath) :=
    fun a b hpair => site_eq_iff hfiles (hpair.mem (by simp)) (hpair.mem (by simp))
  refine ⟨length_valueFindings o ds, fun a b hcounted => ?_, ?_, fun d _ => Document.Plain.nodup_keyPaths⟩
  · have hpair := ((mem_counted_iff o ds a b).mp hcounted).1
    rw [← hsite a b hpair]
    exact ⟨fun h => h.1, shownTogether_of_counted o ds earlier hcounted⟩
  · rw [← nodup_sites_iff hfiles, List.Nodup, List.pairwise_map, List.pairwise_iff_forall_sublist]
    exact forall₂_congr fun a b => forall_congr' fun hpair => not_congr (hsite a b hpair).symm

-- A point in a key makes it look like two keys.
def pointed : List Document :=
  [⟨"a.json", .object [("a", .object [("b", .string "x")]), ("a.b", .string "x")]⟩]

theorem counted_not_shown_pointed :
    (pointed.map fun d => d.file.steps).Nodup ∧
      (valueFindings (α := Float) .standard pointed).length = 1 ∧
      (Registry.empty.recordAll (valueFindings (α := Float) .standard pointed)).view .resources =
        [] := by
  refine ⟨by decide, by decide +kernel, ?_⟩
  rw [Registry.view_eq_nil_iff]
  decide +kernel

def plain : List Document :=
  [⟨"a.json", .object [("b", .string "x"), ("c", .string "x")]⟩]

theorem counted_shown_plain : (plain.map fun d => d.file.steps).Nodup ∧
    (valueFindings (α := Float) .standard plain).length = 1 ∧
    ∀ a b, (a, b) ∈ counted (α := Float) .standard plain → ShownTogether
      ((Registry.empty.recordAll (valueFindings (α := Float) .standard plain)).view .resources)
      a.occurrence b.occurrence := by
  obtain ⟨-, hshown, hdistinct, hplain⟩ :=
    counted_shown (α := Float) .standard plain (by decide) []
  have hpaths : ∀ d ∈ plain, d.keyPaths.Nodup := by
    intro d hd
    obtain rfl := List.mem_singleton.mp hd
    exact hplain _ hd ⟨by decide, by decide⟩ rfl
  refine ⟨by decide, by decide +kernel, fun a b hcounted => ?_⟩
  rw [List.nil_append] at hshown
  exact (hshown a b hcounted).mpr (hdistinct.mpr hpaths a b ((mem_counted_iff _ _ _ _).mp hcounted).1)

end Likeness.Resources
