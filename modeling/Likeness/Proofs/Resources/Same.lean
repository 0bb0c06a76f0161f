import Likeness.Proofs.Duplicates.Cover
import Likeness.Proofs.Json.Text
import Likeness.Proofs.Resources.Similar
import Likeness.Proofs.Resources.Walk
import Likeness.Proofs.Settings.Range
import Likeness.Proofs.Similarity.Equivalent

namespace Likeness.Resources

open Duplicates Json Number Settings Similarity

-- Whether a group of the highest score has two places.
def ShownSame (shown : List (Duplicates.Group ℚ)) (a b : Occurrence) : Prop :=
  ∃ g ∈ shown, g.similarity = 1 ∧
    a.site ∈ g.occurrences.map Occurrence.site ∧ b.site ∈ g.occurrences.map Occurrence.site

theorem ShownSame.symm {shown : List (Duplicates.Group ℚ)} {a b : Occurrence}
    (h : ShownSame shown a b) : ShownSame shown b a := by
  obtain ⟨g, hg, hone, ha, hb⟩ := h
  exact ⟨g, hg, hone, hb, ha⟩

-- The places of a finding of the highest score are shown in such a group.
theorem shownSame_of_mem {log : List (Finding ℚ)} {f : Finding ℚ} (hf : f ∈ log)
    (hone : f.similarity = 1) {a b : Occurrence} (ha : a ∈ f.occurrences) (hb : b ∈ f.occurrences)
    (hne : a.site ≠ b.site) :
    ShownSame ((Registry.empty.recordAll log).view f.category) a b := by
  obtain ⟨g, hg, -, htells⟩ := Registry.exists_group (fun f _ => Scalar.exact_isNumber _) hf
  have hmem := mem_ofKey_ofCategory_iff.mpr ⟨hf, rfl, rfl⟩
  have ha' := (htells.site_mem_iff a.site).mpr ⟨f, hmem, List.mem_map_of_mem ha⟩
  have hb' := (htells.site_mem_iff b.site).mpr ⟨f, hmem, List.mem_map_of_mem hb⟩
  refine ⟨g, (Registry.mem_view_iff _ _ g).mpr ⟨hg, isDuplicate_of_sites hne ha' hb'⟩, ?_, ha', hb'⟩
  have hle := htells.le_similarity f hmem
  rw [hone, ← Scalar.exact_one, Scalar.limit_one, Scalar.exact_le, Scalar.exact_one] at hle
  obtain ⟨first, -, hsimilarity⟩ := htells.similarity_mem
  refine le_antisymm ?_ hle
  rw [hsimilarity]
  exact (limit_mem_shares _).2

-- Whichever of two places is met first, they are shown if a finding of the highest score is
-- recorded for them.
theorem shownSame_of_met {log : List (Finding ℚ)} {places : List Place} {a b : Place}
    (ha : a ∈ places) (hb : b ∈ places) (hne : a.occurrence.site ≠ b.occurrence.site)
    (hab : [a, b].Sublist places → finding a b 1 ∈ log)
    (hba : [b, a].Sublist places → finding b a 1 ∈ log) :
    ShownSame ((Registry.empty.recordAll log).view .resources) a.occurrence b.occurrence := by
  have hplaces : a ≠ b := fun h => hne (by rw [h])
  rcases pair_sublist_or ha hb hplaces with h | h
  · exact shownSame_of_mem (hab h) rfl (by simp [finding]) (by simp [finding]) hne
  · exact (shownSame_of_mem (hba h) rfl (by simp [finding]) (by simp [finding]) hne.symm).symm

section Findings

-- Thresholds that a whole score reaches.
theorem ofKind_le_one {c : Config ℚ} (hc : c.fault? = none) (kind : Kind) :
    c.resources.thresholds.ofKind kind ≤ 1 := by
  have hshares := (Config.inRange_of_fault? hc).shares
  have hle {x : ℚ} (hx : x ∈ (thresholdsOf c).map (·.2)) : x ≤ 1 := by
    obtain ⟨t, ht, rfl⟩ := List.mem_map.mp hx
    have hshare := hshares t ht
    rw [isShare, Bool.and_eq_true, Scalar.exact_le, Scalar.exact_le] at hshare
    simpa using hshare.2
  cases kind <;> exact hle (by simp [thresholdsOf, Thresholds.ofKind])

-- Options under which equal values are alike.
structure Certain (o : Options ℚ) : Prop extends o.ComparesAll where
  weights : 1 ≤ o.structureWeight + o.valueWeight
  thresholds : ∀ kind, o.thresholds.ofKind kind ≤ 1

-- Two places of one value that is not too deep.
structure SameValue (limit : ℕ) (a b : Place) : Prop where
  value_eq : a.value = b.value
  proper : a.value.Proper
  levels : objectLevels a.value ≤ limit + 1

variable {o : Options ℚ} {ds : List Document} {a b : Place}

theorem SameValue.symm {limit : ℕ} (h : SameValue limit a b) : SameValue limit b a :=
  ⟨h.value_eq.symm, h.value_eq ▸ h.proper, h.value_eq ▸ h.levels⟩

theorem SameValue.score_eq_one (ho : Certain o) (h : SameValue o.maxDepth a b) :
    score o a.value b.value = 1 := by
  rw [← h.value_eq]
  exact score_self ho.toComparesAll ho.weights h.proper h.levels

theorem finding_mem_valueFindings (ho : Certain o) (h : SameValue o.maxDepth a b)
    (hpair : [a, b].Sublist (catalogue ds)) : finding a b 1 ∈ valueFindings o ds := by
  have hone := h.score_eq_one ho
  have hsimilar : Similar o a.value b.value := by
    refine ⟨_, .kind (by rw [h.value_eq]) fun _ => ho.objects, ?_⟩
    rw [hone, Scalar.exact_le]
    exact ho.thresholds _
  rw [valueFindings, findingsAmong_eq, List.mem_filterMap]
  refine ⟨(a, b), (mem_metPairs_iff a b [] _).mpr (.inr hpair), ?_⟩
  rw [valueFinding?_eq_some_iff, hone]
  exact ⟨hsimilar, rfl⟩

theorem finding_mem_documentFindings (ho : Certain o) (h : SameValue o.maxDepth a b)
    (hobject : Kind.ofValue a.value = .object)
    (hpair : [a, b].Sublist (ds.map Place.ofDocument)) :
    finding a b 1 ∈ documentFindings o ds := by
  have hone : objectScore o false a.value b.value = 1 := by
    rw [objectScore_eq_score o hobject (h.value_eq ▸ hobject), h.score_eq_one ho]
  rw [documentFindings, if_pos ho.objects, findingsAmong_eq, List.mem_filterMap]
  refine ⟨(a, b), (mem_metPairs_iff a b [] _).mpr (.inr hpair), ?_⟩
  rw [documentFinding?, hone]
  exact if_pos ((Scalar.exact_le _ _).mpr (ho.thresholds .object))

end Findings

-- Equal values are never missed: wherever two of them are compared, a group of the highest score
-- has them both, unless they nest too many objects.
theorem shownSame {c : Config ℚ} (hc : c.fault? = none) (hall : c.resources.ComparesAll)
    (hweights : 1 ≤ c.resources.structureWeight + c.resources.valueWeight) {ds : List Document}
    (hds : ∀ d ∈ ds, d.value.Proper) (earlier : List (Finding ℚ)) :
    let o := c.resources
    let shown := (Registry.empty.recordAll
      (earlier ++ documentFindings o ds ++ valueFindings o ds)).view .resources
    (∀ p, p ∈ catalogue ds ↔ ∃ d ∈ ds, ∃ chain v, chain ≠ [] ∧ chain.length ≤ depthLimit ∧
      d.value.follow chain = some v ∧ p = .under d.file "" chain v) ∧
    (∀ a ∈ catalogue ds, ∀ b ∈ catalogue ds, a.value.text = b.value.text →
      a.occurrence.site ≠ b.occurrence.site → objectLevels a.value ≤ o.maxDepth + 1 →
      ShownSame shown a.occurrence b.occurrence) ∧
    (∀ d ∈ ds, ∀ e ∈ ds, Kind.ofValue d.value = .object → d.value.text = e.value.text →
      d.file.steps ≠ e.file.steps → objectLevels d.value ≤ o.maxDepth + 1 →
      ShownSame shown (Place.ofDocument d).occurrence (Place.ofDocument e).occurrence) := by
  intro o shown
  have ho : Certain o := ⟨hall, hweights, ofKind_le_one hc⟩
  have hproper : ∀ p ∈ catalogue ds, p.value.Proper := by
    intro p hp
    obtain ⟨d, hd, chain, v, -, -, hfollow, rfl⟩ := (mem_catalogue_iff hds p).mp hp
    exact (hds d hd).follow hfollow
  refine ⟨mem_catalogue_iff hds, ?_, ?_⟩
  · intro a ha b hb htext hne hlevels
    have hsame : SameValue o.maxDepth a b :=
      ⟨Value.text_injective (hproper a ha) (hproper b hb) htext, hproper a ha, hlevels⟩
    exact shownSame_of_met ha hb hne
      (fun h => List.mem_append_right _ (finding_mem_valueFindings ho hsame h))
      (fun h => List.mem_append_right _ (finding_mem_valueFindings ho hsame.symm h))
  · intro d hd e he hobject htext hne hlevels
    have hvalue := Value.text_injective (hds d hd) (hds e he) htext
    have hobject' : Kind.ofValue e.value = .object := hvalue ▸ hobject
    have hsame : SameValue o.maxDepth (.ofDocument d) (.ofDocument e) :=
      ⟨hvalue, hds d hd, hlevels⟩
    have hsites :
        (Place.ofDocument d).occurrence.site ≠ (Place.ofDocument e).occurrence.site := by
      intro hsite
      have hsteps := Occurrence.steps_of_site_eq hsite
      exact hne hsteps
    refine shownSame_of_met (List.mem_map_of_mem hd) (List.mem_map_of_mem he) hsites
      (fun h => ?_) (fun h => ?_)
    · exact List.mem_append_left _ (List.mem_append_right _
        (finding_mem_documentFindings ho hsame hobject h))
    · exact List.mem_append_left _ (List.mem_append_right _
        (finding_mem_documentFindings ho hsame.symm hobject' h))

def nested : Value := .object [("x", .array [.null])]

def mirrored (file : Files.Path) : Document := ⟨file, .object [("k", nested)]⟩

theorem shownSame_mirrored :
    let c : Config ℚ := .standard
    let o := c.resources
    let ds := [mirrored "a.json", mirrored "b.json"]
    let shown := (Registry.empty.recordAll
      ([] ++ documentFindings o ds ++ valueFindings o ds)).view .resources
    c.fault? = none ∧ o.ComparesAll ∧ 1 ≤ o.structureWeight + o.valueWeight ∧
      (∀ d ∈ ds, d.value.Proper) ∧
      ShownSame shown ⟨"a.json", .keyPath "k", none⟩ ⟨"b.json", .keyPath "k", none⟩ ∧
      ShownSame shown ⟨"a.json", .keyPath "", none⟩ ⟨"b.json", .keyPath "", none⟩ := by
  intro c o ds shown
  have hc : c.fault? = none := by
    rw [Config.fault?_eq_none_iff]
    constructor <;> decide +kernel
  have hall : o.ComparesAll := ⟨rfl, rfl, rfl, rfl⟩
  have hweights : 1 ≤ o.structureWeight + o.valueWeight := by
    norm_num [o, c, Config.standard, Options.standard]
  have hproper : ∀ d ∈ ds, d.value.Proper := by simp [ds, mirrored, nested]
  obtain ⟨hplaces, hvalues, hdocuments⟩ := shownSame hc hall hweights hproper []
  have ha : mirrored "a.json" ∈ ds := List.mem_cons_self
  have hb : mirrored "b.json" ∈ ds := List.mem_cons_of_mem _ (List.mem_singleton_self _)
  have hplace {file : Files.Path} (hd : mirrored file ∈ ds) :
      .under file "" ["k"] nested ∈ catalogue ds :=
    (hplaces _).mpr ⟨_, hd, ["k"], nested, by decide, by decide, rfl, rfl⟩
  have hfiles : ("a.json" : Files.Path).steps ≠ ("b.json" : Files.Path).steps := by decide +kernel
  have hlevels : objectLevels nested ≤ o.maxDepth + 1 := by decide
  have hlevels' : objectLevels (mirrored "a.json").value ≤ o.maxDepth + 1 := by decide
  have hsites : (Place.under "a.json" "" ["k"] nested).occurrence.site ≠
      (Place.under "b.json" "" ["k"] nested).occurrence.site := by
    intro hsite
    have hsteps := Occurrence.steps_of_site_eq hsite
    exact hfiles hsteps
  have hvalue := hvalues _ (hplace ha) _ (hplace hb) rfl hsites hlevels
  have hdocument := hdocuments _ ha _ hb rfl rfl hfiles hlevels'
  exact ⟨hc, hall, hweights, hproper, hvalue, hdocument⟩

end Likeness.Resources
