import Likeness.Proofs.Components.Overall
import Likeness.Proofs.Resources.About
import Likeness.Proofs.Resources.Same
import Likeness.Proofs.Scan.Compared

namespace Likeness

open Duplicates Number Resources Settings Similarity

-- What is at least as high as some share is so after it is brought into [0, 1].
theorem Number.Scalar.le_limit {x y : ℚ} (hx : x ≤ 1) (hxy : x ≤ y) : x ≤ Scalar.limit y := by
  rw [Scalar.limit_eq_clamp, Scalar.exact_clamp]
  exact le_min (hxy.trans (le_max_left _ _)) hx

section Tells

variable {log : List (Finding ℚ)} {g : Duplicates.Group ℚ}

theorem Duplicates.Tells.le_of_mem (h : Tells log g) {f : Finding ℚ} (hf : f ∈ log) {x : ℚ}
    (hx : x ≤ 1) (hle : x ≤ f.similarity) : x ≤ g.similarity := by
  have hlimit := (Scalar.exact_le _ _).mp (h.le_similarity f hf)
  exact (Scalar.le_limit hx hle).trans hlimit

theorem Duplicates.Tells.mem_shares (h : Tells log g) : g.similarity ∈ shares := by
  obtain ⟨f, -, hsimilarity⟩ := h.similarity_mem
  rw [hsimilarity]
  exact limit_mem_shares _

end Tells

namespace Module

theorem similarity_nonneg (a b : Module) : 0 ≤ (similarity a b : ℚ) := by
  unfold similarity
  dsimp only
  split
  · exact le_rfl
  · exact div_nonneg (Nat.cast_nonneg _) (Nat.cast_nonneg _)

theorem percent_one : percent (1 : ℚ) = 100 := by decide +kernel

-- A score above 1 counts as 1, of which the percentage is above all cutoffs.
theorem le_percent_limit {a b : Module} {cutoff : ℚ} (hcutoff : cutoff ≤ 100)
    (h : cutoff ≤ percent (similarity a b)) :
    cutoff ≤ percent (Scalar.limit (similarity a b)) := by
  by_cases hone : (similarity a b : ℚ) ≤ 1
  · rwa [Scalar.exact_limit _ ⟨similarity_nonneg a b, hone⟩]
  · have hlimit : Scalar.limit (similarity a b : ℚ) = 1 := by
      rw [Scalar.limit_eq_clamp, Scalar.exact_clamp, min_eq_right]
      exact (not_le.mp hone).le.trans (le_max_left _ _)
    rw [hlimit, percent_one]
    exact hcutoff

end Module

namespace Scan

section Groups

variable {c : Config ℚ} {m : Material} {g : Duplicates.Group ℚ}

-- What the score of a group has to reach.
def Reaches (c : Config ℚ) (m : Material) (g : Duplicates.Group ℚ) : Category → Prop
  | .functions => g.similarity = 1
  | .modules => c.moduleCutoffPercent ≤ Module.percent g.similarity
  | .resources =>
    let recorded := Recorded c.resources (Outcome.kept m.documents) g.key
    (∃ s a b, recorded s a b) ∧ ∀ s a b, recorded s a b →
      ∀ cutoff, s.Cutoff c.resources a.value b.value cutoff → cutoff ≤ g.similarity
  | .components => c.components.threshold ≤ g.similarity

-- A group with all that it is reported for.
structure Justified (c : Config ℚ) (m : Material) (category : Category)
    (g : Duplicates.Group ℚ) : Prop where
  category_eq : g.category = category
  two_le : 2 ≤ g.occurrences.length
  nodup_sites : (g.occurrences.map Occurrence.site).Nodup
  similarity_mem : g.similarity ∈ shares
  reaches : Reaches c m g category

section Categories

variable (hc : c.fault? = none)

theorem reaches_functions
    (h : Tells (ofKey g.key ((m.allFindings c).ofCategory .functions)) g) :
    Reaches c m g .functions := by
  obtain ⟨f, hf, -⟩ := h.similarity_mem
  have hone : f.similarity = 1 := by
    have hmem : f ∈ m.functionFindings c := List.mem_of_mem_filter hf
    unfold Material.functionFindings at hmem
    split at hmem
    · exact FunctionIndex.similarity_of_mem_findings _ _ f hmem
    · cases hmem
  exact le_antisymm h.mem_shares.2 (h.le_of_mem hf le_rfl hone.ge)

include hc

theorem reaches_modules (h : Tells (ofKey g.key ((m.allFindings c).ofCategory .modules)) g) :
    Reaches c m g .modules := by
  obtain ⟨f, hf, hsimilarity⟩ := h.similarity_mem
  obtain ⟨a, b, hfound⟩ : ∃ a b, Modules.finding? c.moduleCutoffPercent (a, b) = some f := by
    have hmem : f ∈ (m.allFindings c).modules := List.mem_of_mem_filter hf
    unfold Material.allFindings at hmem
    dsimp only at hmem
    split at hmem
    · obtain ⟨⟨a, b⟩, -, hfound⟩ := List.mem_filterMap.mp hmem
      exact ⟨a, b, hfound⟩
    · cases hmem
  have hcutoff := (Config.inRange_of_fault? hc).cutoff_le
  rw [Scalar.exact_le] at hcutoff
  obtain ⟨hpercent, rfl⟩ := Modules.finding?_eq_some_iff.mp hfound
  rw [← Bool.not_eq_true, Scalar.exact_lt, not_lt] at hpercent
  rw [Reaches, hsimilarity]
  exact Module.le_percent_limit hcutoff hpercent

theorem reaches_components
    (h : Tells (ofKey g.key ((m.allFindings c).ofCategory .components)) g) :
    Reaches c m g .components := by
  obtain ⟨f, hf, -⟩ := h.similarity_mem
  have hthreshold := Components.threshold_le_one (Config.inRange_of_fault? hc)
  refine h.le_of_mem hf hthreshold ?_
  have hmem : f ∈ m.componentFindings c := List.mem_of_mem_filter hf
  unfold Material.componentFindings at hmem
  split at hmem
  · rw [Components.findings_eq, List.mem_map] at hmem
    obtain ⟨pair, hpair, rfl⟩ := hmem
    have hscore := (List.mem_filter.mp hpair).2
    rwa [Bool.not_eq_true', ← Bool.not_eq_true, Scalar.exact_lt, not_lt] at hscore
  · cases hmem

theorem cutoff_le_one {s : Scope} {a b : Json.Value} {cutoff : ℚ}
    (h : s.Cutoff c.resources a b cutoff) : cutoff ≤ 1 := by
  cases s with
  | documents =>
    rw [h.2]
    exact ofKind_le_one hc .object
  | values =>
    cases h with
    | kind => exact ofKind_le_one hc _
    | number => exact ofKind_le_one hc .number

theorem reaches_resources
    (h : Tells (ofKey g.key ((m.allFindings c).ofCategory .resources)) g) :
    Reaches c m g .resources := by
  have hlog : (m.allFindings c).ofCategory .resources =
      if c.categories.resources then log c.resources (Outcome.kept m.documents) else [] := by
    change m.documentFindings c ++ m.valueFindings c = _
    unfold Material.documentFindings Material.valueFindings
    split <;> rfl
  obtain ⟨f, hf, -⟩ := h.similarity_mem
  rw [hlog] at h hf
  split at h
  · rename_i hon
    rw [if_pos hon] at hf
    constructor
    · obtain ⟨s, a, b, hrecorded, -⟩ := (mem_ofKey_log_iff g.key f).mp hf
      exact ⟨s, a, b, hrecorded⟩
    · intro s a b hrecorded cutoff hcutoff
      have hmem := (mem_ofKey_log_iff g.key _).mpr ⟨s, a, b, hrecorded, rfl⟩
      obtain ⟨least, hleast, hle⟩ := hrecorded.alike
      rw [hcutoff.unique hleast]
      exact h.le_of_mem hmem (cutoff_le_one hc hleast) ((Scalar.exact_le _ _).mp hle)
  · rename_i hoff
    rw [if_neg hoff] at hf
    cases hf

theorem justified_of_mem {category : Category}
    (hg : g ∈ (m.allFindings c).report.groups category) : Justified c m category g := by
  have hsorted := m.sorted_allFindings c
  rw [hsorted.groups_report, Registry.mem_view_iff] at hg
  obtain ⟨hmem, hduplicate⟩ := hg
  have hagrees := Registry.agrees_recordAll ((m.allFindings c).ofCategory category)
    fun f _ => Scalar.exact_isNumber _
  obtain ⟨hcategory, htells⟩ := hagrees.tells category g hmem
  rw [← hsorted.ofCategory_all, ofCategory_ofCategory, hsorted.ofCategory_all] at htells
  have htwo : 2 ≤ g.occurrences.length := by
    rwa [Group.isDuplicate, decide_eq_true_iff] at hduplicate
  refine ⟨hcategory, htwo, htells.nodup_sites, htells.mem_shares, ?_⟩
  cases category with
  | functions => exact reaches_functions htells
  | modules => exact reaches_modules hc htells
  | resources => exact reaches_resources hc htells
  | components => exact reaches_components hc htells

end Categories

end Groups

-- Each group that a scan reports is justified, whatever was read, and there is one for each key.
theorem reported_groups_justified {c : Config ℚ} (hc : c.fault? = none) {guard : MemoryGuard}
    {m : Material} {f : Findings ℚ} (h : m.findings c guard = .ok f) (category : Category) :
    ((f.report.groups category).map (·.key)).Nodup ∧
      ∀ g ∈ f.report.groups category, Justified c m category g := by
  obtain rfl := Material.eq_allFindings h
  constructor
  · rw [(m.sorted_allFindings c).groups_report]
    exact Registry.nodup_keys_view _ _
  · intro g hg
    exact justified_of_mem hc hg

-- Two files of one function, and two documents without any fields.
def twins : Project :=
  ⟨Project.sourceOf "a.ts" "var f=x=>x" ++ Project.sourceOf "b.ts" "var g=x=>x",
    [.ok ⟨"a.json", .object []⟩, .ok ⟨"b.json", .object []⟩]⟩

theorem reported_groups_justified_twins :
    let c : Config ℚ := .standard
    let m := twins.material c
    let r := (m.allFindings c).report
    c.fault? = none ∧ m.findings c ⟨none, none⟩ = .ok (m.allFindings c) ∧
      (r.functions.length = 1 ∧ r.modules.length = 1 ∧ r.resources.length = 1) ∧
      ∀ category, ∀ g ∈ r.groups category, Justified c m category g := by
  intro c m r
  have hc : c.fault? = none := by decide +kernel
  have hfindings : m.findings c ⟨none, none⟩ = .ok (m.allFindings c) :=
    Material.findings_of_check rfl c m
  refine ⟨hc, hfindings, by decide +kernel, fun category => ?_⟩
  exact (reported_groups_justified hc hfindings category).2

end Scan

end Likeness
