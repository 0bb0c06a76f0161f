import Likeness.Proofs.Duplicates.Cover
import Likeness.Proofs.Resources.Similar
import Likeness.Proofs.Similarity.Looser

namespace Likeness.Resources

open Duplicates Json Number Similarity

section Logs

variable {a b : Place}

theorem finding_covers {x y : ℚ} (h : x ≤ y) : (finding a b y).Covers (finding a b x) := by
  refine ⟨rfl, rfl, List.Subset.refl _, ?_⟩
  rw [Scalar.exact_le, Scalar.limit_eq_clamp, Scalar.limit_eq_clamp]
  exact clamp_mono h

-- A test that finds as much for each two places finds as much among all of them.
theorem findingsAmong_covers {test test' : Place → Place → Option (Finding ℚ)}
    (h : ∀ a b f, test a b = some f → ∃ f', test' a b = some f' ∧ f'.Covers f)
    (places : List Place) :
    LogCovers (findingsAmong test' [] places) (findingsAmong test [] places) ∧
      (findingsAmong test [] places).length ≤ (findingsAmong test' [] places).length := by
  rw [findingsAmong_eq, findingsAmong_eq]
  constructor
  · intro f hf
    obtain ⟨pair, hpair, hfound⟩ := List.mem_filterMap.mp hf
    obtain ⟨f', hfound', hcovers⟩ := h pair.1 pair.2 f hfound
    exact ⟨f', List.mem_filterMap.mpr ⟨pair, hpair, hfound'⟩, hcovers⟩
  · rw [List.length_filterMap_eq_countP, List.length_filterMap_eq_countP]
    refine List.countP_mono_left fun pair _ hfound => ?_
    obtain ⟨f, hfound⟩ := Option.isSome_iff_exists.mp hfound
    obtain ⟨f', hfound', -⟩ := h pair.1 pair.2 f hfound
    exact Option.isSome_iff_exists.mpr ⟨f', hfound'⟩

end Logs

section Findings

variable {o o' : Options ℚ} (h : Looser o' o)

include h

theorem Similar.mono {a b : Value} (hsimilar : Similar o a b) : Similar o' a b := by
  have hle {c c' : ℚ} (hc : c' ≤ c) (hscore : Scalar.le c (score o a b) = true) :
      Scalar.le c' (score o' a b) = true := by
    rw [Scalar.exact_le] at hscore ⊢
    exact (hc.trans hscore).trans (scoreAt_mono h false 0 a b)
  obtain ⟨c, hcutoff, hscore⟩ := hsimilar
  cases hcutoff with
  | kind hkind hobject =>
    exact ⟨_, .kind hkind fun hk => h.objects (hobject hk), hle (h.thresholds _) hscore⟩
  | number hnumbers htext =>
    exact ⟨_, .number (h.numbers hnumbers) htext, hle (h.thresholds .number) hscore⟩

theorem valueFindings_covers (ds : List Document) :
    LogCovers (valueFindings o' ds) (valueFindings o ds) ∧
      (valueFindings o ds).length ≤ (valueFindings o' ds).length := by
  refine findingsAmong_covers (fun a b f hf => ?_) (catalogue ds)
  obtain ⟨hsimilar, rfl⟩ := (valueFinding?_eq_some_iff o a b f).mp hf
  exact ⟨_, (valueFinding?_eq_some_iff o' a b _).mpr ⟨hsimilar.mono h, rfl⟩,
    finding_covers (scoreAt_mono h false 0 a.value b.value)⟩

theorem documentFindings_covers (ds : List Document) :
    LogCovers (documentFindings o' ds) (documentFindings o ds) ∧
      (documentFindings o ds).length ≤ (documentFindings o' ds).length := by
  unfold documentFindings
  by_cases hobjects : o.compareObjects = true
  · rw [if_pos hobjects, if_pos (h.objects hobjects)]
    refine findingsAmong_covers (fun a b f hf => ?_) _
    have hscore := objectScore_mono h false a.value b.value
    simp only [documentFinding?, Option.ite_none_right_eq_some, Option.some.injEq,
      Scalar.exact_le] at hf ⊢
    obtain ⟨hle, rfl⟩ := hf
    exact ⟨_, ⟨((h.thresholds .null).trans hle).trans hscore, rfl⟩, finding_covers hscore⟩
  · rw [if_neg hobjects]
    exact ⟨fun f hf => absurd hf List.not_mem_nil, Nat.zero_le _⟩

-- Looser options lose nothing: no score and no count drops, and each group that is shown is shown
-- again with all its places and at least its score.
theorem looser_shows (ds : List Document) (earlier : List (Finding ℚ)) :
    (∀ shared a b, scoreAt o shared 0 a b ≤ scoreAt o' shared 0 a b) ∧
    (∀ shared a b, objectScore o shared a b ≤ objectScore o' shared a b) ∧
    (∀ g ∈ (Registry.empty.recordAll
        (earlier ++ documentFindings o ds ++ valueFindings o ds)).view .resources,
      ∃ g' ∈ (Registry.empty.recordAll
        (earlier ++ documentFindings o' ds ++ valueFindings o' ds)).view .resources,
      g'.key = g.key ∧
        g.occurrences.map Occurrence.site ⊆ g'.occurrences.map Occurrence.site ∧
        g.similarity ≤ g'.similarity) ∧
    (documentFindings o ds).length ≤ (documentFindings o' ds).length ∧
    (valueFindings o ds).length ≤ (valueFindings o' ds).length := by
  obtain ⟨hdocuments, hdocumentCount⟩ := documentFindings_covers h ds
  obtain ⟨hvalues, hvalueCount⟩ := valueFindings_covers h ds
  refine ⟨fun shared => scoreAt_mono h shared 0, objectScore_mono h, fun g hg => ?_,
    hdocumentCount, hvalueCount⟩
  have hnumbers (log : List (Finding ℚ)) : ∀ f ∈ log, Scalar.isNumber f.similarity = true :=
    fun f _ => Scalar.exact_isNumber _
  obtain ⟨g', hg', hkey, hsites, hsimilarity⟩ := Registry.exists_cover (hnumbers _) (hnumbers _)
    (((LogCovers.refl (hnumbers earlier)).append hdocuments).append hvalues) hg
  exact ⟨g', hg', hkey, hsites, (Scalar.exact_le _ _).mp hsimilarity⟩

end Findings

-- Options that take strings for alike only if they are equal.
def strict : Options ℚ :=
  { Options.standard with
    maxDepth := 1
    thresholds := { Thresholds.standard with string := 1 } }

def spelled : List Document :=
  [⟨"a.json", .object [("a", .string "label"), ("b", .string "label"), ("c", .string "lapel")]⟩]

theorem looser_shows_spelled : Looser .standard strict ∧ (valueFindings strict spelled).length = 1 ∧
    1 ≤ (valueFindings (.standard : Options ℚ) spelled).length := by
  have hlooser : Looser .standard strict := by
    refine ⟨id, id, id, id, by decide, rfl, rfl, by decide +kernel, by decide +kernel, ?_⟩
    intro kind
    cases kind <;> decide +kernel
  have hcount : (valueFindings strict spelled).length = 1 := by decide +kernel
  refine ⟨hlooser, hcount, ?_⟩
  rw [← hcount]
  exact (looser_shows hlooser spelled []).2.2.2.2

end Likeness.Resources
