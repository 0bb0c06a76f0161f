import Likeness.Proofs.Resources.Similar
import Likeness.Proofs.Similarity.Arrays
import Mathlib.Tactic.IntervalCases

namespace Likeness.Resources

open Duplicates Json Number Similarity

section Lists

variable {o : Options ℚ}

theorem similar_array_iff (hcutoff : 8 / 10 < o.thresholds.array) (as bs : List Value) :
    Similar o (.array as) (.array bs) ↔ o.compareArrays = true ∧
      (as.map Value.text).Perm (bs.map Value.text) ∧ o.thresholds.array ≤ 1 := by
  have hscore : Similar o (.array as) (.array bs) ↔
      o.thresholds.array ≤ score o (.array as) (.array bs) := by
    simp [Similar, cutoff_iff, numberAndText_iff, Kind.ofValue, Thresholds.ofKind]
  rw [hscore]
  by_cases hon : o.compareArrays = true
  · rw [and_iff_right hon]
    exact (listScore_scoreAt as bs o false 0 hon).le_iff hcutoff
  · have hzero : score o (.array as) (.array bs) = 0 := by
      rw [score, scoreAt, if_neg hon, Scalar.exact_zero]
    rw [hzero]
    exact iff_of_false (by linarith) fun h => hon h.1

end Lists

-- The score of two lists is a full one if one is a rearrangement of the other, and otherwise leaves
-- a gap that no nesting of scores closes. With a cutoff in the gap, just the rearrangements are
-- found among the lists in documents.
theorem arrays_rearranged_or_apart (o : Options ℚ) :
    (∀ shared as bs, ListScore as bs (arrayScore o shared as bs)) ∧
    (o.compareArrays = true → ∀ shared depth as bs,
      ListScore as bs (scoreAt o shared depth (.array as) (.array bs))) ∧
    (8 / 10 < o.thresholds.array → ∀ ds,
      valueFindings o ds = (similarPairs o ds).map (findingAt o ds) ∧
      ∀ i j as bs, ((catalogue ds).get i).value = .array as →
        ((catalogue ds).get j).value = .array bs →
        ((i, j) ∈ similarPairs o ds ↔ i < j ∧ o.compareArrays = true ∧
          (as.map Value.text).Perm (bs.map Value.text) ∧ o.thresholds.array ≤ 1)) := by
  refine ⟨fun shared as bs => listScore_blendArrays as bs o shared 0,
    fun hon shared depth as bs => listScore_scoreAt as bs o shared depth hon,
    fun hcutoff ds => ⟨valueFindings_eq_map o ds, fun i j as bs has hbs => ?_⟩⟩
  rw [List.get_eq_getElem] at has hbs
  rw [mem_similarPairs_iff, Fin.getElem_fin, Fin.getElem_fin, has, hbs, similar_array_iff hcutoff]

-- Options with a cutoff for lists in the gap.
def gapped : Options ℚ :=
  { Options.standard with thresholds := { Thresholds.standard with array := 9 / 10 } }

def flags : List Document :=
  [⟨"a.json", .object [("a", .array [.bool true, .null]), ("b", .array [.null, .bool true]),
    ("c", .array [.null, .null])]⟩]

theorem arrays_rearranged_or_apart_flags : 8 / 10 < gapped.thresholds.array ∧
    arrayScore gapped false [.bool true, .null] [.null, .bool true] = 1 ∧
    arrayScore gapped false [.bool true, .null] [.null, .null] ≤ 8 / 10 ∧
    arrayScore gapped false [.null] [] = 0 ∧
    (∃ f ∈ valueFindings gapped flags,
      f.occurrences = [⟨"a.json", .keyPath "a", none⟩, ⟨"a.json", .keyPath "b", none⟩]) ∧
    ∀ i, (i, ⟨2, by decide⟩) ∉ similarPairs gapped flags := by
  have hcutoff : 8 / 10 < gapped.thresholds.array := by decide +kernel
  obtain ⟨hscores, -, hfound⟩ := arrays_rearranged_or_apart gapped
  obtain ⟨hfindings, hpairs⟩ := hfound hcutoff flags
  have hswapped := (hpairs ⟨0, by decide⟩ ⟨1, by decide⟩ _ _ rfl rfl).mpr
    ⟨by decide, rfl, by decide +kernel, by decide +kernel⟩
  refine ⟨hcutoff, (hscores false _ _).eq_one (by decide +kernel),
    (hscores false _ _).le_of_not_perm (by decide +kernel), (hscores false _ _).eq_zero (by decide),
    ?_, fun i hmem => ?_⟩
  · rw [hfindings]
    exact ⟨_, List.mem_map_of_mem hswapped, rfl⟩
  · obtain ⟨i, hi⟩ := i
    have hlt : i < 2 := ((mem_similarPairs_iff gapped flags _ _).mp hmem).1
    interval_cases i <;>
      exact absurd ((hpairs _ _ _ _ rfl rfl).mp hmem).2.2.1 (by decide +kernel)

end Likeness.Resources
