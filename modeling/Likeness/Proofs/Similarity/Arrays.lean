import Likeness.Proofs.Similarity.Score
import Mathlib.Data.String.Basic

namespace Likeness.Similarity

open Number Json

section Texts

variable (as bs : List Value)

-- The sorted texts of two lists are the same just when the texts are, in whatever order.
theorem sortedTexts_eq_iff :
    sortedTexts as = sortedTexts bs ↔ (as.map Value.text).Perm (bs.map Value.text) := by
  have hperm (vs : List Value) : (sortedTexts vs).Perm (vs.map Value.text) :=
    List.mergeSort_perm _ _
  have hsorted (vs : List Value) :
      (sortedTexts vs).Pairwise fun s t => (!(t < s : Bool)) = true := by
    refine List.pairwise_mergeSort (fun s t u hst htu => ?_) (fun s t => ?_) _
    · simp only [Bool.not_eq_true', decide_eq_false_iff_not, not_lt] at *
      exact hst.trans htu
    · simp only [Bool.or_eq_true, Bool.not_eq_true', decide_eq_false_iff_not, not_lt]
      exact le_total s t
  constructor
  · intro h
    exact (hperm as).symm.trans (h ▸ hperm bs)
  · intro h
    refine List.Perm.eq_of_pairwise (fun s t _ _ hst hts => ?_) (hsorted as) (hsorted bs)
      ((hperm as).trans (h.trans (hperm bs).symm))
    simp only [Bool.not_eq_true', decide_eq_false_iff_not, not_lt] at hst hts
    exact le_antisymm hst hts

-- 1 for two lists of the same texts, 0 for any other two.
def rearranged (as bs : List Value) : ℚ :=
  if (as.map Value.text).Perm (bs.map Value.text) then 1 else 0

theorem ofBool_sortedTexts :
    (Scalar.ofBool (sortedTexts as == sortedTexts bs) : ℚ) = rearranged as bs := by
  simp only [Scalar.ofBool, rearranged, beq_iff_eq, sortedTexts_eq_iff, Scalar.exact_one,
    Scalar.exact_zero]

theorem rearranged_mem_shares : rearranged as bs ∈ shares := by
  rw [← ofBool_sortedTexts]
  exact ofBool_mem_shares _

end Texts

section Parts

-- Scores as a part of so many whole ones.
def part (scores : List ℚ) (n : ℕ) : ℚ := scores.sum / n

theorem part_mem_shares {scores : List ℚ} {n : ℕ} (h : ∀ x ∈ scores, x ∈ shares)
    (hn : scores.length ≤ n) : part scores n ∈ shares := by
  have hsum := sum_mem_shares h hn
  rwa [Scalar.exact_sum] at hsum

variable (o : Options ℚ) (shared : Bool) (depth : ℕ) (as bs : List Value)

-- What the scores at one place make up of the longer list.
def positional : ℚ := part (placedScores o shared depth as bs) (max as.length bs.length)

-- What the best scores of the values on the left make up of the longer list.
def bestMatching : ℚ := part (bestScores o shared depth 0 as bs) (max as.length bs.length)

theorem positional_mem_shares : positional o shared depth as bs ∈ shares := by
  rw [positional, placedScores_eq]
  apply part_mem_shares
  · intro x hx
    obtain ⟨pair, -, rfl⟩ := List.mem_map.mp hx
    exact scoreAt_mem_shares o shared depth _ _
  · rw [List.length_map, List.length_zip]
    exact min_le_max

theorem bestMatching_mem_shares : bestMatching o shared depth as bs ∈ shares := by
  rw [bestMatching, bestScores_eq]
  apply part_mem_shares
  · intro x hx
    obtain ⟨pair, -, rfl⟩ := List.mem_map.mp hx
    refine foldl_maximum_mem_shares (fun y hy => ?_) _ zero_mem_shares
    obtain ⟨other, -, rfl⟩ := List.mem_map.mp hy
    exact scoreAt_mem_shares o _ depth _ _
  · rw [List.length_map, List.length_zipIdx]
    exact le_max_left _ _

end Parts

section Blends

-- What two lists score that are not empty, before anything is cut off.
def arrayFormula (rearranged positional bestMatch : ℚ) : ℚ :=
  max rearranged (5 / 10 * positional + 3 / 10 * bestMatch + 2 / 10 * rearranged)

variable {p m r : ℚ}

theorem arrayFormula_mem_shares (hr : r ∈ shares) (hp : p ∈ shares) (hm : m ∈ shares) :
    arrayFormula r p m ∈ shares := by
  obtain ⟨hr, hr'⟩ := hr
  obtain ⟨hp, hp'⟩ := hp
  obtain ⟨hm, hm'⟩ := hm
  constructor
  · exact le_max_of_le_left hr
  · exact max_le hr' (by linarith)

-- The texts aside, the parts make up eight tenths at most.
theorem arrayFormula_zero_le (hp : p ∈ shares) (hm : m ∈ shares) :
    arrayFormula 0 p m ≤ 8 / 10 := by
  have hp' := hp.2
  have hm' := hm.2
  exact max_le (by norm_num) (by linarith)

theorem le_arrayFormula (r p m : ℚ) : r ≤ arrayFormula r p m := le_max_left _ _

variable {as bs : List Value} {placed best : List ℚ}

theorem blendArrays_of_ne (has : as ≠ []) (hbs : bs ≠ []) (placed best : List ℚ) :
    blendArrays as bs placed best = Scalar.clamp (arrayFormula (rearranged as bs)
      (part placed (max as.length bs.length)) (part best (max as.length bs.length))) := by
  unfold blendArrays
  dsimp only
  rw [List.isEmpty_eq_false_iff.mpr has, List.isEmpty_eq_false_iff.mpr hbs, ofBool_sortedTexts]
  simp only [Scalar.exact_maximum, Scalar.exact_sum, Scalar.exact_ofNat, Scalar.exact_tenths]
  rfl

theorem blendArrays_of_isEmpty_ne (h : as.isEmpty ≠ bs.isEmpty) (placed best : List ℚ) :
    blendArrays as bs placed best = 0 := by
  cases as <;> cases bs <;> simp_all [blendArrays]

-- A rearrangement is a full score, whatever the values in it score.
theorem blendArrays_of_perm (h : (as.map Value.text).Perm (bs.map Value.text))
    (placed best : List ℚ) : blendArrays as bs placed best = 1 := by
  by_cases has : as = []
  · subst as
    have hbs : bs = [] := by simpa using h
    subst bs
    simp [blendArrays]
  · have hbs : bs ≠ [] := by
      rintro rfl
      exact has (by simpa using h)
    have hone : rearranged as bs = 1 := if_pos h
    rw [blendArrays_of_ne has hbs, hone, Scalar.exact_clamp]
    exact min_eq_right (le_max_of_le_left (le_arrayFormula _ _ _))

theorem blendArrays_le (h : ¬(as.map Value.text).Perm (bs.map Value.text))
    (hplaced : part placed (max as.length bs.length) ∈ shares)
    (hbest : part best (max as.length bs.length) ∈ shares) :
    blendArrays as bs placed best ≤ 8 / 10 := by
  by_cases hempty : as.isEmpty = bs.isEmpty
  · have hne : as ≠ [] ∧ bs ≠ [] := by
      cases as <;> cases bs <;> simp_all
    have hzero : rearranged as bs = 0 := if_neg h
    rw [blendArrays_of_ne hne.1 hne.2, hzero, Scalar.exact_clamp]
    exact min_le_of_left_le (max_le (arrayFormula_zero_le hplaced hbest) (by norm_num))
  · rw [blendArrays_of_isEmpty_ne hempty]
    norm_num

end Blends

-- What a score of two lists is: a full one for a rearrangement, eight tenths at most for others,
-- and nothing where just one of them is empty.
structure ListScore (as bs : List Value) (x : ℚ) : Prop where
  eq_one : (as.map Value.text).Perm (bs.map Value.text) → x = 1
  le_of_not_perm : ¬(as.map Value.text).Perm (bs.map Value.text) → x ≤ 8 / 10
  eq_zero : as.isEmpty ≠ bs.isEmpty → x = 0

section Scores

variable {as bs : List Value}

theorem ListScore.le_iff {x c : ℚ} (h : ListScore as bs x) (hc : 8 / 10 < c) :
    c ≤ x ↔ (as.map Value.text).Perm (bs.map Value.text) ∧ c ≤ 1 := by
  by_cases hperm : (as.map Value.text).Perm (bs.map Value.text)
  · rw [h.eq_one hperm, and_iff_right hperm]
  · have hx := h.le_of_not_perm hperm
    exact iff_of_false (not_le.mpr (hx.trans_lt hc)) fun hboth => hperm hboth.1

variable (o : Options ℚ) (shared : Bool) (depth : ℕ) (as bs)

theorem listScore_blendArrays : ListScore as bs (blendArrays as bs
    (placedScores o shared depth as bs) (bestScores o shared depth 0 as bs)) where
  eq_one h := blendArrays_of_perm h _ _
  le_of_not_perm h := blendArrays_le h (positional_mem_shares o shared depth as bs)
    (bestMatching_mem_shares o shared depth as bs)
  eq_zero h := blendArrays_of_isEmpty_ne h _ _

theorem listScore_scoreAt (hon : o.compareArrays = true) :
    ListScore as bs (scoreAt o shared depth (.array as) (.array bs)) := by
  rw [scoreAt, if_pos hon]
  exact listScore_blendArrays as bs o shared depth

end Scores

end Likeness.Similarity
