import Likeness.Proofs.Number.Exact
import Likeness.Proofs.Similarity.Symmetric

namespace Likeness.Similarity

open Number

-- How far two numbers are apart: their difference, or from 1 on what share it is of their mean
-- magnitude. It is not cut off where a score ends.
def gap (x y : ℚ) : ℚ :=
  if |x| < 1 ∧ |y| < 1 then min |x - y| 1 else |x - y| / ((|x| + |y|) / 2)

section Gaps

variable {x y a b c : ℚ}

theorem gap_of_small (hx : |x| < 1) (hy : |y| < 1) : gap x y = min |x - y| 1 := if_pos ⟨hx, hy⟩

theorem gap_of_large (h : ¬(|x| < 1 ∧ |y| < 1)) : gap x y = |x - y| / ((|x| + |y|) / 2) :=
  if_neg h

-- The mean that is divided by is at least a half.
theorem mean_pos (h : ¬(|x| < 1 ∧ |y| < 1)) : 0 < (|x| + |y|) / 2 := by
  have hx := abs_nonneg x
  have hy := abs_nonneg y
  rw [not_and_or, not_lt, not_lt] at h
  rcases h with h | h <;> linarith

theorem gap_self (x : ℚ) : gap x x = 0 := by simp [gap]

theorem gap_pos (hne : x ≠ y) : 0 < gap x y := by
  have hdifference : 0 < |x - y| := abs_pos.mpr (sub_ne_zero.mpr hne)
  by_cases hsmall : |x| < 1 ∧ |y| < 1
  · rw [gap_of_small hsmall.1 hsmall.2]
    exact lt_min hdifference zero_lt_one
  · rw [gap_of_large hsmall]
    exact div_pos hdifference (mean_pos hsmall)

theorem gap_neg (x y : ℚ) : gap (-x) (-y) = gap x y := by
  have hdifference : |-x - -y| = |x - y| := by
    rw [neg_sub_neg, abs_sub_comm]
  rw [gap, gap, hdifference, abs_neg, abs_neg]

theorem gap_le_two (x y : ℚ) : gap x y ≤ 2 := by
  by_cases hsmall : |x| < 1 ∧ |y| < 1
  · rw [gap_of_small hsmall.1 hsmall.2]
    have hone := min_le_right |x - y| 1
    linarith
  · rw [gap_of_large hsmall, div_le_iff₀ (mean_pos hsmall)]
    have hdifference := abs_sub x y
    linarith

-- On the two sides of zero the difference is all of both magnitudes.
theorem gap_of_opposite (hsign : x * y ≤ 0) (h : ¬(|x| < 1 ∧ |y| < 1)) : gap x y = 2 := by
  have hdifference : |x - y| = |x| + |y| := by
    rcases mul_nonpos_iff.mp hsign with ⟨hx, hy⟩ | ⟨hx, hy⟩
    · rw [abs_of_nonneg hx, abs_of_nonpos hy, abs_of_nonneg (by linarith)]
      ring
    · rw [abs_of_nonpos hx, abs_of_nonneg hy, abs_of_nonpos (by linarith)]
      ring
  rw [gap_of_large h, hdifference, div_eq_iff (mean_pos h).ne']
  ring

-- The relative difference grows with either end, as it grows with the quotient of the two.
theorem relative_le (ha : 0 < a) (hab : a ≤ b) (hbc : b ≤ c) :
    (b - a) / ((a + b) / 2) ≤ (c - a) / ((a + c) / 2) := by
  have hproduct := mul_le_mul_of_nonneg_left hbc ha.le
  rw [div_le_div_iff₀ (by linarith) (by linarith)]
  linarith

theorem relative_le_of_neg (hc : c < 0) (hab : a ≤ b) (hbc : b ≤ c) :
    (b - a) / ((-a + -b) / 2) ≤ (c - a) / ((-a + -c) / 2) := by
  have hproduct := mul_le_mul_of_nonpos_left hbc (show a ≤ 0 by linarith)
  rw [div_le_div_iff₀ (by linarith) (by linarith)]
  linarith

-- At the border of the two formulas the relative difference is the larger one.
theorem difference_le (ha : 0 < a) (ha' : a < 1) (hb : b < 1) (hc : 1 ≤ c) :
    b - a ≤ (c - a) / ((a + c) / 2) := by
  have hborder : 1 - a ≤ (c - a) / ((a + c) / 2) := by
    have hproduct := mul_le_mul_of_nonneg_right hc (show 0 ≤ 1 + a by linarith)
    have hsquare := sq_nonneg (1 - a)
    rw [le_div_iff₀ (by linarith)]
    linarith
  linarith

theorem gap_le_of_pos (ha : 0 < a) (hab : a ≤ b) (hbc : b ≤ c)
    (hlarge : ¬(|a| < 1 ∧ |c| < 1)) : gap a b ≤ gap a c := by
  have hb : 0 < b := ha.trans_le hab
  have hc : 0 < c := hb.trans_le hbc
  have hgap : gap a c = (c - a) / ((a + c) / 2) := by
    rw [gap_of_large hlarge, abs_of_pos ha, abs_of_pos hc, abs_sub_comm,
      abs_of_nonneg (by linarith)]
  have hdifference : |a - b| = b - a := by
    rw [abs_sub_comm, abs_of_nonneg (by linarith)]
  rw [hgap]
  by_cases hsmall : |a| < 1 ∧ |b| < 1
  · rw [gap_of_small hsmall.1 hsmall.2, hdifference]
    rw [abs_of_pos ha, abs_of_pos hb] at hsmall
    rw [abs_of_pos ha, abs_of_pos hc, not_and, not_lt] at hlarge
    exact (min_le_left _ 1).trans (difference_le ha hsmall.1 hsmall.2 (hlarge hsmall.1))
  · rw [gap_of_large hsmall, hdifference, abs_of_pos ha, abs_of_pos hb]
    exact relative_le ha hab hbc

-- Below zero the first number has the largest magnitude, and none of the three is small but
-- together with the others.
theorem gap_le_of_neg (hc : c < 0) (hab : a ≤ b) (hbc : b ≤ c)
    (hlarge : ¬(|a| < 1 ∧ |c| < 1)) : gap a b ≤ gap a c := by
  have hb : b < 0 := hbc.trans_lt hc
  have ha : a < 0 := hab.trans_lt hb
  have hlarge' : ¬(|a| < 1 ∧ |b| < 1) := by
    rw [abs_of_neg ha, abs_of_neg hc] at hlarge
    rw [abs_of_neg ha, abs_of_neg hb]
    rintro ⟨hsmall, -⟩
    exact hlarge ⟨hsmall, by linarith⟩
  rw [gap_of_large hlarge, gap_of_large hlarge', abs_of_neg ha, abs_of_neg hb, abs_of_neg hc,
    abs_sub_comm, abs_sub_comm a, abs_of_nonneg (by linarith), abs_of_nonneg (by linarith)]
  exact relative_le_of_neg hc hab hbc

-- Two numbers with a third one between them are at least as far apart, whichever formula applies.
theorem gap_mono (hab : a ≤ b) (hbc : b ≤ c) : gap a b ≤ gap a c := by
  by_cases hsmall : |a| < 1 ∧ |c| < 1
  · have hb : |b| < 1 := by
      have ha := (abs_lt.mp hsmall.1).1
      have hc := (abs_lt.mp hsmall.2).2
      exact abs_lt.mpr ⟨by linarith, by linarith⟩
    rw [gap_of_small hsmall.1 hb, gap_of_small hsmall.1 hsmall.2, abs_sub_comm, abs_sub_comm a,
      abs_of_nonneg (by linarith), abs_of_nonneg (by linarith)]
    exact min_le_min_right 1 (by linarith)
  · by_cases hsign : a * c ≤ 0
    · rw [gap_of_opposite hsign hsmall]
      exact gap_le_two a b
    · rcases mul_pos_iff.mp (not_le.mp hsign) with ⟨ha, -⟩ | ⟨-, hc⟩
      · exact gap_le_of_pos ha hab hbc hsmall
      · exact gap_le_of_neg hc hab hbc hsmall

end Gaps

section Scores

variable {x y a b c : ℚ}

theorem clamp_one_sub {d : ℚ} (hd : 0 ≤ d) : Scalar.clamp (Scalar.one - d) = max (1 - d) 0 := by
  rw [Scalar.exact_clamp, Scalar.exact_one]
  exact min_eq_left (max_le (by linarith) zero_le_one)

-- The score of two numbers is what their gap leaves of 1, if it leaves anything.
theorem ofNumbers_eq (x y : ℚ) : ofNumbers x y = max (1 - gap x y) 0 := by
  have habs (x : ℚ) : Scalar.abs x = |x| := rfl
  have hfinite (x : ℚ) : Scalar.isFinite x = true := rfl
  unfold ofNumbers
  by_cases hsame : x = y
  · subst y
    rw [if_pos ((Scalar.exact_same x x).mpr rfl), gap_self]
    simp
  rw [if_neg (mt (Scalar.exact_same x y).mp hsame)]
  by_cases hsmall : |x| < 1 ∧ |y| < 1
  · rw [gap_of_small hsmall.1 hsmall.2]
    simp only [Bool.and_eq_true, Scalar.exact_lt, Scalar.exact_minimum, habs]
    rw [if_pos (by simpa using hsmall)]
    simpa using clamp_one_sub (le_min (abs_nonneg (x - y)) zero_le_one)
  · have hmean := mean_pos hsmall
    rw [gap_of_large hsmall]
    simp only [Bool.and_eq_true, Scalar.exact_lt, habs, hfinite]
    rw [if_neg (by simpa using hsmall), if_neg (by simpa using hmean.ne')]
    exact clamp_one_sub (div_nonneg (abs_nonneg (x - y)) hmean.le)

theorem ofNumbers_eq_one_iff : ofNumbers x y = 1 ↔ x = y := by
  rw [ofNumbers_eq]
  constructor
  · intro h
    by_contra hne
    have hgap := gap_pos hne
    have hlt : max (1 - gap x y) 0 < 1 := max_lt (by linarith) zero_lt_one
    exact hlt.ne h
  · rintro rfl
    simp [gap_self]

theorem ofNumbers_neg (x y : ℚ) : ofNumbers (-x) (-y) = ofNumbers x y := by
  rw [ofNumbers_eq, ofNumbers_eq, gap_neg]

theorem ofNumbers_of_opposite (hsign : x * y ≤ 0) (hlarge : 1 ≤ |x| ∨ 1 ≤ |y|) :
    ofNumbers x y = 0 := by
  have h : ¬(|x| < 1 ∧ |y| < 1) := by
    rwa [not_and_or, not_lt, not_lt]
  rw [ofNumbers_eq, gap_of_opposite hsign h]
  norm_num

theorem ofNumbers_le_left (hab : a ≤ b) (hbc : b ≤ c) : ofNumbers a c ≤ ofNumbers a b := by
  have hgap := gap_mono hab hbc
  rw [ofNumbers_eq, ofNumbers_eq]
  exact max_le_max_right 0 (by linarith)

-- The other end is the first one as seen from below.
theorem ofNumbers_le_right (hab : a ≤ b) (hbc : b ≤ c) : ofNumbers a c ≤ ofNumbers b c := by
  have hturned := ofNumbers_le_left (neg_le_neg hbc) (neg_le_neg hab)
  rwa [ofNumbers_neg, ofNumbers_neg, ofNumbers_comm c, ofNumbers_comm c] at hturned

-- The same steps in numbers that know a fault come to the same score, without any fault.
theorem ofNumbers_checked (x y : ℚ) :
    ofNumbers (Checked.number x) (.number y) = .number (ofNumbers x y) := by
  have htwo : (Scalar.ofNat 2 : ℚ) ≠ 0 := two_ne_zero
  unfold ofNumbers
  simp only [Checked.same_number, Checked.number_sub, Checked.abs_number, Checked.one_eq,
    Checked.lt_number, Checked.minimum_number, Checked.clamp_number, Checked.number_add,
    Checked.ofNat_eq, Checked.number_div _ htwo, Checked.zero_eq, Checked.isFinite_number]
  split_ifs with hsame hsmall hmean
  · rfl
  · rfl
  · rfl
  · rw [Bool.or_eq_true, not_or, Scalar.exact_same, Scalar.exact_zero] at hmean
    rw [Checked.number_div _ hmean.1, Checked.number_sub, Checked.clamp_number]

end Scores

-- The score of two numbers falls with the gap between them, over the border of the two formulas
-- and over zero as elsewhere. It is a share that is whole just for equal numbers and nothing on two
-- sides of zero, unless both are small; and nothing is ever divided by zero for it.
theorem ofNumbers_decreasing :
    (∀ x y : ℚ, ofNumbers x y = ofNumbers y x ∧ ofNumbers x y ∈ shares ∧
      (ofNumbers x y = 1 ↔ x = y) ∧
      (x * y ≤ 0 → 1 ≤ |x| ∨ 1 ≤ |y| → ofNumbers x y = 0) ∧
      ofNumbers (Checked.number x) (.number y) = .number (ofNumbers x y)) ∧
    ∀ a b c : ℚ, a ≤ b → b ≤ c → ofNumbers a c ≤ min (ofNumbers a b) (ofNumbers b c) := by
  constructor
  · intro x y
    exact ⟨ofNumbers_comm x y, ofNumbers_mem_shares x y, ofNumbers_eq_one_iff,
      ofNumbers_of_opposite, ofNumbers_checked x y⟩
  · intro a b c hab hbc
    exact le_min (ofNumbers_le_left hab hbc) (ofNumbers_le_right hab hbc)

theorem ofNumbers_decreasing_straddling :
    (3 / 4 : ℚ) ≤ 9 / 10 ∧ (9 / 10 : ℚ) ≤ 5 / 4 ∧ |(9 / 10 : ℚ)| < 1 ∧ 1 ≤ |(5 / 4 : ℚ)| ∧
      ofNumbers (3 / 4 : ℚ) (5 / 4) ≤
        min (ofNumbers (3 / 4 : ℚ) (9 / 10)) (ofNumbers (9 / 10 : ℚ) (5 / 4)) ∧
      (-1 / 2 : ℚ) * 3 ≤ 0 ∧ 1 ≤ |(3 : ℚ)| ∧ ofNumbers (-1 / 2 : ℚ) 3 = 0 := by
  have hab : (3 / 4 : ℚ) ≤ 9 / 10 := by norm_num
  have hbc : (9 / 10 : ℚ) ≤ 5 / 4 := by norm_num
  have hsign : (-1 / 2 : ℚ) * 3 ≤ 0 := by norm_num
  have hlarge : (1 : ℚ) ≤ |3| := by norm_num
  refine ⟨hab, hbc, ?_, ?_, ofNumbers_decreasing.2 _ _ _ hab hbc, hsign, hlarge, ?_⟩
  · norm_num [abs_of_pos]
  · norm_num [abs_of_pos]
  · exact (ofNumbers_decreasing.1 _ _).2.2.2.1 hsign (.inr hlarge)

end Likeness.Similarity
