import Likeness.Proofs.Number.Double
import Likeness.Proofs.Number.Exact
import Mathlib.Algebra.Order.Field.Power
import Mathlib.Tactic.Positivity

namespace Likeness.Number

open Float.Model (Format UnpackedFloat)
open Float.Model.UnpackedFloat

section Mantissas

-- Whether a number is one that a cut mantissa and what is kept of its further digits stand for.
structure Holds (em : ExtendedMantissa) (x : ℚ) : Prop where
  le : em.mantissa ≤ x
  lt : x < em.mantissa + 1
  round_iff : em.roundBit = true ↔ em.mantissa + 1 / 2 ≤ x
  sticky_iff : em.stickyBit = true ↔ x ≠ em.mantissa ∧ x ≠ em.mantissa + 1 / 2

theorem holds_exact (m : ℕ) : Holds (.ofMantissaAndAccuracy m .exact) m := by
  constructor <;> simp [ExtendedMantissa.ofMantissaAndAccuracy]

-- A mantissa and a fraction that the two further digits are right about.
theorem holds_add {em : ExtendedMantissa} {t : ℚ} (hlo : 0 ≤ t) (hhi : t < 1)
    (hround : em.roundBit = true ↔ 1 / 2 ≤ t)
    (hsticky : em.stickyBit = true ↔ t ≠ 0 ∧ t ≠ 1 / 2) : Holds em (em.mantissa + t) where
  le := le_add_of_nonneg_right hlo
  lt := add_lt_add_right hhi _
  round_iff := by rw [hround, add_le_add_iff_left]
  sticky_iff := by
    rw [hsticky]
    exact and_congr (not_congr add_eq_left).symm (not_congr (add_right_inj _)).symm

-- The quotient of two numbers by its whole part and its remainder.
theorem holds_div (a : ℕ) {b : ℕ} (hb : 0 < b) :
    Holds (.ofMantissaAndAccuracy (a / b) (accuracyOfFraction (a % b) b)) (a / b : ℚ) := by
  have hb' : (0 : ℚ) < b := Nat.cast_pos.mpr hb
  have hlt : a % b < b := Nat.mod_lt a hb
  have hvalue : (a / b : ℚ) = (a / b : ℕ) + (a % b : ℕ) / b := by
    have hsplit : (a : ℚ) = b * (a / b : ℕ) + (a % b : ℕ) := mod_cast (Nat.div_add_mod a b).symm
    rw [div_eq_iff hb'.ne', add_mul, div_mul_cancel₀ _ hb'.ne', mul_comm]
    exact hsplit
  rw [hvalue]
  generalize a / b = q
  generalize a % b = r at hlt
  have hone : (r / b : ℚ) < 1 := (div_lt_one hb').mpr (Nat.cast_lt.mpr hlt)
  rcases Nat.eq_zero_or_pos r with rfl | hpos
  · simpa [accuracyOfFraction] using holds_exact q
  have hfraction : (0 : ℚ) < r / b := div_pos (Nat.cast_pos.mpr hpos) hb'
  rw [accuracyOfFraction, if_neg (Nat.ne_of_gt hpos)]
  rcases lt_trichotomy (2 * r) b with hhalf | hhalf | hhalf
  · have hbelow : (r / b : ℚ) < 1 / 2 := by
      rw [div_lt_div_iff₀ hb' two_pos, one_mul, mul_comm]
      exact mod_cast hhalf
    rw [Nat.compare_eq_lt.mpr hhalf]
    refine holds_add hfraction.le hone ?_ ?_
    · exact iff_of_false Bool.false_ne_true (not_le.mpr hbelow)
    · exact iff_of_true rfl ⟨hfraction.ne', hbelow.ne⟩
  · have hmiddle : (r / b : ℚ) = 1 / 2 := by
      rw [div_eq_div_iff hb'.ne' two_ne_zero, one_mul, mul_comm]
      exact mod_cast hhalf
    rw [Nat.compare_eq_eq.mpr hhalf]
    refine holds_add hfraction.le hone ?_ ?_
    · exact iff_of_true rfl hmiddle.ge
    · exact iff_of_false Bool.false_ne_true fun h => h.2 hmiddle
  · have habove : (1 / 2 : ℚ) < r / b := by
      rw [div_lt_div_iff₀ two_pos hb', one_mul, mul_comm]
      exact mod_cast hhalf
    rw [Nat.compare_eq_gt.mpr hhalf]
    refine holds_add hfraction.le hone ?_ ?_
    · exact iff_of_true rfl habove.le
    · exact iff_of_true rfl ⟨hfraction.ne', habove.ne'⟩

theorem Holds.exact_iff {em : ExtendedMantissa} {x : ℚ} (h : Holds em x) :
    (em.roundBit || em.stickyBit) = true ↔ x ≠ em.mantissa := by
  rw [Bool.or_eq_true, h.round_iff, h.sticky_iff]
  constructor
  · rintro (hhalf | ⟨hne, -⟩)
    · linarith
    · exact hne
  · intro hne
    by_cases hhalf : em.mantissa + 1 / 2 ≤ x
    · exact .inl hhalf
    · exact .inr ⟨hne, by linarith⟩

-- One digit less.
theorem Holds.shiftRightOne {em : ExtendedMantissa} {x : ℚ} (h : Holds em x) :
    Holds em.shiftRightOne (x / 2) := by
  have hexact := h.exact_iff
  have hle := h.le
  have hlt := h.lt
  obtain ⟨m, r, s⟩ := em
  obtain ⟨k, rfl | rfl⟩ := Nat.even_or_odd' m
  · have hhalf : 2 * k / 2 = k := by omega
    have hbit : (2 * k % 2 != 0) = false := by simp
    simp only [ExtendedMantissa.shiftRightOne, hhalf, hbit]
    push_cast at hexact hle hlt
    refine ⟨by dsimp only; linarith, by dsimp only; linarith, ?_, ?_⟩
    · simp only [Bool.false_eq_true, false_iff, not_le]
      linarith
    · rw [hexact]
      constructor
      · intro hne
        exact ⟨fun h => hne (by linarith), by linarith⟩
      · rintro ⟨hne, -⟩ heq
        exact hne (by linarith)
  · have hhalf : (2 * k + 1) / 2 = k := by omega
    have hbit : ((2 * k + 1) % 2 != 0) = true := by simp
    simp only [ExtendedMantissa.shiftRightOne, hhalf, hbit]
    push_cast at hexact hle hlt
    refine ⟨by dsimp only; linarith, by dsimp only; linarith, ?_, ?_⟩
    · simp only [true_iff]
      linarith
    · rw [hexact]
      constructor
      · intro hne
        exact ⟨by linarith, fun h => hne (by linarith)⟩
      · rintro ⟨-, hne⟩ heq
        exact hne (by linarith)

theorem Holds.shiftRight {em : ExtendedMantissa} {x : ℚ} (h : Holds em x) (k : ℕ) :
    Holds (em >>> k) (x / 2 ^ k) := by
  induction k with
  | zero =>
    rw [pow_zero, div_one]
    exact h
  | succ k ih =>
    have hstep := ih.shiftRightOne
    rw [div_div, ← pow_succ] at hstep
    exact hstep

theorem roundedMantissa_eq (em : ExtendedMantissa) : em.roundedMantissa =
    if em.roundBit then
      if em.stickyBit then em.mantissa + 1 else em.mantissa + em.mantissa % 2
    else em.mantissa := by
  obtain ⟨m, _ | _, _ | _⟩ := em <;> rfl

-- Rounding keeps the order.
theorem Holds.roundedMantissa_le {em em' : ExtendedMantissa} {x y : ℚ} (h : Holds em x)
    (h' : Holds em' y) (hxy : x ≤ y) : em.roundedMantissa ≤ em'.roundedMantissa := by
  have hmantissa : em.mantissa ≤ em'.mantissa := by
    have hlt : (em.mantissa : ℚ) < em'.mantissa + 1 := h.le.trans_lt (hxy.trans_lt h'.lt)
    exact Nat.lt_succ_iff.mp (mod_cast hlt)
  have hcases := roundedMantissa_cases em
  have hcases' := roundedMantissa_cases em'
  rcases Nat.lt_or_eq_of_le hmantissa with hlt | heq
  · omega
  by_cases hround : em.roundBit = true
  · -- from a half on, rounding up depends on what is left
    have hhalf := h.round_iff.mp hround
    have hround' : em'.roundBit = true := by
      rw [h'.round_iff, ← heq]
      linarith
    by_cases hsticky : em.stickyBit = true
    · have hsticky' : em'.stickyBit = true := by
        have hne := (h.sticky_iff.mp hsticky).2
        have hgt : em.mantissa + 1 / 2 < x := lt_of_le_of_ne hhalf hne.symm
        rw [h'.sticky_iff, ← heq]
        constructor <;> linarith
      rw [roundedMantissa_eq em', if_pos hround', if_pos hsticky']
      omega
    · rw [roundedMantissa_eq em, roundedMantissa_eq em', if_pos hround, if_pos hround',
        if_neg hsticky, heq]
      split
      · omega
      · exact le_rfl
  · rw [roundedMantissa_eq em, if_neg hround]
    omega

end Mantissas

section Order

variable {m n : ℕ} {e f : ℤ} {acc acc' : Accuracy} {x y : ℚ}

-- The first digit of what a mantissa stands for is that of the mantissa.
theorem Holds.bounds (hm : m ≠ 0) (h : Holds (.ofMantissaAndAccuracy m acc) x) :
    (2 : ℚ) ^ m.log2 ≤ x ∧ x < 2 ^ (m.log2 + 1) := by
  have hle := h.le
  have hlt := h.lt
  rw [mantissa_ofMantissaAndAccuracy] at hle hlt
  have hlo : (2 : ℚ) ^ m.log2 ≤ m := mod_cast Nat.log2_self_le hm
  have hhi : (m + 1 : ℚ) ≤ 2 ^ (m.log2 + 1) := mod_cast Nat.succ_le_of_lt Nat.lt_log2_self
  exact ⟨hlo.trans hle, hlt.trans_le hhi⟩

-- The first digit of a lower number does not stand before that of a higher one.
theorem log2_add_le (hm : m ≠ 0) (hn : n ≠ 0) (hx : Holds (.ofMantissaAndAccuracy m acc) x)
    (hy : Holds (.ofMantissaAndAccuracy n acc') y) (hxy : x * 2 ^ e ≤ y * 2 ^ f) :
    m.log2 + e ≤ n.log2 + f := by
  have hlt : (2 : ℚ) ^ (m.log2 + e : ℤ) < 2 ^ (n.log2 + 1 + f : ℤ) := by
    calc (2 : ℚ) ^ (m.log2 + e : ℤ) = 2 ^ m.log2 * 2 ^ e := by
          rw [zpow_add₀ two_ne_zero, zpow_natCast]
      _ ≤ x * 2 ^ e := mul_le_mul_of_nonneg_right (hx.bounds hm).1 (by positivity)
      _ ≤ y * 2 ^ f := hxy
      _ < 2 ^ (n.log2 + 1) * 2 ^ f :=
          mul_lt_mul_of_pos_right (hy.bounds hn).2 (zpow_pos two_pos f)
      _ = 2 ^ (n.log2 + 1 + f : ℤ) := by
          rw [zpow_add₀ two_ne_zero]
          norm_cast
  have hexponent := (zpow_lt_zpow_iff_right₀ one_lt_two).mp hlt
  omega

theorem cutMantissa_le (hm : 52 ≤ m.log2) (hn : 52 ≤ n.log2)
    (hx : Holds (.ofMantissaAndAccuracy m acc) x) (hy : Holds (.ofMantissaAndAccuracy n acc') y)
    (hxy : x * 2 ^ e ≤ y * 2 ^ f) (hexponent : m.log2 + e = n.log2 + f) :
    cutMantissa m acc ≤ cutMantissa n acc' := by
  have hcut {k : ℕ} (hk : 52 ≤ k) (z : ℚ) (g : ℤ) :
      z / 2 ^ (k - 52) = z * 2 ^ g / 2 ^ (k + g - 52) := by
    have hpower : (2 : ℚ) ^ (k + g - 52) = 2 ^ (k - 52) * 2 ^ g := by
      rw [← zpow_natCast, ← zpow_add₀ two_ne_zero]
      congr 1
      omega
    rw [hpower, mul_div_mul_right _ _ (zpow_ne_zero g two_ne_zero)]
  apply (hx.shiftRight (m.log2 - 52)).roundedMantissa_le (hy.shiftRight (n.log2 - 52))
  rw [hcut hm x e, hcut hn y f, hexponent]
  exact div_le_div_of_nonneg_right hxy (by positivity)

-- Of two numbers, the lower one is not rounded to a higher double than the other one.
theorem roundWithAccuracy_le {s t : Sign} (hm : 52 ≤ m.log2) (hn : 52 ≤ n.log2)
    (he : -1074 ≤ m.log2 + e - 52) (hf : -1074 ≤ n.log2 + f - 52)
    (hx : Holds (.ofMantissaAndAccuracy m acc) x) (hy : Holds (.ofMantissaAndAccuracy n acc') y)
    (hxy : x * 2 ^ e ≤ y * 2 ^ f) {p q : ℕ} {k l : ℤ} {hp : 0 < p} {hq : 0 < q}
    (hround : roundWithAccuracy Format.binary64 s m e acc = .finite s p k hp)
    (hround' : roundWithAccuracy Format.binary64 t n f acc' = .finite t q l hq) :
    k < l ∨ k = l ∧ p ≤ q := by
  have hzero {m : ℕ} (hm : 52 ≤ m.log2) : m ≠ 0 := by
    rintro rfl
    simp at hm
  obtain ⟨_, _, _, hfinite, hfull, hcut⟩ := roundWithAccuracy_full s m e acc hm he
  obtain ⟨_, _, _, hfinite', hfull', hcut'⟩ := roundWithAccuracy_full t n f acc' hn hf
  cases hround.symm.trans hfinite
  cases hround'.symm.trans hfinite'
  have hp' := (Nat.log2_eq_iff hp.ne').mp hfull
  have hq' := (Nat.log2_eq_iff hq.ne').mp hfull'
  have hexponent := log2_add_le (hzero hm) (hzero hn) hx hy hxy
  rcases Int.lt_or_eq_of_le hexponent with hlt | heq
  · omega
  · have hle := cutMantissa_le hm hn hx hy hxy heq
    omega

end Order

end Likeness.Number
