import Likeness.Proofs.Number.Binary
import Mathlib.Tactic.FieldSimp

namespace Likeness.Number

theorem zpow_eq_div {x : ℚ} (hx : x ≠ 0) (n : ℤ) : x ^ n = x ^ n.toNat / x ^ (-n).toNat := by
  rw [eq_div_iff (pow_ne_zero _ hx), ← zpow_natCast, ← zpow_natCast, ← zpow_add₀ hx]
  congr 1
  omega

namespace Binary

section Scaled

variable (n : ℕ) (e d : ℤ)

theorem scaled_snd_pos : 0 < (scaled n e d).2 := by
  have hone : (1 : ℕ) <<< (-e).toNat = 2 ^ (-e).toNat := Nat.one_shiftLeft _
  change 0 < 1 <<< (-e).toNat * 10 ^ d.toNat
  rw [hone]
  positivity

theorem scaled_div : ((scaled n e d).1 : ℚ) / (scaled n e d).2 = n * 2 ^ e / 10 ^ d := by
  have hone : (1 : ℕ) <<< (-e).toNat = 2 ^ (-e).toNat := Nat.one_shiftLeft _
  change ((n <<< e.toNat * 10 ^ (-d).toNat : ℕ) : ℚ) / (1 <<< (-e).toNat * 10 ^ d.toNat : ℕ) = _
  rw [Nat.shiftLeft_eq, hone, zpow_eq_div two_ne_zero e, zpow_eq_div (by norm_num : (10 : ℚ) ≠ 0) d]
  push_cast
  field_simp

-- The quotient compares as the number does that it stands for.
theorem scaled_le_iff (c : ℕ) :
    (scaled n e d).1 ≤ c * (scaled n e d).2 ↔ (n * 2 ^ e : ℚ) ≤ c * 10 ^ d := by
  have hden : (0 : ℚ) < (scaled n e d).2 := mod_cast scaled_snd_pos n e d
  rw [← div_le_iff₀ (by positivity : (0 : ℚ) < 10 ^ d), ← scaled_div, div_le_iff₀ hden]
  norm_cast

theorem le_scaled_iff (c : ℕ) :
    c * (scaled n e d).2 ≤ (scaled n e d).1 ↔ (c * 10 ^ d : ℚ) ≤ n * 2 ^ e := by
  have hden : (0 : ℚ) < (scaled n e d).2 := mod_cast scaled_snd_pos n e d
  rw [← le_div_iff₀ (by positivity : (0 : ℚ) < 10 ^ d), ← scaled_div, le_div_iff₀ hden]
  norm_cast

end Scaled

variable {b : Binary}

-- A decimal reads back just when it is one of the numbers that round to the double.
theorem roundsBack_iff (b : Binary) (d : ℤ) (c : ℕ) :
    b.roundsBack d c = true ↔ b.Nearest (c * 10 ^ d) := by
  have hlow := scaled_le_iff b.below (b.exponent - 2) d c
  have hlow' := le_scaled_iff b.below (b.exponent - 2) d c
  have hhigh := le_scaled_iff b.above (b.exponent - 2) d c
  have hhigh' := scaled_le_iff b.above (b.exponent - 2) d c
  unfold roundsBack Nearest lower upper
  change (if b.mantissa % 2 = 0 then
      (decide ((scaled b.below (b.exponent - 2) d).1 ≤ c * (scaled b.below (b.exponent - 2) d).2) &&
        decide (c * (scaled b.above (b.exponent - 2) d).2 ≤ (scaled b.above (b.exponent - 2) d).1))
    else
      (decide ((scaled b.below (b.exponent - 2) d).1 < c * (scaled b.below (b.exponent - 2) d).2) &&
        decide (c * (scaled b.above (b.exponent - 2) d).2 < (scaled b.above (b.exponent - 2) d).1)))
    = true ↔ _
  split
  · rw [Bool.and_eq_true, decide_eq_true_iff, decide_eq_true_iff, hlow, hhigh]
  · rw [Bool.and_eq_true, decide_eq_true_iff, decide_eq_true_iff, ← not_le, ← not_le, hlow', hhigh',
      not_le, not_le]

section Grid

-- The largest point of a grid that is not above the number.
def gridFloor (b : Binary) (d : ℤ) : ℕ :=
  (scaled b.mantissa b.exponent d).1 / (scaled b.mantissa b.exponent d).2

theorem gridFloor_bounds (b : Binary) (d : ℤ) :
    b.gridFloor d * 10 ^ d ≤ b.value ∧ b.value < (b.gridFloor d + 1) * 10 ^ d := by
  have hden := scaled_snd_pos b.mantissa b.exponent d
  have hlow : b.gridFloor d * (scaled b.mantissa b.exponent d).2 ≤
      (scaled b.mantissa b.exponent d).1 := Nat.div_mul_le_self _ _
  have hhigh : ¬(b.gridFloor d + 1) * (scaled b.mantissa b.exponent d).2 ≤
      (scaled b.mantissa b.exponent d).1 := by
    rw [not_le, mul_comm]
    exact Nat.lt_mul_div_succ _ hden
  rw [le_scaled_iff] at hlow hhigh
  push_cast at hhigh
  exact ⟨hlow, not_le.mp hhigh⟩

theorem onGrid_cases (b : Binary) (d : ℤ) :
    (∃ c, b.onGrid d = some c ∧ b.roundsBack d c = true) ∨
      (b.onGrid d = none ∧ b.roundsBack d (b.gridFloor d) = false ∧
        b.roundsBack d (b.gridFloor d + 1) = false) := by
  rcases hscaled : scaled b.mantissa b.exponent d with ⟨num, den⟩
  have hfloor : b.gridFloor d = num / den := by rw [gridFloor, hscaled]
  rw [onGrid, hscaled, hfloor]
  dsimp only
  cases hlow : b.roundsBack d (num / den) <;> cases hhigh : b.roundsBack d (num / den + 1)
  · exact .inr ⟨rfl, rfl, rfl⟩
  · exact .inl ⟨_, rfl, hhigh⟩
  · exact .inl ⟨_, rfl, hlow⟩
  · refine .inl ⟨_, rfl, ?_⟩
    split
    · exact hlow
    · split
      · exact hhigh
      · split
        · exact hlow
        · exact hhigh

-- What the ends of the interval are in quarters of the gap above.
theorem value_eq (b : Binary) : b.value = 4 * b.mantissa * 2 ^ (b.exponent - 2) := by
  have hexponent : (2 : ℚ) ^ b.exponent = 2 ^ (b.exponent - 2) * 4 := by
    rw [zpow_sub₀ two_ne_zero]
    norm_num
  rw [value, hexponent]
  ring

theorem upper_eq (b : Binary) : b.upper = b.value + 2 * 2 ^ (b.exponent - 2) := by
  rw [value_eq, upper, above]
  push_cast
  ring

theorem lower_eq (hpos : 0 < b.mantissa) :
    b.lower = b.value - (if b.halfGap then 1 else 2) * 2 ^ (b.exponent - 2) := by
  rw [value_eq, lower, below]
  split
  · rw [Nat.cast_sub (by omega)]
    push_cast
    ring
  · rw [Nat.cast_sub (by omega)]
    push_cast
    ring

-- A grid has a point that reads back if its step is small enough next to the number: then the step
-- is narrower than the interval.
theorem isSome_onGrid (hb : b.Stored) (hpos : 0 < b.mantissa) {d : ℤ}
    (hstep : (10 : ℚ) ^ d * 10 ^ 16 ≤ b.value) : (b.onGrid d).isSome = true := by
  rcases b.onGrid_cases d with ⟨c, hc, -⟩ | ⟨-, hfloor, hnext⟩
  · rw [hc]
    rfl
  · exfalso
    obtain ⟨hlow, hhigh⟩ := b.gridFloor_bounds d
    have hunit : (0 : ℚ) < 2 ^ (b.exponent - 2) := by positivity
    have hmantissa : (b.mantissa : ℚ) ≤ 2 ^ 53 := by exact_mod_cast hb.mantissa_lt.le
    have hlower := lower_eq hpos
    rw [← Bool.not_eq_true, roundsBack_iff] at hfloor hnext
    push_cast at hnext
    rw [add_mul, one_mul] at hhigh hnext
    have hpast : b.upper ≤ b.gridFloor d * 10 ^ d + 10 ^ d := by
      by_contra hlt
      refine hnext (nearest_of_lt (lt_of_le_of_lt ?_ hhigh) (not_le.mp hlt))
      exact (nearest_value hpos).bounds.1
    rw [upper_eq] at hpast
    rw [value_eq] at hstep hpast hlow
    by_cases hhalf : b.halfGap = true
    · have hfull : (b.mantissa : ℚ) = 2 ^ 52 := by exact_mod_cast (hb.halfGap_iff.mp hhalf).1
      rw [hfull] at hstep hpast hlow
      nlinarith
    · have hbefore : b.gridFloor d * 10 ^ d ≤ b.lower := by
        by_contra hlt
        refine hfloor (nearest_of_lt (not_le.mp hlt) ?_)
        rw [upper_eq, value_eq]
        linarith
      rw [hlower, if_neg hhalf, value_eq] at hbefore
      nlinarith

end Grid

-- The guess at the magnitude of a power of two is never too large.
theorem zpow_guess_le {k : ℤ} (hlo : -1074 ≤ k) (hhi : k ≤ 1024) :
    (10 : ℚ) ^ (k * 30103 / 100000) ≤ 2 ^ k := by
  have hup : ∀ n < 1025, 10 ^ (n * 30103 / 100000) ≤ 2 ^ n := by decide +kernel
  have hdown : ∀ n < 1075, 2 ^ n ≤ 10 ^ ((n * 30103 + 99999) / 100000) := by decide +kernel
  obtain ⟨n, rfl | rfl⟩ := k.eq_nat_or_neg
  · have hguess : ((n : ℤ) * 30103 / 100000) = (n * 30103 / 100000 : ℕ) := by omega
    rw [hguess, zpow_natCast, zpow_natCast]
    exact_mod_cast hup n (by omega)
  · have hguess : (-(n : ℤ) * 30103 / 100000) = -((n * 30103 + 99999) / 100000 : ℕ) := by omega
    rw [hguess, zpow_neg, zpow_neg, zpow_natCast, zpow_natCast]
    gcongr
    exact_mod_cast hdown n (by omega)

theorem zpow_magnitude_le (hb : b.Stored) (hpos : 0 < b.mantissa) :
    (10 : ℚ) ^ b.magnitude ≤ b.value := by
  have hmagnitude : b.magnitude =
      if (scaled b.mantissa b.exponent
          (((b.mantissa.log2 : ℤ) + b.exponent) * 30103 / 100000 + 1)).2 ≤
        (scaled b.mantissa b.exponent
          (((b.mantissa.log2 : ℤ) + b.exponent) * 30103 / 100000 + 1)).1
      then ((b.mantissa.log2 : ℤ) + b.exponent) * 30103 / 100000 + 1
      else ((b.mantissa.log2 : ℤ) + b.exponent) * 30103 / 100000 := rfl
  have hlog : b.mantissa.log2 < 53 := (Nat.log2_lt (by omega)).mpr hb.mantissa_lt
  have hle := hb.le_exponent
  have hge := hb.exponent_le
  rw [hmagnitude]
  split
  · rename_i hmore
    rw [← one_mul (scaled _ _ _).2, le_scaled_iff] at hmore
    simpa [value] using hmore
  · calc (10 : ℚ) ^ (((b.mantissa.log2 : ℤ) + b.exponent) * 30103 / 100000)
        ≤ 2 ^ ((b.mantissa.log2 : ℤ) + b.exponent) := zpow_guess_le (by omega) (by omega)
      _ = (2 ^ b.mantissa.log2 : ℕ) * 2 ^ b.exponent := by
        rw [zpow_add₀ two_ne_zero, zpow_natCast]
        push_cast
        rfl
      _ ≤ b.value := by
        have hpow : (2 ^ b.mantissa.log2 : ℕ) ≤ b.mantissa := Nat.log2_self_le (by omega)
        rw [value]
        gcongr

theorem roundsBack_searchGrids (top : ℤ) (more n k : ℕ) (hn : n ≤ k) (hk : k < n + more)
    (h : (b.onGrid (top - k)).isSome = true) :
    b.roundsBack (searchGrids b top more n).exponent (searchGrids b top more n).digits = true := by
  induction more generalizing n with
  | zero => omega
  | succ more ih =>
    rw [searchGrids]
    rcases b.onGrid_cases (top - n) with ⟨c, hc, hback⟩ | ⟨hnone, -⟩
    · rw [hc]
      exact hback
    · rw [hnone]
      have hne : n ≠ k := by
        rintro rfl
        rw [hnone] at h
        cases h
      exact ih (n + 1) (by omega) (by omega)

-- The shortest decimal of a double reads back. It has 17 digits at most, as a grid of 17 digits is
-- fine enough for every double.
theorem nearest_shortest (hb : b.Stored) (hpos : 0 < b.mantissa) :
    b.Nearest (b.shortest.digits * 10 ^ b.shortest.exponent) := by
  rw [← roundsBack_iff]
  refine roundsBack_searchGrids b.magnitude 17 0 16 (by omega) (by omega) ?_
  refine isSome_onGrid hb hpos ?_
  calc (10 : ℚ) ^ (b.magnitude - (16 : ℕ)) * 10 ^ 16 = 10 ^ b.magnitude := by
        rw [← zpow_natCast, ← zpow_add₀ (by norm_num)]
        congr 1
        omega
    _ ≤ b.value := zpow_magnitude_le hb hpos

end Binary

namespace Decimal

-- What a decimal stands for.
def value (d : Decimal) : ℚ := d.digits * 10 ^ d.exponent

-- Zeros at the end of the digits count as much as the exponent that replaces them.
theorem value_strip (d : Decimal) (fuel : ℕ) : (d.strip fuel).value = d.value := by
  induction fuel generalizing d with
  | zero => rfl
  | succ fuel ih =>
    rw [strip]
    split
    · rename_i h
      rw [Bool.and_eq_true, decide_eq_true_iff, decide_eq_true_iff] at h
      have hdigits : (d.digits : ℚ) = (d.digits / 10 : ℕ) * 10 := by
        exact_mod_cast (Nat.div_mul_cancel (Nat.dvd_of_mod_eq_zero h.2)).symm
      rw [ih, value, value, zpow_add_one₀ (by norm_num), hdigits]
      push_cast
      ring
    · rfl

end Decimal

end Likeness.Number
