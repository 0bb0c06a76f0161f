import Likeness.Number.Shortest
import Mathlib.Algebra.Order.Field.Power
import Mathlib.Algebra.Order.Field.Rat
import Mathlib.Tactic.Linarith
import Mathlib.Tactic.NormNum
import Mathlib.Tactic.Positivity
import Mathlib.Tactic.Ring

namespace Likeness.Number.Binary

-- What a positive double stands for.
def value (b : Binary) : ℚ := b.mantissa * 2 ^ b.exponent

section Interval

variable (b : Binary)

-- The ends of the interval of the numbers that round to a double, in quarters of the gap above it.
def below : ℕ := 4 * b.mantissa - (if b.halfGap then 1 else 2)

def above : ℕ := 4 * b.mantissa + 2

def lower : ℚ := b.below * 2 ^ (b.exponent - 2)

def upper : ℚ := b.above * 2 ^ (b.exponent - 2)

-- Whether a number rounds to a double. What lies between two doubles goes to the even one.
def Nearest (q : ℚ) : Prop :=
  if b.mantissa % 2 = 0 then b.lower ≤ q ∧ q ≤ b.upper else b.lower < q ∧ q < b.upper

variable {b}

theorem Nearest.bounds {q : ℚ} (h : b.Nearest q) : b.lower ≤ q ∧ q ≤ b.upper := by
  unfold Nearest at h
  split at h
  · exact h
  · exact ⟨h.1.le, h.2.le⟩

theorem Nearest.strict {q : ℚ} (h : b.Nearest q) (hodd : b.mantissa % 2 = 1) :
    b.lower < q ∧ q < b.upper := by
  rwa [Nearest, if_neg (by omega)] at h

theorem nearest_of_lt {q : ℚ} (hlo : b.lower < q) (hhi : q < b.upper) : b.Nearest q := by
  unfold Nearest
  split
  · exact ⟨hlo.le, hhi.le⟩
  · exact ⟨hlo, hhi⟩

end Interval

-- How doubles are stored: 53 digits where the exponent allows it. The gap below is half of the one
-- above at the powers of two, but for the least exponent.
structure Stored (b : Binary) : Prop where
  mantissa_lt : b.mantissa < 2 ^ 53
  le_exponent : -1074 ≤ b.exponent
  exponent_le : b.exponent ≤ 972
  full : b.exponent = -1074 ∨ 2 ^ 52 ≤ b.mantissa
  halfGap_iff : b.halfGap = true ↔ b.mantissa = 2 ^ 52 ∧ -1074 < b.exponent

theorem ofBits_cases (bits : ℕ) :
    (bits / 2 ^ 52 % 2048 = 0 ∧ ofBits bits = ⟨bits % 2 ^ 52, -1074, false⟩) ∨
      (0 < bits / 2 ^ 52 % 2048 ∧ ofBits bits = ⟨2 ^ 52 + bits % 2 ^ 52,
        (bits / 2 ^ 52 % 2048 : ℕ) - 1075,
        decide (bits % 2 ^ 52 = 0 ∧ 1 < bits / 2 ^ 52 % 2048)⟩) := by
  have hone : (1 <<< 52 : ℕ) = 2 ^ 52 := rfl
  unfold ofBits
  rw [Nat.shiftRight_eq_div_pow, hone]
  by_cases h : bits / 2 ^ 52 % 2048 = 0
  · exact .inl ⟨h, if_pos h⟩
  · refine .inr ⟨by omega, (if_neg h).trans ?_⟩
    rw [Bool.decide_and]
    rfl

theorem stored_ofBits (bits : ℕ) : (ofBits bits).Stored := by
  rcases ofBits_cases bits with ⟨h, hbits⟩ | ⟨h, hbits⟩ <;> rw [hbits]
  · refine ⟨?_, le_rfl, by norm_num, .inl rfl, ?_⟩
    · dsimp only
      omega
    · simp
  · constructor <;> dsimp only
    · omega
    · omega
    · omega
    · exact .inr (by omega)
    · rw [decide_eq_true_iff]
      omega

-- The stored bits without the sign are known by mantissa and exponent.
theorem ofBits_injective {m n : ℕ} (hm : m < 2 ^ 63) (hn : n < 2 ^ 63)
    (hmantissa : (ofBits m).mantissa = (ofBits n).mantissa)
    (hexponent : (ofBits m).exponent = (ofBits n).exponent) : m = n := by
  rcases ofBits_cases m with ⟨h, hbits⟩ | ⟨h, hbits⟩ <;>
    rcases ofBits_cases n with ⟨h', hbits'⟩ | ⟨h', hbits'⟩ <;>
    rw [hbits, hbits'] at hmantissa hexponent <;> dsimp only at hmantissa hexponent
  · omega
  · omega
  · omega
  · omega

theorem mantissa_ofBits_eq_zero_iff {n : ℕ} (hn : n < 2 ^ 63) :
    (ofBits n).mantissa = 0 ↔ n = 0 := by
  rcases ofBits_cases n with ⟨h, hbits⟩ | ⟨h, hbits⟩ <;> rw [hbits] <;> dsimp only <;> omega

section Order

variable {b c : Binary}

theorem zpow_exponent (b c : Binary) (h : b.exponent ≤ c.exponent) :
    (2 : ℚ) ^ (c.exponent - 2) =
      2 ^ (c.exponent - b.exponent).toNat * 2 ^ (b.exponent - 2) := by
  rw [← zpow_natCast, ← zpow_add₀ two_ne_zero]
  congr 1
  omega

-- The interval of a double ends before the one of a larger double starts. Where they touch, one of
-- the two does not have its end.
theorem above_le_below (hb : b.Stored) (hc : c.Stored)
    (h : b.exponent < c.exponent ∨ b.exponent = c.exponent ∧ b.mantissa < c.mantissa) :
    b.above < c.below * 2 ^ (c.exponent - b.exponent).toNat ∨
      b.above = c.below * 2 ^ (c.exponent - b.exponent).toNat ∧
        (b.mantissa % 2 = 1 ∨ c.mantissa % 2 = 1) := by
  have hmb := hb.mantissa_lt
  have hhalf := hc.halfGap_iff
  unfold above below
  rcases h with h | ⟨h, hlt⟩
  · have hfull : 2 ^ 52 ≤ c.mantissa := by
      rcases hc.full with hleast | hfull
      · have := hb.le_exponent
        omega
      · exact hfull
    have hbelow : 2 ^ 54 - 1 ≤ 4 * c.mantissa - (if c.halfGap then 1 else 2) := by
      split
      · omega
      · have hne : c.mantissa ≠ 2 ^ 52 := fun heq => by
          have := hb.le_exponent
          exact absurd (hhalf.mpr ⟨heq, by omega⟩) ‹_›
        omega
    obtain ⟨k, hk⟩ : ∃ k, (c.exponent - b.exponent).toNat = k + 1 :=
      ⟨(c.exponent - b.exponent).toNat - 1, by omega⟩
    rw [hk, pow_succ]
    have hpow : 1 ≤ 2 ^ k := Nat.one_le_two_pow
    rcases Nat.eq_or_lt_of_le hpow with hone | hmore
    · rw [← hone]
      omega
    · have hmul : (4 * c.mantissa - (if c.halfGap then 1 else 2)) * 4 ≤
          (4 * c.mantissa - (if c.halfGap then 1 else 2)) * (2 ^ k * 2) :=
        Nat.mul_le_mul_left _ (by omega)
      omega
  · have hk : (c.exponent - b.exponent).toNat = 0 := by omega
    rw [hk, pow_zero, mul_one]
    split <;> omega

theorem upper_le_lower (hb : b.Stored) (hc : c.Stored)
    (h : b.exponent < c.exponent ∨ b.exponent = c.exponent ∧ b.mantissa < c.mantissa) :
    b.upper < c.lower ∨
      b.upper = c.lower ∧ (b.mantissa % 2 = 1 ∨ c.mantissa % 2 = 1) := by
  have hexponent : b.exponent ≤ c.exponent := by omega
  have hunit : (0 : ℚ) < 2 ^ (b.exponent - 2) := by positivity
  rw [upper, lower, zpow_exponent b c hexponent, ← mul_assoc]
  rcases above_le_below hb hc h with hlt | ⟨heq, hodd⟩
  · exact .inl (mul_lt_mul_of_pos_right (mod_cast hlt) hunit)
  · exact .inr ⟨by rw [heq]; push_cast; rfl, hodd⟩

-- No number rounds to two doubles.
theorem not_nearest_of_lt {q : ℚ} (hb : b.Stored) (hc : c.Stored)
    (h : b.exponent < c.exponent ∨ b.exponent = c.exponent ∧ b.mantissa < c.mantissa)
    (hq : b.Nearest q) : ¬c.Nearest q := by
  intro hq'
  have hupper := hq.bounds.2
  have hlower := hq'.bounds.1
  rcases upper_le_lower hb hc h with hlt | ⟨heq, hodd | hodd⟩
  · linarith
  · have := (hq.strict hodd).2
    linarith
  · have := (hq'.strict hodd).1
    linarith

theorem eq_of_nearest {q : ℚ} (hb : b.Stored) (hc : c.Stored) (hq : b.Nearest q)
    (hq' : c.Nearest q) : b.mantissa = c.mantissa ∧ b.exponent = c.exponent := by
  have hbc : ¬(b.exponent < c.exponent ∨ b.exponent = c.exponent ∧ b.mantissa < c.mantissa) :=
    fun h => not_nearest_of_lt hb hc h hq hq'
  have hcb : ¬(c.exponent < b.exponent ∨ c.exponent = b.exponent ∧ c.mantissa < b.mantissa) :=
    fun h => not_nearest_of_lt hc hb h hq' hq
  omega

-- A double rounds to itself.
theorem nearest_value (h : 0 < b.mantissa) : b.Nearest b.value := by
  have hunit : (0 : ℚ) < 2 ^ (b.exponent - 2) := by positivity
  have hvalue : b.value = (4 * b.mantissa : ℕ) * 2 ^ (b.exponent - 2) := by
    have hexponent : b.exponent = b.exponent - 2 + (2 : ℕ) := by
      push_cast
      ring
    rw [value, hexponent, zpow_add₀ two_ne_zero, zpow_natCast, ← hexponent]
    push_cast
    ring
  have hbelow : b.below < 4 * b.mantissa := by
    unfold below
    split <;> omega
  have habove : 4 * b.mantissa < b.above := by
    unfold above
    omega
  rw [hvalue]
  exact nearest_of_lt (mul_lt_mul_of_pos_right (mod_cast hbelow) hunit)
    (mul_lt_mul_of_pos_right (mod_cast habove) hunit)

theorem nearest_pos {q : ℚ} (h : 0 < b.mantissa) (hq : b.Nearest q) : 0 < q := by
  have hbelow : 0 < b.below := by
    unfold below
    split <;> omega
  have hlower : 0 < b.lower := mul_pos (mod_cast hbelow) (by positivity)
  exact hlower.trans_le hq.bounds.1

end Order

end Likeness.Number.Binary
