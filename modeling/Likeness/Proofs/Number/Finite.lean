import Likeness.Proofs.Number.Binary
import Likeness.Proofs.Number.Double
import Likeness.Proofs.Number.Exact

namespace Likeness.Number

open Float.Model (Format UnpackedFloat)
open Float.Model.UnpackedFloat

theorem signedLimit_eq : signedLimit = 2 ^ 63 := rfl

section Fields

variable (x : Float)

-- The bits of a double without its sign.
def sizeBits : ℕ := x.toBits.toNat % signedLimit

def isNegative : Bool := signedLimit ≤ x.toBits.toNat

theorem toNat_unpackMantissa :
    (@unpackMantissa Format.binary64 x.toModel.toBits.toBitVec).toNat =
      sizeBits x % 2 ^ 52 := by
  have hbits : x.toModel.toBits.toBitVec.toNat = x.toBits.toNat := rfl
  change x.toModel.toBits.toBitVec.toNat >>> 0 % 2 ^ 52 = _
  rw [hbits, sizeBits, signedLimit_eq, Nat.shiftRight_zero]
  omega

theorem toNat_unpackExponent :
    (@unpackExponent Format.binary64 x.toModel.toBits.toBitVec).toNat =
      sizeBits x / 2 ^ 52 % 2048 := by
  have hbits : x.toModel.toBits.toBitVec.toNat = x.toBits.toNat := rfl
  change x.toModel.toBits.toBitVec.toNat >>> 52 % 2 ^ 11 = _
  rw [hbits, sizeBits, signedLimit_eq, Nat.shiftRight_eq_div_pow]
  omega

theorem ofBitVec_unpackSign :
    Sign.ofBitVec (@unpackSign Format.binary64 x.toModel.toBits.toBitVec) =
      if isNegative x then .negative else .positive := by
  have hbits : x.toModel.toBits.toBitVec.toNat = x.toBits.toNat := rfl
  have hlt : x.toBits.toNat < 2 ^ 64 := x.toBits.toNat_lt
  have hsign : (@unpackSign Format.binary64 x.toModel.toBits.toBitVec).toNat =
      x.toBits.toNat / 2 ^ 63 := by
    change x.toModel.toBits.toBitVec.toNat >>> 63 % 2 ^ 1 = _
    rw [hbits, Nat.shiftRight_eq_div_pow]
    omega
  have hzero : @unpackSign Format.binary64 x.toModel.toBits.toBitVec = 0#1 ↔
      x.toBits.toNat < 2 ^ 63 := by
    rw [← BitVec.toNat_inj, hsign]
    change x.toBits.toNat / 2 ^ 63 = 0 ↔ _
    omega
  rw [Sign.ofBitVec, isNegative, signedLimit_eq]
  by_cases h : x.toBits.toNat < 2 ^ 63
  · rw [if_pos (hzero.mpr h), if_neg (by simpa using h)]
  · rw [if_neg (mt hzero.mp h), if_pos (by simpa using h)]

end Fields

section Values

variable {x y : Float}

theorem sizeBits_lt (x : Float) : sizeBits x < 2 ^ 63 := Nat.mod_lt _ (by decide)

theorem toBits_eq (x : Float) :
    x.toBits.toNat = (if isNegative x then 2 ^ 63 else 0) + sizeBits x := by
  have hlt : x.toBits.toNat < 2 ^ 64 := x.toBits.toNat_lt
  rw [isNegative, sizeBits, signedLimit_eq]
  by_cases h : 2 ^ 63 ≤ x.toBits.toNat
  · rw [if_pos (by simpa using h)]
    omega
  · rw [if_neg (by simpa using h)]
    omega

-- A double is known by its sign and its other bits.
theorem eq_of_bits (hsign : isNegative x = isNegative y) (hsize : sizeBits x = sizeBits y) :
    x = y := by
  have hbits : x.toBits = y.toBits := by
    rw [← UInt64.toNat_inj, toBits_eq x, toBits_eq y, hsign, hsize]
  obtain ⟨⟨a, ha⟩⟩ := x
  obtain ⟨⟨b, hb⟩⟩ := y
  change a = b at hbits
  subst hbits
  rfl

theorem value_ofBits (n : ℕ) : (Binary.ofBits n).value =
    if n / 2 ^ 52 % 2048 = 0 then ((n % 2 ^ 52 : ℕ) : ℚ) * 2 ^ (-1074 : ℤ)
    else ((2 ^ 52 + n % 2 ^ 52 : ℕ) : ℚ) * 2 ^ ((n / 2 ^ 52 % 2048 : ℕ) - 1075 : ℤ) := by
  rcases Binary.ofBits_cases n with ⟨h, hbits⟩ | ⟨h, hbits⟩
  · rw [hbits, if_pos h, Binary.value]
  · rw [hbits, if_neg (by omega), Binary.value]

theorem exactValue_finite (negative : Bool) (m : ℕ) (e : ℤ) (hm : 0 < m) :
    exactValue (.finite (if negative then .negative else .positive) m e hm) =
      (if negative then -1 else 1) * (m * 2 ^ e) := by
  cases negative with
  | false => exact (one_mul _).symm
  | true => exact (neg_one_mul _).symm

-- What a finite double stands for is what its bits stand for, with its sign.
theorem exactValue_eq (hx : x.isFinite = true) : exactValue x.toModel.unpack =
    (if isNegative x then -1 else 1) * (Binary.ofBits (sizeBits x)).value := by
  have hmantissa := toNat_unpackMantissa x
  have hexponent := toNat_unpackExponent x
  have hfinite : (unpack Format.binary64 x.toModel.toBits.toBitVec).isFinite = true := hx
  change exactValue (unpack Format.binary64 x.toModel.toBits.toBitVec) = _
  rw [value_ofBits, ← hmantissa, ← hexponent]
  by_cases hones : @unpackExponent Format.binary64 x.toModel.toBits.toBitVec = -1#11
  · rw [unpack_greatest hones] at hfinite
    split at hfinite
    · cases hfinite
    · cases hfinite
  by_cases hleast : @unpackExponent Format.binary64 x.toModel.toBits.toBitVec = 0#11
  · rw [hleast]
    by_cases hzero : @unpackMantissa Format.binary64 x.toModel.toBits.toBitVec = 0#52
    · rw [unpack_zero hleast hzero, hzero]
      change (0 : ℚ) = _
      simp
    · rw [unpack_least hleast hzero, ofBitVec_unpackSign x, exactValue_finite]
      rfl
  · have hne : (@unpackExponent Format.binary64 x.toModel.toBits.toBitVec).toNat ≠ 0 :=
      fun h => hleast (BitVec.toNat_inj.mp h)
    rw [unpack_between hleast hones, ofBitVec_unpackSign x, exactValue_finite, if_neg hne]

theorem value_ofBits_nonneg (n : ℕ) : 0 ≤ (Binary.ofBits n).value := by
  rw [Binary.value]
  positivity

theorem value_ofBits_pos_iff {n : ℕ} (hn : n < 2 ^ 63) : 0 < (Binary.ofBits n).value ↔ 0 < n := by
  rw [Nat.pos_iff_ne_zero, ne_eq, ← Binary.mantissa_ofBits_eq_zero_iff hn, ← ne_eq,
    ← Nat.pos_iff_ne_zero, Binary.value, mul_pos_iff_of_pos_right (by positivity), Nat.cast_pos]

theorem value_ofBits_inj {m n : ℕ} (hm : m < 2 ^ 63) (hn : n < 2 ^ 63) :
    (Binary.ofBits m).value = (Binary.ofBits n).value ↔ m = n := by
  refine ⟨fun h => ?_, fun h => by rw [h]⟩
  rcases Nat.eq_zero_or_pos m with hzero | hpos
  · have hzero' : ¬0 < n := by
      rw [← value_ofBits_pos_iff hn, ← h, value_ofBits_pos_iff hm]
      omega
    omega
  · have hpos' : 0 < n := by
      rw [← value_ofBits_pos_iff hn, ← h, value_ofBits_pos_iff hm]
      exact hpos
    have hmantissa : 0 < (Binary.ofBits m).mantissa :=
      Nat.pos_of_ne_zero (mt (Binary.mantissa_ofBits_eq_zero_iff hm).mp (by omega))
    have hmantissa' : 0 < (Binary.ofBits n).mantissa :=
      Nat.pos_of_ne_zero (mt (Binary.mantissa_ofBits_eq_zero_iff hn).mp (by omega))
    have hnearest' : (Binary.ofBits n).Nearest (Binary.ofBits m).value := by
      rw [h]
      exact Binary.nearest_value hmantissa'
    obtain ⟨hsame, hsame'⟩ := Binary.eq_of_nearest (Binary.stored_ofBits m)
      (Binary.stored_ofBits n) (Binary.nearest_value hmantissa) hnearest'
    exact Binary.ofBits_injective hm hn hsame hsame'

-- Doubles that are compared as equal stand for one number.
theorem exactValue_of_beq (h : (x == y) = true) :
    exactValue x.toModel.unpack = exactValue y.toModel.unpack := by
  change (UnpackedFloat.compare x.toModel.unpack y.toModel.unpack == some .eq) = true at h
  generalize x.toModel.unpack = a at *
  generalize y.toModel.unpack = b at *
  rcases a with (_ | _) | _ | _ | ⟨_ | _, m, e, _⟩ <;>
    rcases b with (_ | _) | _ | _ | ⟨_ | _, n, k, _⟩ <;>
    dsimp only [UnpackedFloat.compare, exactValue] at h ⊢ <;>
    simp [Ordering.then_eq_eq] at h ⊢
  · rw [h.1, h.2]
  · rw [h.1, h.2]

theorem isFinite_of_beq (h : (x == y) = true) (hy : y.isFinite = true) : x.isFinite = true := by
  change (UnpackedFloat.compare x.toModel.unpack y.toModel.unpack == some .eq) = true at h
  change y.toModel.unpack.isFinite = true at hy
  change x.toModel.unpack.isFinite = true
  generalize x.toModel.unpack = a at *
  generalize y.toModel.unpack = b at *
  cases a with
  | zero s => rfl
  | finite s m e hm => rfl
  | notANumber => cases h
  | infinity s =>
    cases b with
    | infinity t => cases hy
    | notANumber => cases hy
    | zero t => cases s <;> cases h
    | finite t m e hm => cases s <;> cases h

theorem beq_self_of_isFinite (hx : x.isFinite = true) : (x == x) = true := by
  change x.toModel.unpack.isFinite = true at hx
  change (UnpackedFloat.compare x.toModel.unpack x.toModel.unpack == some .eq) = true
  generalize x.toModel.unpack = a at *
  rcases a with _ | _ | _ | ⟨_ | _, m, e, _⟩
  · cases hx
  · cases hx
  · rfl
  · dsimp only [UnpackedFloat.compare]
    simp
  · dsimp only [UnpackedFloat.compare]
    simp

-- A finite double of which all bits are zero but the sign.
theorem eq_zero_of_sizeBits (h : sizeBits x = 0) : x = 0 ∨ x = -0 := by
  cases hsign : isNegative x with
  | false => exact .inl (eq_of_bits (hsign.trans (by decide)) (h.trans (by decide)))
  | true => exact .inr (eq_of_bits (hsign.trans (by decide)) (h.trans (by decide)))

-- The two zeros are the only different finite doubles that stand for one number.
theorem eq_or_zero_of_exactValue (hx : x.isFinite = true) (hy : y.isFinite = true)
    (h : exactValue x.toModel.unpack = exactValue y.toModel.unpack) :
    x = y ∨ sizeBits x = 0 ∧ sizeBits y = 0 := by
  have hlt := sizeBits_lt x
  have hlt' := sizeBits_lt y
  have hnonneg := value_ofBits_nonneg (sizeBits x)
  have hnonneg' := value_ofBits_nonneg (sizeBits y)
  rw [exactValue_eq hx, exactValue_eq hy] at h
  by_cases hsign : isNegative x = isNegative y
  · rw [hsign] at h
    have hvalue : (Binary.ofBits (sizeBits x)).value = (Binary.ofBits (sizeBits y)).value := by
      split at h <;> linarith
    exact .inl (eq_of_bits hsign ((value_ofBits_inj hlt hlt').mp hvalue))
  · have hopposite :
        (Binary.ofBits (sizeBits x)).value = -(Binary.ofBits (sizeBits y)).value := by
      split_ifs at h with hneg hneg' hneg'
      · exact absurd (hneg.trans hneg'.symm) hsign
      · linarith
      · linarith
      · exact absurd (by simp_all) hsign
    have hzero : ¬0 < sizeBits x ∧ ¬0 < sizeBits y := by
      rw [← value_ofBits_pos_iff hlt, ← value_ofBits_pos_iff hlt']
      constructor <;> linarith
    exact .inr ⟨by omega, by omega⟩

-- Two finite doubles stand for one number just when they are equal as doubles.
theorem exactValue_inj (hx : x.isFinite = true) (hy : y.isFinite = true) :
    exactValue x.toModel.unpack = exactValue y.toModel.unpack ↔ (x == y) = true := by
  refine ⟨fun h => ?_, exactValue_of_beq⟩
  rcases eq_or_zero_of_exactValue hx hy h with rfl | ⟨hzero, hzero'⟩
  · exact beq_self_of_isFinite hx
  · rcases eq_zero_of_sizeBits hzero with rfl | rfl <;>
      rcases eq_zero_of_sizeBits hzero' with rfl | rfl <;> rfl

end Values

end Likeness.Number
