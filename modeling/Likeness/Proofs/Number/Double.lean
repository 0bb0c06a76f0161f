import Likeness.Number.Scalar
import Mathlib.Algebra.Ring.Nat

namespace Likeness.Number

open Float.Model (Format UnpackedFloat totalExponent)
open Float.Model.UnpackedFloat

section Rounding

theorem log2_shiftLeft (m k : Nat) (hm : 0 < m) : (m <<< k).log2 = m.log2 + k := by
  have hlo := Nat.log2_self_le (Nat.ne_of_gt hm)
  have hhi : m < 2 ^ (m.log2 + 1) := Nat.lt_log2_self
  rw [Nat.log2_eq_iff (by simp; omega), Nat.shiftLeft_eq, Nat.pow_add, Nat.add_right_comm,
    Nat.pow_add]
  exact ⟨Nat.mul_le_mul_right _ hlo, Nat.mul_lt_mul_of_pos_right hhi (Nat.two_pow_pos k)⟩

theorem mantissa_shiftRight (em : ExtendedMantissa) (k : Nat) :
    (em >>> k).mantissa = em.mantissa >>> k := by
  induction k with
  | zero => rfl
  | succ k ih =>
    have hstep : (em >>> (k + 1)).mantissa = (em >>> k).mantissa / 2 := rfl
    rw [hstep, ih, Nat.shiftRight_succ]

theorem roundedMantissa_cases (em : ExtendedMantissa) :
    em.roundedMantissa = em.mantissa ∨ em.roundedMantissa = em.mantissa + 1 := by
  obtain ⟨m, _ | _, _ | _⟩ := em
  · exact .inl rfl
  · exact .inl rfl
  · change m + m % 2 = m ∨ m + m % 2 = m + 1
    omega
  · exact .inr rfl

theorem targetExponent_eq (m : Nat) (e : Int) (h : -1074 ≤ m.log2 + e - 52) :
    Format.binary64.targetExponent (totalExponent m e) = m.log2 + e - 52 := by
  change max (m.log2 + 1 + e - 53 : Int) (-1074) = m.log2 + e - 52
  omega

theorem mantissa_ofMantissaAndAccuracy (m : Nat) (acc : Accuracy) :
    (ExtendedMantissa.ofMantissaAndAccuracy m acc).mantissa = m := by
  rcases acc with _ | _ | _ | _ <;> rfl

-- A mantissa of 53 digits or more is cut down to 53. The exponent makes up for it.
theorem shiftToTargetExponent_eq (m : Nat) (e : Int) (acc : Accuracy) (hm : 52 ≤ m.log2)
    (he : -1074 ≤ m.log2 + e - 52) :
    shiftToTargetExponent Format.binary64 m e acc =
      (ExtendedMantissa.ofMantissaAndAccuracy m acc >>> (m.log2 - 52), m.log2 + e - 52) := by
  have hk : (m.log2 + e - 52 - e).toNat = m.log2 - 52 := by omega
  rw [shiftToTargetExponent, targetExponent_eq m e he, shiftToExponent, hk]
  have hexponent : e + (m.log2 - 52 : Nat) = m.log2 + e - 52 := by omega
  rw [hexponent]

theorem shiftRight_bounds (m : Nat) (hm : 52 ≤ m.log2) :
    2 ^ 52 ≤ m >>> (m.log2 - 52) ∧ m >>> (m.log2 - 52) < 2 ^ 53 := by
  have hne : m ≠ 0 := by
    rintro rfl
    simp at hm
  have hlo := Nat.log2_self_le hne
  have hhi : m < 2 ^ (m.log2 + 1) := Nat.lt_log2_self
  have hsplit : 53 + (m.log2 - 52) = m.log2 + 1 := by omega
  rw [Nat.shiftRight_eq_div_pow, Nat.le_div_iff_mul_le (Nat.two_pow_pos _),
    Nat.div_lt_iff_lt_mul (Nat.two_pow_pos _), ← Nat.pow_add, ← Nat.pow_add]
  constructor
  · rwa [Nat.add_sub_cancel' hm]
  · rwa [hsplit]

-- What is cut down to 53 digits and rounded.
def cutMantissa (m : Nat) (acc : Accuracy) : Nat :=
  (ExtendedMantissa.ofMantissaAndAccuracy m acc >>> (m.log2 - 52)).roundedMantissa

theorem cutMantissa_bounds (m : Nat) (acc : Accuracy) (hm : 52 ≤ m.log2) :
    2 ^ 52 ≤ cutMantissa m acc ∧ cutMantissa m acc ≤ 2 ^ 53 := by
  obtain ⟨hlo, hhi⟩ := shiftRight_bounds m hm
  have hcases := roundedMantissa_cases
    (ExtendedMantissa.ofMantissaAndAccuracy m acc >>> (m.log2 - 52))
  rw [mantissa_shiftRight, mantissa_ofMantissaAndAccuracy] at hcases
  rw [cutMantissa]
  omega

-- Whether what is rounded is zero does not depend on its sign.
theorem roundWithAccuracy_cases (spec : Format) (m : Nat) (e : Int) (acc : Accuracy) :
    (∀ s, roundWithAccuracy spec s m e acc = .zero s) ∨
      ∃ n k hn, ∀ s, roundWithAccuracy spec s m e acc = .finite s n k hn := by
  by_cases hzero : (shiftToTargetExponent spec
      (shiftToTargetExponent spec m e acc).1.roundedMantissa
      (shiftToTargetExponent spec m e acc).2 .exact).1.mantissa = 0
  · exact .inl fun s => dif_pos hzero
  · exact .inr ⟨_, _, Nat.pos_of_ne_zero hzero, fun s => dif_neg hzero⟩

-- What is rounded has 53 digits. Rounding up may give one more, which is cut off again.
theorem roundWithAccuracy_full (s : Sign) (m : Nat) (e : Int) (acc : Accuracy) (hm : 52 ≤ m.log2)
    (he : -1074 ≤ m.log2 + e - 52) :
    ∃ n k hn, roundWithAccuracy Format.binary64 s m e acc = .finite s n k hn ∧ n.log2 = 52 ∧
      (n = cutMantissa m acc ∧ k = m.log2 + e - 52 ∨
        cutMantissa m acc = 2 ^ 53 ∧ n = 2 ^ 52 ∧ k = m.log2 + e - 51) := by
  obtain ⟨hlo, hhi⟩ := cutMantissa_bounds m acc hm
  have hlog : 52 ≤ (cutMantissa m acc).log2 := (Nat.le_log2 (by omega)).mpr hlo
  rw [roundWithAccuracy, shiftToTargetExponent_eq m e acc hm he]
  dsimp only
  rw [← cutMantissa, shiftToTargetExponent_eq _ _ _ hlog (by omega)]
  dsimp only
  rw [mantissa_shiftRight, mantissa_ofMantissaAndAccuracy]
  obtain ⟨hlo', hhi'⟩ := shiftRight_bounds _ hlog
  have hne : cutMantissa m acc >>> ((cutMantissa m acc).log2 - 52) ≠ 0 := by omega
  refine ⟨_, _, Nat.pos_of_ne_zero hne, by rw [dif_neg hne], ?_, ?_⟩
  · rw [Nat.log2_eq_iff hne]
    exact ⟨hlo', hhi'⟩
  · rcases Nat.lt_or_eq_of_le hhi with hlt | heq
    · have hsame : (cutMantissa m acc).log2 = 52 := (Nat.log2_eq_iff (by omega)).mpr ⟨hlo, hlt⟩
      rw [hsame]
      refine .inl ⟨rfl, ?_⟩
      omega
    · have hmore : (cutMantissa m acc).log2 = 53 := by
        rw [heq]
        exact Nat.log2_two_pow
      rw [hmore, heq]
      refine .inr ⟨rfl, rfl, ?_⟩
      omega

-- A number that is not zero is rounded after it has been brought to 53 digits.
theorem ofNat_eq_roundWithAccuracy (n : Nat) (hn : 0 < n) (hlt : n < 2 ^ 64) :
    UnpackedFloat.ofNat Format.binary64 n = roundWithAccuracy Format.binary64 .positive
      (n <<< (52 - n.log2)) (-(52 - n.log2 : Nat)) .exact := by
  have hcompare : compare (n : Int) 0 = .gt := Int.compare_eq_gt.mpr (by omega)
  have hlog : n.log2 < 64 := (Nat.log2_lt (Nat.ne_of_gt hn)).mpr hlt
  have hk : (0 - (n.log2 + 0 - 52 : Int)).toNat = 52 - n.log2 := by omega
  rw [UnpackedFloat.ofNat, UnpackedFloat.ofInt, UnpackedFloat.normalize, hcompare]
  dsimp only
  rw [Int.toNat_natCast, UnpackedFloat.round, targetExponent_eq n 0 (by omega), decreaseExponent,
    hk, Int.zero_sub]

theorem ofNat_full (n : Nat) (hn : 0 < n) (hlt : n < 2 ^ 64) :
    ∃ m e hm, UnpackedFloat.ofNat Format.binary64 n = .finite .positive m e hm ∧ m.log2 = 52 ∧
      -52 ≤ e ∧ e ≤ 12 := by
  have hlog : n.log2 < 64 := (Nat.log2_lt (Nat.ne_of_gt hn)).mpr hlt
  have hshift := log2_shiftLeft n (52 - n.log2) hn
  rw [ofNat_eq_roundWithAccuracy n hn hlt]
  obtain ⟨m, e, hm, hround, hfull, hcases⟩ := roundWithAccuracy_full .positive
    (n <<< (52 - n.log2)) (-(52 - n.log2 : Nat)) .exact (by omega) (by omega)
  exact ⟨m, e, hm, hround, hfull, by omega, by omega⟩

end Rounding

section Packing

theorem toNat_one_append (m : BitVec 52) : (1#1 ++ m).toNat = 2 ^ 52 + m.toNat := by
  rw [BitVec.toNat_append, Nat.shiftLeft_eq]
  exact (Nat.two_pow_add_eq_or_of_lt m.isLt 1).symm

-- The sign is the highest bit of what is packed.
theorem sign_packComponents (s : Sign) (k : BitVec 11) (m : BitVec 52) :
    Sign.ofBitVec (unpackSign (packComponents Format.binary64 s k m)) = s := by
  have hsign : unpackSign (packComponents Format.binary64 s k m) = s.toBitVec := by
    change (s.toBitVec ++ k ++ m).extractLsb' 63 1 = s.toBitVec
    rw [BitVec.extractLsb'_append_eq_of_le (by decide),
      BitVec.extractLsb'_append_eq_of_le (by decide)]
    exact BitVec.extractLsb'_eq_self
  rw [hsign]
  cases s <;> rfl

section Unpacked

variable {b : BitVec Format.binary64.numBits}

theorem unpack_greatest (h : unpackExponent b = -1#11) : unpack Format.binary64 b =
    if unpackMantissa b = 0#52 then .infinity (Sign.ofBitVec (unpackSign b)) else .notANumber := by
  change (if unpackExponent b = -1#11 then _ else _) = _
  rw [if_pos h]

theorem unpack_zero (h : unpackExponent b = 0#11) (hzero : unpackMantissa b = 0#52) :
    unpack Format.binary64 b = .zero (Sign.ofBitVec (unpackSign b)) := by
  have hne : unpackExponent b ≠ -1#11 := by
    rw [h]
    decide
  change (if unpackExponent b = -1#11 then _ else if unpackExponent b = 0#11 then _ else _) = _
  rw [if_neg hne, if_pos h]
  exact dif_pos hzero

theorem unpack_least (h : unpackExponent b = 0#11) (hsome : unpackMantissa b ≠ 0#52) :
    unpack Format.binary64 b =
      .finite (Sign.ofBitVec (unpackSign b)) (unpackMantissa b).toNat (-1074)
        (Nat.pos_of_ne_zero fun hnone => hsome (BitVec.toNat_inj.mp hnone)) := by
  have hne : unpackExponent b ≠ -1#11 := by
    rw [h]
    decide
  change (if unpackExponent b = -1#11 then _ else if unpackExponent b = 0#11 then _ else _) = _
  rw [if_neg hne, if_pos h, h]
  exact dif_neg hsome

-- The first digit of the mantissa is not stored. It is there unless the exponent is the least one.
theorem unpack_between (hlo : unpackExponent b ≠ 0#11) (hhi : unpackExponent b ≠ -1#11) :
    unpack Format.binary64 b = .finite (Sign.ofBitVec (unpackSign b))
      (2 ^ 52 + (unpackMantissa b).toNat) ((unpackExponent b).toNat - 1075) (by omega) := by
  have hmantissa := toNat_one_append (unpackMantissa b)
  have hunpack : unpack Format.binary64 b = .finite (Sign.ofBitVec (unpackSign b))
      (1#1 ++ unpackMantissa b).toNat ((unpackExponent b).toNat - 1075) (by omega) := by
    change (if unpackExponent b = -1#11 then _ else if unpackExponent b = 0#11 then _ else _) = _
    rw [if_neg hhi, if_neg hlo]
    rfl
  rw [hunpack, UnpackedFloat.finite.injEq]
  exact ⟨rfl, hmantissa, rfl⟩

end Unpacked

-- What has no place under the exponents that are left is packed as infinite.
theorem pack_finite (s : Sign) (m : Nat) (e : Int) (hm : 0 < m) :
    pack Format.binary64 (.finite s m e hm) =
      if 2048 ≤ (e + 1023 + 52).toNat + 1 then packedInfinity Format.binary64 s
      else packComponents Format.binary64 s
        (if m.log2 = 52 then BitVec.ofNat 11 (e + 1023 + 52).toNat else 0#11)
        (BitVec.ofNat 52 m) := by
  change (if 2048 ≤ (e + 1023 + 52).toNat + 1 then _ else if m.log2 + 1 = 53 then _ else _) = _
  by_cases hfull : m.log2 = 52
  · rw [if_pos hfull, if_pos (congrArg (· + 1) hfull)]
    rfl
  · have hless : ¬m.log2 + 1 = 53 := by omega
    rw [if_neg hfull, if_neg hless]

theorem unpack_pack (s : Sign) (m : Nat) (e : Int) (hm : 0 < m) (hfull : m.log2 = 52)
    (hlo : -1074 ≤ e) (hhi : e ≤ 971) :
    unpack Format.binary64 (pack Format.binary64 (.finite s m e hm)) = .finite s m e hm := by
  obtain ⟨hmlo, hmhi⟩ := (Nat.log2_eq_iff (Nat.ne_of_gt hm)).mp hfull
  obtain ⟨k, hk⟩ : ∃ k : Nat, (e + 1023 + 52).toNat = k := ⟨_, rfl⟩
  have hexponent : (BitVec.ofNat 11 k).toNat = k := by
    rw [BitVec.toNat_ofNat]
    omega
  have hmantissa : (BitVec.ofNat 52 m).toNat = m - 2 ^ 52 := by
    rw [BitVec.toNat_ofNat]
    omega
  have hleast : BitVec.ofNat 11 k ≠ 0#11 := by
    rw [ne_eq, ← BitVec.toNat_inj, hexponent]
    change k ≠ 0
    omega
  have hgreatest : BitVec.ofNat 11 k ≠ -1#11 := by
    rw [ne_eq, ← BitVec.toNat_inj, hexponent]
    change k ≠ 2047
    omega
  have hpack : pack Format.binary64 (.finite s m e hm) =
      packComponents Format.binary64 s (BitVec.ofNat 11 k) (BitVec.ofNat 52 m) := by
    rw [pack_finite, hk, if_neg (by omega), if_pos hfull]
  have hunpack := unpack_between
    (b := packComponents Format.binary64 s (BitVec.ofNat 11 k) (BitVec.ofNat 52 m))
    (by rwa [unpackExponent_packComponents]) (by rwa [unpackExponent_packComponents])
  rw [hpack, hunpack, UnpackedFloat.finite.injEq, sign_packComponents,
    unpackMantissa_packComponents, unpackExponent_packComponents, hmantissa, hexponent]
  refine ⟨rfl, ?_, ?_⟩
  · omega
  · omega

end Packing

-- A word that is not zero is a positive double.
theorem unpack_toFloat (w : UInt64) (hw : 0 < w.toNat) :
    w.toFloat.toModel.unpack = UnpackedFloat.ofNat Format.binary64 w.toNat ∧
      ∃ m e hm, m.log2 = 52 ∧ -52 ≤ e ∧ e ≤ 12 ∧
        w.toFloat.toModel.unpack = .finite .positive m e hm := by
  obtain ⟨m, e, hm, hround, hfull, hlo, hhi⟩ := ofNat_full _ hw w.toNat_lt
  have hunpack : w.toFloat.toModel.unpack = .finite .positive m e hm := by
    rw [← unpack_pack .positive m e hm hfull (by omega) (by omega), ← hround]
    rfl
  exact ⟨hunpack.trans hround.symm, m, e, hm, hfull, hlo, hhi, hunpack⟩

theorem toNat_ofNatClamp_pos {n : Nat} (hn : 0 < n) : 0 < (UInt64.ofNatClamp n).toNat := by
  by_cases h : n < UInt64.size
  · rwa [UInt64.toNat_ofNatClamp_of_lt h]
  · rw [UInt64.toNat_ofNatClamp_of_le (Nat.le_of_not_lt h)]
    decide

-- A count that is not zero is a positive double.
theorem unpack_ofNat (n : Nat) (hn : 0 < n) :
    ∃ m e hm, (Scalar.ofNat n : Float).toModel.unpack = .finite .positive m e hm := by
  obtain ⟨-, m, e, hm, -, -, -, hunpack⟩ := unpack_toFloat _ (toNat_ofNatClamp_pos hn)
  exact ⟨m, e, hm, hunpack⟩

-- Words and their negations are finite.
theorem isFinite_toFloat (w : UInt64) :
    w.toFloat.isFinite = true ∧ (-w.toFloat).isFinite = true := by
  rcases Nat.eq_zero_or_pos w.toNat with hzero | hpos
  · obtain rfl : w = 0 := UInt64.toNat_inj.mp hzero
    exact ⟨by decide, by decide⟩
  · obtain ⟨-, m, e, hm, hfull, hlo, hhi, hunpack⟩ := unpack_toFloat w hpos
    have hneg : (-w.toFloat).toModel.unpack = .finite .negative m e hm := by
      rw [← unpack_pack .negative m e hm hfull (by omega) (by omega)]
      change UnpackedFloat.unpack _ (UnpackedFloat.pack _ w.toFloat.toModel.unpack.neg) = _
      rw [hunpack]
      rfl
    constructor
    · change w.toFloat.toModel.unpack.isFinite = true
      rw [hunpack]
      rfl
    · change (-w.toFloat).toModel.unpack.isFinite = true
      rw [hneg]
      rfl

theorem zero_div_ofNat (n : Nat) (hn : 0 < n) :
    (Scalar.zero : Float) / Scalar.ofNat n = Scalar.zero := by
  obtain ⟨m, e, hm, hunpack⟩ := unpack_ofNat n hn
  have hzero : (Scalar.zero : Float).toModel.unpack = .zero .positive := rfl
  change Float.ofModel (Float.Model.pack (UnpackedFloat.div Format.binary64 _ _)) = _
  rw [hzero, hunpack]
  rfl

end Likeness.Number
