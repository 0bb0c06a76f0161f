import Likeness.Proofs.Number.Rounding

namespace Likeness.Number

open Float.Model (Format UnpackedFloat)
open Float.Model.UnpackedFloat

section Counts

variable {m n p q : ℕ} {k l : ℤ} {hp : 0 < p} {hq : 0 < q}

-- Doubles of 53 digits are compared by their exponents first.
theorem value_le (hp : 0 < p) (hq : 0 < q) (hfull : p.log2 = 52) (hfull' : q.log2 = 52)
    (h : k < l ∨ k = l ∧ p ≤ q) :
    (p * 2 ^ k : ℚ) ≤ q * 2 ^ l := by
  have hhi : (p : ℚ) < 2 ^ 53 := mod_cast ((Nat.log2_eq_iff hp.ne').mp hfull).2
  have hlo : (2 : ℚ) ^ 52 ≤ q := mod_cast ((Nat.log2_eq_iff hq.ne').mp hfull').1
  rcases h with hlt | ⟨rfl, hle⟩
  · have hexponent : (53 + k : ℤ) ≤ 52 + l := by omega
    calc (p * 2 ^ k : ℚ) ≤ 2 ^ 53 * 2 ^ k := mul_le_mul_of_nonneg_right hhi.le (by positivity)
      _ = 2 ^ (53 + k : ℤ) := by
          rw [zpow_add₀ two_ne_zero]
          norm_cast
      _ ≤ 2 ^ (52 + l : ℤ) := zpow_le_zpow_right₀ one_le_two hexponent
      _ = 2 ^ 52 * 2 ^ l := by
          rw [zpow_add₀ two_ne_zero]
          norm_cast
      _ ≤ q * 2 ^ l := mul_le_mul_of_nonneg_right hlo (by positivity)
  · exact mul_le_mul_of_nonneg_right (Nat.cast_le.mpr hle) (by positivity)

-- A lower count is not a higher double.
theorem ofNat_le (hm : 0 < m) (hmn : m ≤ n) (hn : n < 2 ^ 64)
    (hround : UnpackedFloat.ofNat Format.binary64 m = .finite .positive p k hp)
    (hround' : UnpackedFloat.ofNat Format.binary64 n = .finite .positive q l hq) :
    k < l ∨ k = l ∧ p ≤ q := by
  have hn' : 0 < n := hm.trans_le hmn
  have hlog (i : ℕ) (hi : 0 < i) (hlt : i < 2 ^ 64) :
      52 ≤ (i <<< (52 - i.log2)).log2 ∧
        -1074 ≤ ((i <<< (52 - i.log2)).log2 : ℤ) + -(52 - i.log2 : ℕ) - 52 := by
    have hshift := log2_shiftLeft i (52 - i.log2) hi
    omega
  have hvalue (i : ℕ) : ((i <<< (52 - i.log2) : ℕ) * 2 ^ (-(52 - i.log2 : ℕ) : ℤ) : ℚ) = i := by
    rw [Nat.shiftLeft_eq, Nat.cast_mul, zpow_neg, zpow_natCast, Nat.cast_pow, Nat.cast_two,
      mul_inv_cancel_right₀ (by positivity)]
  rw [ofNat_eq_roundWithAccuracy m hm (hmn.trans_lt hn)] at hround
  rw [ofNat_eq_roundWithAccuracy n hn' hn] at hround'
  obtain ⟨hdigits, hleast⟩ := hlog m hm (hmn.trans_lt hn)
  obtain ⟨hdigits', hleast'⟩ := hlog n hn' hn
  refine roundWithAccuracy_le hdigits hdigits' hleast hleast' (holds_exact _) (holds_exact _) ?_
    hround hround'
  rw [hvalue m, hvalue n]
  exact Nat.cast_le.mpr hmn

theorem div_finite (s t : Sign) :
    UnpackedFloat.div Format.binary64 (.finite s p k hp) (.finite t q l hq) =
      roundWithAccuracy Format.binary64 (s / t) (divCore Format.binary64 p k q l).1
        (divCore Format.binary64 p k q l).2.1 (divCore Format.binary64 p k q l).2.2 := rfl

-- The quotient of two doubles, of which the first one is not higher, is not above 1.
theorem div_full (hp : 0 < p) (hq : 0 < q) (hfull : p.log2 = 52) (hfull' : q.log2 = 52)
    (hk : -52 ≤ k ∧ k ≤ 12) (hl : -52 ≤ l ∧ l ≤ 12) (h : k < l ∨ k = l ∧ p ≤ q) :
    ∃ r j hr, UnpackedFloat.div Format.binary64 (.finite .positive p k hp)
        (.finite .positive q l hq) = .finite .positive r j hr ∧ r.log2 = 52 ∧
      -1074 ≤ j ∧ (j < -52 ∨ j = -52 ∧ r ≤ 2 ^ 52) := by
  have hp' := (Nat.log2_eq_iff hp.ne').mp hfull
  have hq' := (Nat.log2_eq_iff hq.ne').mp hfull'
  have htarget : min (k - l) (Format.binary64.targetExponent
      (Float.Model.totalExponent p k - Float.Model.totalExponent q l)) = k - l - 53 := by
    change min (k - l) (max ((p.log2 + 1 + k) - (q.log2 + 1 + l) - 53) (-1074)) = k - l - 53
    rw [hfull, hfull']
    omega
  have hshift : (k - l - (k - l - 53)).toNat = 53 := by omega
  have hcore : divCore Format.binary64 p k q l = (p <<< 53 / q, k - l - 53,
      accuracyOfFraction (p <<< 53 % q) q) := by
    rw [divCore, htarget, hshift]
  have hquotient : 52 ≤ (p <<< 53 / q).log2 := by
    have hlo : 2 ^ 52 ≤ p <<< 53 / q := by
      rw [Nat.le_div_iff_mul_le hq, Nat.shiftLeft_eq]
      exact Nat.mul_le_mul hp'.1 hq'.2.le
    exact (Nat.le_log2 (by omega)).mpr hlo
  have hleast : -1074 ≤ ((p <<< 53 / q).log2 : ℤ) + (k - l - 53) - 52 := by omega
  obtain ⟨r, j, hr, hround, hfull'', hcases⟩ := roundWithAccuracy_full .positive (p <<< 53 / q)
    (k - l - 53) (accuracyOfFraction (p <<< 53 % q) q) hquotient hleast
  refine ⟨r, j, hr, ?_, hfull'', by omega, ?_⟩
  · have hsign : Sign.positive / Sign.positive = .positive := rfl
    rw [div_finite, hcore, hsign]
    dsimp only
    exact hround
  · have hone : roundWithAccuracy Format.binary64 .positive (2 ^ 52) (-52) .exact =
        .finite .positive (2 ^ 52) (-52) (by decide) := rfl
    refine roundWithAccuracy_le hquotient (by decide) hleast (by decide) (holds_div _ hq)
      (holds_exact _) ?_ hround hone
    have hpower : (2 : ℚ) ^ (k - l - 53) = 2 ^ k / (2 ^ l * 2 ^ 53) := by
      rw [zpow_sub₀ two_ne_zero, zpow_sub₀ two_ne_zero, div_div]
      norm_cast
    have hq'' : (0 : ℚ) < q * 2 ^ l := mul_pos (Nat.cast_pos.mpr hq) (zpow_pos two_pos l)
    calc ((p <<< 53 : ℕ) / q * 2 ^ (k - l - 53) : ℚ) = p * 2 ^ k / (q * 2 ^ l) := by
          rw [hpower, Nat.shiftLeft_eq, Nat.cast_mul, Nat.cast_pow, Nat.cast_two, div_mul_div_comm]
          rw [mul_right_comm, ← mul_assoc, mul_div_mul_right _ _ (by positivity)]
      _ ≤ 1 := (div_le_one hq'').mpr (value_le hp hq hfull hfull' h)
      _ = (2 ^ 52 : ℕ) * 2 ^ (-52 : ℤ) := by norm_num

theorem toNat_ofNatClamp_mono (hmn : m ≤ n) :
    (UInt64.ofNatClamp m).toNat ≤ (UInt64.ofNatClamp n).toNat := by
  by_cases hn : n < UInt64.size
  · rwa [UInt64.toNat_ofNatClamp_of_lt hn, UInt64.toNat_ofNatClamp_of_lt (hmn.trans_lt hn)]
  · rw [UInt64.toNat_ofNatClamp_of_le (Nat.le_of_not_lt hn)]
    exact Nat.le_pred_of_lt (UInt64.ofNatClamp m).toNat_lt

-- A share of a whole is a double from 0 to 1.
theorem unpack_share (hm : 0 < m) (hmn : m ≤ n) : ∃ r j hr,
    (Scalar.ofNat m / Scalar.ofNat n : Float).toModel.unpack = .finite .positive r j hr ∧
      (j < -52 ∨ j = -52 ∧ r ≤ 2 ^ 52) := by
  obtain ⟨hsame, p, k, hp, hfull, hk, hk', hunpack⟩ :=
    unpack_toFloat _ (toNat_ofNatClamp_pos hm)
  obtain ⟨hsame', q, l, hq, hfull', hl, hl', hunpack'⟩ :=
    unpack_toFloat _ (toNat_ofNatClamp_pos (hm.trans_le hmn))
  have hle := ofNat_le (toNat_ofNatClamp_pos hm) (toNat_ofNatClamp_mono hmn)
    (UInt64.ofNatClamp n).toNat_lt (hsame.symm.trans hunpack) (hsame'.symm.trans hunpack')
  obtain ⟨r, j, hr, hdiv, hdigits, hleast, hone⟩ :=
    div_full hp hq hfull hfull' ⟨hk, hk'⟩ ⟨hl, hl'⟩ hle
  refine ⟨r, j, hr, ?_, hone⟩
  rw [← unpack_pack .positive r j hr hdigits hleast (by omega), ← hdiv, ← hunpack, ← hunpack']
  rfl

theorem limit_share (hmn : m ≤ n) (hn : 0 < n) :
    Scalar.limit (Scalar.ofNat m / Scalar.ofNat n : Float) = Scalar.ofNat m / Scalar.ofNat n := by
  rcases Nat.eq_zero_or_pos m with rfl | hm
  · have hzero : (Scalar.ofNat 0 : Float) / Scalar.ofNat n = Scalar.zero := zero_div_ofNat n hn
    rw [hzero]
    decide
  obtain ⟨r, j, hr, hunpack, hone⟩ := unpack_share hm hmn
  generalize (Scalar.ofNat m / Scalar.ofNat n : Float) = x at hunpack
  have hlow : Scalar.le x (Scalar.zero : Float) = false := by
    rw [← Bool.not_eq_true, float_le_iff, hunpack]
    rintro ⟨a, ha, b, hb, hle⟩
    obtain rfl : toLex (1, toLex (j, (r : ℤ))) = a := Option.some.inj ha
    obtain rfl : toLex (0, toLex (0, 0)) = b := Option.some.inj hb
    simp [Prod.Lex.le_iff] at hle
  have hhigh : Scalar.le x (Scalar.one : Float) = true := by
    rw [float_le_iff, hunpack]
    refine ⟨_, rfl, toLex (1, toLex (-52, 2 ^ 52)), rfl, ?_⟩
    rw [Prod.Lex.le_iff]
    refine .inr ⟨rfl, (Prod.Lex.le_iff ..).mpr ?_⟩
    exact hone.imp id fun h => ⟨h.1, Int.ofNat_le.mpr h.2⟩
  simp [Scalar.limit, Scalar.lt, hlow, hhigh]

end Counts

section Numbers

theorem isNumber_iff (x : Float) :
    Scalar.isNumber x = true ↔ x.toModel.unpack ≠ .notANumber := by
  rw [Scalar.isNumber, float_le_iff]
  constructor
  · rintro ⟨a, ha, -⟩ hnone
    rw [hnone] at ha
    cases ha
  · intro hne
    cases hunpack : x.toModel.unpack with
    | notANumber => exact absurd hunpack hne
    | infinity s => cases s <;> exact ⟨_, rfl, _, rfl, le_rfl⟩
    | zero s => exact ⟨_, rfl, _, rfl, le_rfl⟩
    | finite s m e hm => cases s <;> exact ⟨_, rfl, _, rfl, le_rfl⟩

theorem unpack_packComponents_ne (s : Sign) {k : BitVec 11} (m : BitVec 52) (hk : k ≠ -1#11) :
    unpack Format.binary64 (packComponents Format.binary64 s k m) ≠ .notANumber := by
  obtain ⟨b, hb⟩ : ∃ b, packComponents Format.binary64 s k m = b := ⟨_, rfl⟩
  have hexponent : unpackExponent b ≠ -1#11 := by rwa [← hb, unpackExponent_packComponents]
  rw [hb]
  by_cases hleast : unpackExponent b = 0#11
  · by_cases hzero : unpackMantissa b = 0#52
    · rw [unpack_zero hleast hzero]
      nofun
    · rw [unpack_least hleast hzero]
      nofun
  · rw [unpack_between hleast hexponent]
    nofun

-- What is a number stays one when it is packed.
theorem unpack_pack_ne {u : UnpackedFloat} (h : u ≠ .notANumber) :
    unpack Format.binary64 (pack Format.binary64 u) ≠ .notANumber := by
  have hinfinity (s : Sign) :
      unpack Format.binary64 (packedInfinity Format.binary64 s) ≠ .notANumber := by
    have hunpack : unpack Format.binary64 (packedInfinity Format.binary64 s) = .infinity s := by
      cases s <;> rfl
    rw [hunpack]
    nofun
  cases u with
  | notANumber => exact absurd rfl h
  | infinity s => exact hinfinity s
  | zero s => exact unpack_packComponents_ne s _ (by decide)
  | finite s m e hm =>
    rw [pack_finite]
    split_ifs with hlarge
    · exact hinfinity s
    · apply unpack_packComponents_ne
      rw [ne_eq, ← BitVec.toNat_inj, BitVec.toNat_ofNat]
      change ¬_ % 2048 = 2047
      omega
    · exact unpack_packComponents_ne s _ (by decide)

theorem roundWithAccuracy_ne (s : Sign) (m : ℕ) (e : ℤ) (acc : Accuracy) :
    roundWithAccuracy Format.binary64 s m e acc ≠ .notANumber := by
  rcases roundWithAccuracy_cases Format.binary64 m e acc with hzero | ⟨n, k, hn, hfinite⟩
  · rw [hzero s]
    nofun
  · rw [hfinite s]
    nofun

theorem normalize_ne (m e : ℤ) (s : Sign) :
    UnpackedFloat.normalize Format.binary64 m e s ≠ .notANumber := by
  unfold UnpackedFloat.normalize
  split
  · exact roundWithAccuracy_ne _ _ _ _
  · nofun
  · exact roundWithAccuracy_ne _ _ _ _

variable {x : Float}

theorem isNumber_of_isFinite (h : x.isFinite = true) : Scalar.isNumber x = true := by
  rw [isNumber_iff]
  intro hnone
  change x.toModel.unpack.isFinite = true at h
  rw [hnone] at h
  cases h

theorem isFinite_ofNat (n : ℕ) : (Scalar.ofNat n : Float).isFinite = true :=
  (isFinite_toFloat _).1

theorem finite_cases {u : UnpackedFloat} (h : u.isFinite = true) :
    (∃ s, u = .zero s) ∨ ∃ s m e hm, u = .finite s m e hm := by
  cases u with
  | zero s => exact .inl ⟨s, rfl⟩
  | finite s m e hm => exact .inr ⟨s, m, e, hm, rfl⟩
  | _ => cases h

-- The product of two finite doubles is a number, which may be infinite.
theorem isNumber_mul {y : Float} (hx : x.isFinite = true) (hy : y.isFinite = true) :
    Scalar.isNumber (x * y) = true := by
  rw [isNumber_iff]
  change unpack Format.binary64 (pack Format.binary64
    (UnpackedFloat.mul Format.binary64 x.toModel.unpack y.toModel.unpack)) ≠ .notANumber
  apply unpack_pack_ne
  rcases finite_cases (u := x.toModel.unpack) hx with ⟨s, hx⟩ | ⟨s, m, e, hm, hx⟩ <;>
    rcases finite_cases (u := y.toModel.unpack) hy with ⟨t, hy⟩ | ⟨t, n, k, hn, hy⟩ <;>
    rw [hx, hy]
  · nofun
  · nofun
  · nofun
  · exact roundWithAccuracy_ne _ _ _ _

-- So is the sum.
theorem isNumber_add {y : Float} (hx : x.isFinite = true) (hy : y.isFinite = true) :
    Scalar.isNumber (x + y) = true := by
  rw [isNumber_iff]
  change unpack Format.binary64 (pack Format.binary64
    (UnpackedFloat.add Format.binary64 x.toModel.unpack y.toModel.unpack)) ≠ .notANumber
  apply unpack_pack_ne
  rcases finite_cases (u := x.toModel.unpack) hx with ⟨s, hx⟩ | ⟨s, m, e, hm, hx⟩ <;>
    rcases finite_cases (u := y.toModel.unpack) hy with ⟨t, hy⟩ | ⟨t, n, k, hn, hy⟩ <;>
    rw [hx, hy]
  · cases s <;> cases t <;> nofun
  · nofun
  · nofun
  · exact normalize_ne _ _ _

theorem isNumber_neg (hx : Scalar.isNumber x = true) : Scalar.isNumber (-x) = true := by
  rw [isNumber_iff] at hx ⊢
  change unpack Format.binary64 (pack Format.binary64 x.toModel.unpack.neg) ≠ .notANumber
  apply unpack_pack_ne
  cases hunpack : x.toModel.unpack with
  | notANumber => exact absurd hunpack hx
  | _ => nofun

theorem isNumber_nearestWhole (hx : Scalar.isNumber x = true) :
    Scalar.isNumber (nearestWhole x) = true := by
  have hbelow (w : UInt64) : Scalar.isNumber w.toFloat = true :=
    isNumber_of_isFinite (isFinite_toFloat w).1
  have hnext (w : UInt64) : Scalar.isNumber (w.toFloat + 1) = true :=
    isNumber_add (isFinite_toFloat w).1 (by decide)
  unfold nearestWhole
  dsimp only
  split_ifs
  · exact hbelow _
  · exact hnext _
  · exact isNumber_neg (hbelow _)
  · exact isNumber_neg (hnext _)
  · exact hx

theorem isNumber_div_ofNat (hx : Scalar.isNumber x = true) {n : ℕ} (hn : 0 < n) :
    Scalar.isNumber (x / Scalar.ofNat n) = true := by
  obtain ⟨q, l, hq, hunpack⟩ := unpack_ofNat n hn
  rw [isNumber_iff] at hx ⊢
  change unpack Format.binary64 (pack Format.binary64
    (UnpackedFloat.div Format.binary64 x.toModel.unpack _)) ≠ .notANumber
  rw [hunpack]
  apply unpack_pack_ne
  cases hx' : x.toModel.unpack with
  | notANumber => exact absurd hx' hx
  | infinity s => nofun
  | zero s => nofun
  | finite s p k hp => exact roundWithAccuracy_ne _ _ _ _

-- Between finite doubles all doubles are finite.
theorem isFinite_of_le_of_le {y z : Float} (hx : x.isFinite = true) (hz : z.isFinite = true)
    (hlow : Scalar.le x y = true) (hhigh : Scalar.le y z = true) : y.isFinite = true := by
  obtain ⟨r, hr, s, hs, hrs⟩ := (float_le_iff x y).mp hlow
  obtain ⟨s', hs', t, ht, hst⟩ := (float_le_iff y z).mp hhigh
  change y.toModel.unpack.isFinite = true
  cases hy : y.toModel.unpack with
  | notANumber =>
    rw [hy] at hs
    cases hs
  | zero sign => rfl
  | finite sign m e hm => rfl
  | infinity sign =>
    rw [hy] at hs hs'
    cases sign with
    | negative =>
      obtain rfl : toLex (-2, toLex (0, 0)) = s := Option.some.inj hs
      rcases finite_cases (u := x.toModel.unpack) hx with ⟨k, hx⟩ | ⟨_ | _, m, e, hm, hx⟩ <;>
        rw [hx] at hr <;> cases hr <;> exact absurd hrs (by simp [Prod.Lex.le_iff])
    | positive =>
      obtain rfl : toLex (2, toLex (0, 0)) = s' := Option.some.inj hs'
      rcases finite_cases (u := z.toModel.unpack) hz with ⟨k, hz⟩ | ⟨_ | _, m, e, hm, hz⟩ <;>
        rw [hz] at ht <;> cases ht <;> exact absurd hst (by simp [Prod.Lex.le_iff])

end Numbers

end Likeness.Number
