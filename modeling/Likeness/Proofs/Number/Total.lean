import Likeness.Proofs.Number.Counts
import Likeness.Proofs.Number.Finite

namespace Likeness.Number

open Float.Model (Format UnpackedFloat)
open Float.Model.UnpackedFloat

section Ranks

-- The bits of infinity. What is above them is no number.
def infinityBits : ℕ := 2047 * 2 ^ 52

variable {m n : ℕ}

-- Bits without a sign are in the order of exponents and mantissas.
theorem Binary.ofBits_lt (h : m < n) (hn : n < infinityBits) :
    (ofBits m).exponent < (ofBits n).exponent ∨
      (ofBits m).exponent = (ofBits n).exponent ∧ (ofBits m).mantissa < (ofBits n).mantissa := by
  unfold infinityBits at hn
  rcases ofBits_cases m with ⟨hm, hbits⟩ | ⟨hm, hbits⟩ <;>
    rcases ofBits_cases n with ⟨hn', hbits'⟩ | ⟨hn', hbits'⟩ <;>
    rw [hbits, hbits'] <;> dsimp only <;> omega

-- Where the size of a double stands among all sizes.
def sizeRank (n : ℕ) : ℤ ×ₗ ℤ ×ₗ ℤ :=
  if n = 0 then toLex (0, toLex (0, 0))
  else if n < infinityBits then
    toLex (1, toLex ((Binary.ofBits n).exponent, ((Binary.ofBits n).mantissa : ℤ)))
  else toLex (2, toLex (0, 0))

theorem sizeRank_lt (h : m < n) (hn : n ≤ infinityBits) : sizeRank m < sizeRank n := by
  have hinfinite : 0 < infinityBits := by decide
  unfold sizeRank
  rw [if_neg (show n ≠ 0 by omega)]
  rcases Nat.lt_or_eq_of_le hn with hlt | rfl
  · rw [if_pos hlt, if_pos (h.trans hlt)]
    split
    · simp [Prod.Lex.lt_iff]
    · simpa [Prod.Lex.lt_iff] using Binary.ofBits_lt h hlt
  · rw [if_neg (lt_irrefl _), if_pos h]
    split <;> simp [Prod.Lex.lt_iff]

theorem sizeRank_le_iff (hm : m ≤ infinityBits) (hn : n ≤ infinityBits) :
    sizeRank m ≤ sizeRank n ↔ m ≤ n := by
  refine ⟨fun h => ?_, fun h => ?_⟩
  · by_contra hlt
    exact absurd h (not_le.mpr (sizeRank_lt (not_le.mp hlt) hm))
  · rcases Nat.lt_or_eq_of_le h with hlt | rfl
    · exact (sizeRank_lt hlt hn).le
    · exact le_rfl

-- The rank of a number with the other sign.
def turned (r : ℤ ×ₗ ℤ ×ₗ ℤ) : ℤ ×ₗ ℤ ×ₗ ℤ :=
  toLex (-(ofLex r).1, toLex (-(ofLex (ofLex r).2).1, -(ofLex (ofLex r).2).2))

theorem turned_le_iff (r s : ℤ ×ₗ ℤ ×ₗ ℤ) : turned r ≤ turned s ↔ s ≤ r := by
  simp only [turned, Prod.Lex.le_iff, ofLex_toLex, neg_lt_neg_iff, neg_inj, neg_le_neg_iff]
  simp only [eq_comm]

theorem sizeRank_zero : sizeRank 0 = toLex (0, toLex (0, 0)) := rfl

theorem sizeRank_infinityBits : sizeRank infinityBits = toLex (2, toLex (0, 0)) := by decide

theorem sizeRank_finite (hpos : n ≠ 0) (hn : n < infinityBits) : sizeRank n =
    toLex (1, toLex ((Binary.ofBits n).exponent, ((Binary.ofBits n).mantissa : ℤ))) := by
  rw [sizeRank, if_neg hpos, if_pos hn]

theorem rank_finite (negative : Bool) (m : ℕ) (e : ℤ) (hm : 0 < m) :
    rank (.finite (if negative then .negative else .positive) m e hm) =
      some (if negative then turned (toLex (1, toLex (e, (m : ℤ))))
        else toLex (1, toLex (e, (m : ℤ)))) := by
  cases negative <;> rfl

-- A double that is a number has the rank of its size, turned around by its sign.
theorem rank_eq {x : Float} (hx : Scalar.isNumber x = true) :
    sizeBits x ≤ infinityBits ∧ rank x.toModel.unpack =
      some (if isNegative x then turned (sizeRank (sizeBits x)) else sizeRank (sizeBits x)) := by
  have hmantissa := toNat_unpackMantissa x
  have hexponent := toNat_unpackExponent x
  have hlt := sizeBits_lt x
  rw [isNumber_iff] at hx
  change unpack Format.binary64 x.toModel.toBits.toBitVec ≠ _ at hx
  change _ ∧ rank (unpack Format.binary64 x.toModel.toBits.toBitVec) = _
  by_cases hones : @unpackExponent Format.binary64 x.toModel.toBits.toBitVec = -1#11
  · rw [unpack_greatest hones, ofBitVec_unpackSign x] at hx ⊢
    have hlast : sizeBits x / 2 ^ 52 % 2048 = 2047 := by rw [← hexponent, hones]; rfl
    by_cases hzero : @unpackMantissa Format.binary64 x.toModel.toBits.toBitVec = 0#52
    · have hnone : sizeBits x % 2 ^ 52 = 0 := by rw [← hmantissa, hzero]; rfl
      have hsize : sizeBits x = infinityBits := by
        unfold infinityBits
        omega
      rw [if_pos hzero, hsize, sizeRank_infinityBits]
      refine ⟨le_rfl, ?_⟩
      cases isNegative x <;> rfl
    · rw [if_neg hzero] at hx
      exact absurd rfl hx
  · have hlast : sizeBits x / 2 ^ 52 % 2048 ≠ 2047 := by
      rw [← hexponent]
      exact fun h => hones (BitVec.toNat_inj.mp h)
    have hfinite : sizeBits x < infinityBits := by
      unfold infinityBits
      omega
    refine ⟨hfinite.le, ?_⟩
    by_cases hleast : @unpackExponent Format.binary64 x.toModel.toBits.toBitVec = 0#11
    · have hfirst : sizeBits x / 2 ^ 52 % 2048 = 0 := by rw [← hexponent, hleast]; rfl
      by_cases hzero : @unpackMantissa Format.binary64 x.toModel.toBits.toBitVec = 0#52
      · have hnone : sizeBits x % 2 ^ 52 = 0 := by rw [← hmantissa, hzero]; rfl
        have hsize : sizeBits x = 0 := by omega
        rw [unpack_zero hleast hzero, ofBitVec_unpackSign x, hsize, sizeRank_zero]
        cases isNegative x <;> rfl
      · have hpos : sizeBits x ≠ 0 := by
          intro hnone
          refine hzero (BitVec.toNat_inj.mp ?_)
          rw [hmantissa, hnone]
          rfl
        rcases Binary.ofBits_cases (sizeBits x) with ⟨-, hbits⟩ | ⟨hnext, -⟩
        · rw [unpack_least hleast hzero, ofBitVec_unpackSign x, rank_finite,
            sizeRank_finite hpos hfinite, hbits, hmantissa]
        · omega
    · have hnext : sizeBits x / 2 ^ 52 % 2048 ≠ 0 := by
        rw [← hexponent]
        exact fun h => hleast (BitVec.toNat_inj.mp h)
      have hpos : sizeBits x ≠ 0 := by
        intro hnone
        simp [hnone] at hnext
      rcases Binary.ofBits_cases (sizeBits x) with ⟨hfirst, -⟩ | ⟨-, hbits⟩
      · omega
      · rw [unpack_between hleast hones, ofBitVec_unpackSign x, rank_finite,
          sizeRank_finite hpos hfinite, hbits]
        simp only [hmantissa, hexponent]

theorem turned_zero : turned (sizeRank 0) = sizeRank 0 := by decide

-- What is turned around is not above zero, and what is not is not below it.
theorem turned_le_sizeRank (hm : m ≤ infinityBits) (hn : n ≤ infinityBits) :
    turned (sizeRank m) ≤ sizeRank n := by
  calc turned (sizeRank m) ≤ turned (sizeRank 0) :=
        (turned_le_iff _ _).mpr ((sizeRank_le_iff (Nat.zero_le _) hm).mpr (Nat.zero_le m))
    _ = sizeRank 0 := turned_zero
    _ ≤ sizeRank n := (sizeRank_le_iff (Nat.zero_le _) hn).mpr (Nat.zero_le n)

theorem sizeRank_le_turned_iff (hm : m ≤ infinityBits) (hn : n ≤ infinityBits) :
    sizeRank m ≤ turned (sizeRank n) ↔ m = 0 ∧ n = 0 := by
  constructor
  · intro h
    have hfirst := h.trans (turned_le_sizeRank hn (Nat.zero_le _))
    have hsecond := (turned_le_sizeRank (Nat.zero_le _) hm).trans h
    rw [sizeRank_le_iff hm (Nat.zero_le _)] at hfirst
    rw [turned_le_iff, sizeRank_le_iff hn (Nat.zero_le _)] at hsecond
    omega
  · rintro ⟨rfl, rfl⟩
    exact turned_zero.ge

end Ranks

section Keys

variable {x y : Float}

-- A double as a whole number: its size with its sign. Both zeros are the same one.
def signedSize (x : Float) : ℤ := if isNegative x then -(sizeBits x : ℤ) else sizeBits x

-- Numbers are compared as their sizes are.
theorem le_iff_signedSize (hx : Scalar.isNumber x = true) (hy : Scalar.isNumber y = true) :
    Scalar.le x y = true ↔ signedSize x ≤ signedSize y := by
  obtain ⟨hm, hrank⟩ := rank_eq hx
  obtain ⟨hn, hrank'⟩ := rank_eq hy
  rw [float_le_iff, hrank, hrank', signedSize, signedSize]
  simp only [Option.mem_def, Option.some.injEq, exists_eq_left']
  cases isNegative x <;> cases isNegative y <;> simp only [Bool.false_eq_true, if_false, if_true]
  · rw [sizeRank_le_iff hm hn, Nat.cast_le]
  · rw [sizeRank_le_turned_iff hm hn]
    omega
  · exact iff_of_true (turned_le_sizeRank hm hn) (by omega)
  · rw [turned_le_iff, sizeRank_le_iff hn hm, neg_le_neg_iff, Nat.cast_le]

-- In the order of all doubles the sign comes first, then the size.
theorem doubleKey_eq (x : Float) :
    doubleKey x = if isNegative x then -1 - (sizeBits x : ℤ) else sizeBits x := by
  have hbits := toBits_eq x
  have hlt := sizeBits_lt x
  unfold doubleKey
  rw [hbits, signedLimit_eq]
  cases isNegative x with
  | false =>
    simp only [Bool.false_eq_true, if_false, Nat.zero_add]
    rw [if_pos hlt]
  | true =>
    simp only [if_true]
    rw [if_neg (by omega)]
    push_cast
    ring

theorem totalLe_iff : Scalar.totalLe x y = true ↔ doubleKey x ≤ doubleKey y := decide_eq_true_iff

theorem totalLe_trans (x y z : Float) (hxy : Scalar.totalLe x y = true)
    (hyz : Scalar.totalLe y z = true) : Scalar.totalLe x z = true :=
  totalLe_iff.mpr ((totalLe_iff.mp hxy).trans (totalLe_iff.mp hyz))

theorem totalLe_total (x y : Float) : (Scalar.totalLe x y || Scalar.totalLe y x) = true := by
  rw [Bool.or_eq_true, totalLe_iff, totalLe_iff]
  exact le_total _ _

-- Of two numbers in this order the second one is higher or the same, but for the two zeros, which
-- are equal and yet in order.
theorem lt_or_of_totalLe (hx : Scalar.isNumber x = true) (hy : Scalar.isNumber y = true)
    (h : Scalar.totalLe x y = true) :
    Scalar.lt x y = true ∨ x = -0 ∧ y = 0 ∨ x = y := by
  rw [totalLe_iff, doubleKey_eq, doubleKey_eq] at h
  have hle := le_iff_signedSize hx hy
  have hge := le_iff_signedSize hy hx
  unfold signedSize at hle hge
  rw [Scalar.lt, Bool.and_eq_true, Bool.not_eq_true', ← Bool.not_eq_true, hle, hge]
  cases hsign : isNegative x <;> cases hsign' : isNegative y <;>
    simp only [hsign, hsign', Bool.false_eq_true, if_false, if_true] at h ⊢
  · rcases Int.lt_or_eq_of_le h with hlt | heq
    · exact .inl (by omega)
    · exact .inr (.inr (eq_of_bits (hsign.trans hsign'.symm) (by omega)))
  · omega
  · by_cases hzero : sizeBits x = 0 ∧ sizeBits y = 0
    · refine .inr (.inl ⟨eq_of_bits (hsign.trans (by decide)) (hzero.1.trans (by decide)),
        eq_of_bits (hsign'.trans (by decide)) (hzero.2.trans (by decide))⟩)
    · exact .inl (by omega)
  · rcases Int.lt_or_eq_of_le h with hlt | heq
    · exact .inl (by omega)
    · exact .inr (.inr (eq_of_bits (hsign.trans hsign'.symm) (by omega)))

end Keys

end Likeness.Number
