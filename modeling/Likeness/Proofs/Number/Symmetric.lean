import Likeness.Proofs.Number.Double
import Likeness.Proofs.Number.Exact

namespace Likeness.Number

open Float.Model (Format UnpackedFloat)
open Float.Model.UnpackedFloat

-- What the arithmetic of scores is relied on for where two operands change places.
class SymmetricScalar (α : Type) [Scalar α] : Prop where
  add_comm (a b : α) : a + b = b + a
  abs_sub_comm (a b : α) : Scalar.abs (a - b) = Scalar.abs (b - a)

section Doubles

variable (spec : Format)

theorem unpacked_add_comm (a b : UnpackedFloat) :
    UnpackedFloat.add spec a b = UnpackedFloat.add spec b a := by
  rcases a with (_ | _) | _ | (_ | _) | ⟨s, m, e, hm⟩ <;>
    rcases b with (_ | _) | _ | (_ | _) | ⟨t, n, k, hn⟩ <;> try rfl
  dsimp only [UnpackedFloat.add]
  rw [min_comm, Int.add_comm]

-- The sign of what is rounded does not count for its magnitude.
theorem abs_roundWithAccuracy (s t : Sign) (m : ℕ) (e : ℤ) (acc : Accuracy) :
    (roundWithAccuracy spec s m e acc).abs = (roundWithAccuracy spec t m e acc).abs := by
  rcases roundWithAccuracy_cases spec m e acc with hzero | ⟨n, k, hn, hfinite⟩
  · rw [hzero s, hzero t]
    rfl
  · rw [hfinite s, hfinite t]
    rfl

theorem abs_normalize_neg (m e : ℤ) :
    (UnpackedFloat.normalize spec (-m) e .positive).abs =
      (UnpackedFloat.normalize spec m e .positive).abs := by
  unfold UnpackedFloat.normalize
  rcases lt_trichotomy m 0 with h | rfl | h
  · have hneg : 0 < -m := by omega
    rw [Int.compare_eq_gt.mpr hneg, Int.compare_eq_lt.mpr h]
    exact abs_roundWithAccuracy spec _ _ _ _ _
  · rfl
  · have hneg : -m < 0 := by omega
    rw [Int.compare_eq_gt.mpr h, Int.compare_eq_lt.mpr hneg, Int.neg_neg]
    exact abs_roundWithAccuracy spec _ _ _ _ _

theorem abs_sub_unpacked (a b : UnpackedFloat) :
    (UnpackedFloat.sub spec a b).abs = (UnpackedFloat.sub spec b a).abs := by
  rcases a with (_ | _) | _ | (_ | _) | ⟨s, m, e, hm⟩ <;>
    rcases b with (_ | _) | _ | (_ | _) | ⟨t, n, k, hn⟩ <;> try rfl
  dsimp only [UnpackedFloat.sub]
  rw [min_comm, ← abs_normalize_neg, Int.neg_sub]

-- The magnitude of what is packed is known without the sign.
theorem abs_unpack_congr {b c : BitVec Format.binary64.numBits}
    (hexponent : unpackExponent b = unpackExponent c)
    (hmantissa : unpackMantissa b = unpackMantissa c) :
    (unpack Format.binary64 b).abs = (unpack Format.binary64 c).abs := by
  by_cases hgreatest : unpackExponent c = -1#11
  · rw [unpack_greatest hgreatest, unpack_greatest (hexponent.trans hgreatest), hmantissa]
    split <;> rfl
  by_cases hleast : unpackExponent c = 0#11
  · by_cases hzero : unpackMantissa c = 0#52
    · rw [unpack_zero hleast hzero,
        unpack_zero (hexponent.trans hleast) (hmantissa.trans hzero)]
      rfl
    · rw [unpack_least hleast hzero, unpack_least (hexponent.trans hleast) (hmantissa ▸ hzero)]
      change UnpackedFloat.finite .positive _ _ _ = .finite .positive _ _ _
      rw [UnpackedFloat.finite.injEq, hmantissa]
      exact ⟨rfl, rfl, rfl⟩
  · rw [unpack_between hleast hgreatest,
      unpack_between (hexponent ▸ hleast) (hexponent ▸ hgreatest)]
    change UnpackedFloat.finite .positive _ _ _ = .finite .positive _ _ _
    rw [UnpackedFloat.finite.injEq, hmantissa, hexponent]
    exact ⟨rfl, rfl, rfl⟩

theorem abs_unpack_packComponents (s t : Sign) (k : BitVec 11) (m : BitVec 52) :
    (unpack Format.binary64 (packComponents Format.binary64 s k m)).abs =
      (unpack Format.binary64 (packComponents Format.binary64 t k m)).abs := by
  apply abs_unpack_congr
  · rw [unpackExponent_packComponents, unpackExponent_packComponents]
  · rw [unpackMantissa_packComponents, unpackMantissa_packComponents]

-- The magnitude of what is packed is known by its own magnitude.
theorem abs_unpack_pack {a b : UnpackedFloat} (h : a.abs = b.abs) :
    (unpack Format.binary64 (pack Format.binary64 a)).abs =
      (unpack Format.binary64 (pack Format.binary64 b)).abs := by
  have habs (a : UnpackedFloat) : (unpack Format.binary64 (pack Format.binary64 a)).abs =
      (unpack Format.binary64 (pack Format.binary64 a.abs)).abs := by
    rcases a with s | _ | s | ⟨s, m, e, hm⟩
    · exact abs_unpack_packComponents s .positive _ _
    · rfl
    · exact abs_unpack_packComponents s .positive _ _
    · have hfinite : UnpackedFloat.abs (.finite s m e hm) = .finite .positive m e hm := rfl
      rw [hfinite, pack_finite, pack_finite]
      split_ifs
      · exact abs_unpack_packComponents s .positive _ _
      · exact abs_unpack_packComponents s .positive _ _
      · exact abs_unpack_packComponents s .positive _ _
  rw [habs a, habs b, h]

instance : SymmetricScalar Float where
  add_comm a b := by
    change Float.ofModel (Float.Model.pack (UnpackedFloat.add Format.binary64 _ _)) =
      Float.ofModel (Float.Model.pack (UnpackedFloat.add Format.binary64 _ _))
    rw [unpacked_add_comm]
  abs_sub_comm a b := by
    have hsub := abs_sub_unpacked Format.binary64 a.toModel.unpack b.toModel.unpack
    have hpacked := abs_unpack_pack hsub
    exact congrArg (fun u => Float.ofModel (Float.Model.pack u)) hpacked

end Doubles

instance : SymmetricScalar ℚ where
  add_comm := add_comm
  abs_sub_comm := abs_sub_comm

end Likeness.Number
