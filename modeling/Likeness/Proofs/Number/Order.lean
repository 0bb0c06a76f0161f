import Likeness.Number.Scalar
import Mathlib.Data.Prod.Lex
import Mathlib.Order.Lattice

namespace Likeness.Number

-- What the order of scores is relied on for. It says nothing about what is no number.
class OrderedScalar (α : Type) [Scalar α] : Prop where
  le_trans (a b c : α) : Scalar.le a b → Scalar.le b c → Scalar.le a c
  le_total (a b : α) : Scalar.isNumber a → Scalar.isNumber b → Scalar.le a b ∨ Scalar.le b a
  isNumber_of_le (a b : α) : Scalar.le a b → Scalar.isNumber a ∧ Scalar.isNumber b
  zero_le_one : Scalar.le (Scalar.zero : α) Scalar.one

section Doubles

open Float.Model (UnpackedFloat)

-- Where a double stands among all of them: by its sort first, then by exponent and mantissa. What
-- is no number stands nowhere.
def rank : UnpackedFloat → Option (Int ×ₗ Int ×ₗ Int)
  | .notANumber => none
  | .infinity .negative => some (toLex (-2, toLex (0, 0)))
  | .finite .negative m e _ => some (toLex (-1, toLex (-e, -m)))
  | .zero _ => some (toLex (0, toLex (0, 0)))
  | .finite .positive m e _ => some (toLex (1, toLex (e, m)))
  | .infinity .positive => some (toLex (2, toLex (0, 0)))

theorem isLE_then_compare (a b : Int) (m n : Nat) :
    ((compare a b).then (compare m n)).isLE = true ↔ a < b ∨ a = b ∧ m ≤ n := by
  rw [Ordering.isLE_then_iff_or]
  simp [compare_lt_iff_lt, Nat.isLE_compare]

theorem isGE_then_compare (a b : Int) (m n : Nat) :
    ((compare a b).then (compare m n)).isGE = true ↔ b < a ∨ a = b ∧ n ≤ m := by
  rw [← Ordering.isLE_swap, Ordering.swap_then, Int.compare_swap, Nat.compare_swap,
    isLE_then_compare, eq_comm]

theorem unpacked_le_iff (a b : UnpackedFloat) :
    UnpackedFloat.le a b = true ↔ ∃ x ∈ rank a, ∃ y ∈ rank b, x ≤ y := by
  rcases a with (_ | _) | _ | _ | ⟨_ | _, m, e, _⟩ <;>
    rcases b with (_ | _) | _ | _ | ⟨_ | _, n, k, _⟩ <;>
    dsimp only [UnpackedFloat.le, UnpackedFloat.compare, rank] <;>
    simp [Prod.Lex.le_iff, isLE_then_compare, isGE_then_compare] <;> rfl

theorem float_le_iff (a b : Float) :
    Scalar.le a b = true ↔ ∃ x ∈ rank a.toModel.unpack, ∃ y ∈ rank b.toModel.unpack, x ≤ y := by
  rw [← unpacked_le_iff]
  change decide (a ≤ b) = true ↔ _
  rw [decide_eq_true_iff]
  change decide (a.toModel ≤ b.toModel) = true ↔ _
  rw [decide_eq_true_iff]
  rfl

instance : OrderedScalar Float where
  le_trans a b c hab hbc := by
    obtain ⟨x, hx, y, hy, hxy⟩ := (float_le_iff a b).mp hab
    obtain ⟨y', hy', z, hz, hyz⟩ := (float_le_iff b c).mp hbc
    obtain rfl : y = y' := Option.mem_unique hy hy'
    exact (float_le_iff a c).mpr ⟨x, hx, z, hz, hxy.trans hyz⟩
  le_total a b ha hb := by
    obtain ⟨x, hx, -⟩ := (float_le_iff a a).mp ha
    obtain ⟨y, hy, -⟩ := (float_le_iff b b).mp hb
    rcases le_total x y with h | h
    · exact .inl ((float_le_iff a b).mpr ⟨x, hx, y, hy, h⟩)
    · exact .inr ((float_le_iff b a).mpr ⟨y, hy, x, hx, h⟩)
  isNumber_of_le a b h := by
    obtain ⟨x, hx, y, hy, -⟩ := (float_le_iff a b).mp h
    exact ⟨(float_le_iff a a).mpr ⟨x, hx, x, hx, le_refl x⟩,
      (float_le_iff b b).mpr ⟨y, hy, y, hy, le_refl y⟩⟩
  zero_le_one := by decide

end Doubles

namespace Scalar

variable {α : Type} [Scalar α]

-- Nothing is less than itself, whatever the order.
theorem lt_self (a : α) : lt a a = false := by simp [lt]

theorem le_of_lt {a b : α} (h : lt a b = true) : le a b = true := by
  rw [lt, Bool.and_eq_true] at h
  exact h.1

variable [OrderedScalar α]

theorem le_of_not_lt {a b : α} (ha : isNumber a) (hb : isNumber b) (h : lt a b = false) :
    le b a = true := by
  rcases OrderedScalar.le_total a b ha hb with hab | hba
  · simpa [lt, hab] using h
  · exact hba

theorem isNumber_zero : isNumber (zero : α) = true :=
  (OrderedScalar.isNumber_of_le _ _ OrderedScalar.zero_le_one).1

theorem isNumber_one : isNumber (one : α) = true :=
  (OrderedScalar.isNumber_of_le _ _ OrderedScalar.zero_le_one).2

theorem isNumber_limit {a : α} (h : isNumber a) : isNumber (limit a) = true := by
  unfold limit
  split
  · exact isNumber_zero
  · split
    · exact isNumber_one
    · exact h

theorem isNumber_clamp (a : α) : isNumber (clamp a) = true := by
  have hmaximum {a b : α} (ha : isNumber a) (hb : isNumber b) : isNumber (maximum a b) = true := by
    unfold maximum
    split
    · exact hb
    · exact ha
  unfold clamp
  split
  · rename_i ha
    unfold minimum
    split
    · exact isNumber_one
    · exact hmaximum ha isNumber_zero
  · exact isNumber_zero

theorem isNumber_ofBool (b : Bool) : isNumber (ofBool b : α) = true := by
  cases b with
  | false => exact isNumber_zero
  | true => exact isNumber_one

theorem limit_one : limit (one : α) = one := by
  have h : lt (one : α) zero = false := by simp [lt, OrderedScalar.zero_le_one]
  simp [limit, h, lt_self]

end Scalar

end Likeness.Number
