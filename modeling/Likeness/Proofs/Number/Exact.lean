import Likeness.Proofs.Number.Order
import Mathlib.Algebra.Order.BigOperators.Group.List
import Mathlib.Data.Rat.Floor
import Mathlib.Tactic.Linarith

namespace Likeness.Number

open Float.Model (UnpackedFloat)

-- What a double stands for. What is no number counts as 0.
def exactValue : UnpackedFloat → ℚ
  | .finite .positive m e _ => m * 2 ^ e
  | .finite .negative m e _ => -(m * 2 ^ e)
  | _ => 0

-- Scores without rounding.
instance : Scalar ℚ where
  ofNat n := n
  ofDouble x := exactValue x.toModel.unpack
  abs x := |x|
  le a b := decide (a ≤ b)
  isFinite _ := true
  round x := if 0 ≤ x then ⌊x + 1 / 2⌋ else -⌊1 / 2 - x⌋
  totalLe a b := decide (a ≤ b)

namespace Scalar

section Exact

variable (a b : ℚ)

@[simp] theorem exact_ofNat (n : ℕ) : (ofNat n : ℚ) = n := rfl

@[simp] theorem exact_zero : (zero : ℚ) = 0 := Nat.cast_zero

@[simp] theorem exact_one : (one : ℚ) = 1 := Nat.cast_one

@[simp] theorem exact_tenths (n : ℕ) : (tenths n : ℚ) = n / 10 := rfl

@[simp] theorem exact_le : le a b = true ↔ a ≤ b := decide_eq_true_iff

@[simp] theorem exact_same : same a b = true ↔ a = b := by
  rw [same, Bool.and_eq_true, exact_le, exact_le, le_antisymm_iff]

@[simp] theorem exact_isNumber : isNumber a = true := (exact_le a a).mpr le_rfl

@[simp] theorem exact_lt : lt a b = true ↔ a < b := by
  rw [lt, Bool.and_eq_true, Bool.not_eq_true', ← Bool.not_eq_true, exact_le, exact_le, not_le,
    and_iff_right_iff_imp]
  exact fun h => h.le

@[simp] theorem exact_maximum : maximum a b = max a b := by
  simp only [maximum, exact_lt, max_def_lt]

@[simp] theorem exact_minimum : minimum a b = min a b := by
  rw [min_comm, minimum]
  simp only [exact_lt, min_def_lt]

@[simp] theorem exact_sum (xs : List ℚ) : sum xs = xs.sum := by
  rw [sum, List.sum_eq_foldl, exact_zero]

theorem exact_clamp : clamp a = min (max a 0) 1 := by simp [clamp]

-- A score that is in range already is left as it is.
theorem exact_limit (h : a ∈ Set.Icc (0 : ℚ) 1) : limit a = a := by
  simp only [limit, exact_lt, exact_zero, exact_one, if_neg (not_lt.mpr h.1),
    if_neg (not_lt.mpr h.2)]

theorem limit_eq_clamp : limit a = clamp a := by
  rw [exact_clamp, limit]
  simp only [exact_lt, exact_zero, exact_one]
  split_ifs with hlow hhigh
  · rw [max_eq_right hlow.le, min_eq_left zero_le_one]
  · rw [min_eq_right (hhigh.le.trans (le_max_left a 0))]
  · rw [max_eq_left (not_lt.mp hlow), min_eq_left (not_lt.mp hhigh)]

end Exact

end Scalar

instance : OrderedScalar ℚ where
  le_trans a b c hab hbc := by
    rw [Scalar.exact_le] at *
    exact hab.trans hbc
  le_total a b _ _ := by
    rw [Scalar.exact_le, Scalar.exact_le]
    exact le_total a b
  isNumber_of_le a b _ := ⟨Scalar.exact_isNumber a, Scalar.exact_isNumber b⟩
  zero_le_one := by simp

-- Exact numbers, and a fault for what is divided by zero. Scores that are computed in them without
-- a fault are computed without such a division.
inductive Checked where
  | number (x : ℚ)
  | fault
deriving DecidableEq

namespace Checked

def map (f : ℚ → ℚ) : Checked → Checked
  | number x => number (f x)
  | fault => fault

def map₂ (f : ℚ → ℚ → ℚ) : Checked → Checked → Checked
  | number x, number y => number (f x y)
  | _, _ => fault

def divide : Checked → Checked → Checked
  | number x, number y => if y = 0 then fault else number (x / y)
  | _, _ => fault

-- A fault is neither lower nor higher than anything, so that no bound takes its place.
def le : Checked → Checked → Bool
  | number x, number y => Scalar.le x y
  | _, _ => true

instance : Scalar Checked where
  add := map₂ (· + ·)
  sub := map₂ (· - ·)
  mul := map₂ (· * ·)
  div := divide
  ofNat n := number n
  ofDouble x := number (Scalar.ofDouble x)
  abs := map Scalar.abs
  le := le
  isFinite _ := true
  round := map Scalar.round
  totalLe := le

section Numbers

variable (x y : ℚ)

@[simp] theorem number_add : number x + number y = number (x + y) := rfl

@[simp] theorem number_sub : number x - number y = number (x - y) := rfl

theorem number_div {y : ℚ} (hy : y ≠ 0) : number x / number y = number (x / y) := if_neg hy

@[simp] theorem ofNat_eq (n : ℕ) : (Scalar.ofNat n : Checked) = number (Scalar.ofNat n) := rfl

@[simp] theorem zero_eq : (Scalar.zero : Checked) = number Scalar.zero := rfl

@[simp] theorem one_eq : (Scalar.one : Checked) = number Scalar.one := rfl

@[simp] theorem abs_number : Scalar.abs (number x) = number (Scalar.abs x) := rfl

@[simp] theorem isFinite_number : Scalar.isFinite (number x) = Scalar.isFinite x := rfl

@[simp] theorem same_number : Scalar.same (number x) (number y) = Scalar.same x y := rfl

@[simp] theorem lt_number : Scalar.lt (number x) (number y) = Scalar.lt x y := rfl

@[simp] theorem maximum_number :
    Scalar.maximum (number x) (number y) = number (Scalar.maximum x y) :=
  (apply_ite number _ _ _).symm

@[simp] theorem minimum_number :
    Scalar.minimum (number x) (number y) = number (Scalar.minimum x y) :=
  (apply_ite number _ _ _).symm

@[simp] theorem clamp_number : Scalar.clamp (number x) = number (Scalar.clamp x) := by
  have hnumber : Scalar.isNumber (number x) = Scalar.isNumber x := rfl
  simp [Scalar.clamp, hnumber]

end Numbers

-- No bound hides a fault.
example : Scalar.clamp (Scalar.one - Scalar.one / Scalar.zero : Checked) = .fault := by decide

end Checked

end Likeness.Number
