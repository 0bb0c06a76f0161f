import Likeness.Number.Word

namespace Likeness.Number

-- The arithmetic that scores are computed in. The program computes with doubles; statements about
-- scores read the same definitions over exact numbers.
class Scalar (α : Type) extends Add α, Sub α, Mul α, Div α where
  ofNat : Nat → α
  -- the value of a finite double
  ofDouble : Float → α
  abs : α → α
  le : α → α → Bool
  isFinite : α → Bool
  -- the nearest whole number, a half away from zero
  round : α → α
  -- an order in which every two values are comparable, whatever they stand for
  totalLe : α → α → Bool

namespace Scalar

variable {α : Type} [Scalar α]

def zero : α := ofNat 0

def one : α := ofNat 1

def tenths (n : Nat) : α := ofNat n / ofNat 10

-- Equality as the order sees it: false for operands that are not comparable.
def same (a b : α) : Bool := le a b && le b a

def lt (a b : α) : Bool := le a b && !le b a

-- False only for the results of arithmetic that stand for no number.
def isNumber (a : α) : Bool := le a a

def maximum (a b : α) : α := if lt a b then b else a

def minimum (a b : α) : α := if lt b a then b else a

def ofBool (b : Bool) : α := if b then one else zero

-- Left to right, as floating point sums depend on the order.
def sum (xs : List α) : α := xs.foldl (· + ·) zero

-- The nearest point of [0, 1]. What is no number stays as it is.
def limit (a : α) : α := if lt a zero then zero else if lt one a then one else a

-- The nearest point of [0, 1]; what is no number counts as 0.
def clamp (a : α) : α :=
  if isNumber a then minimum (maximum a zero) one else zero

end Scalar

-- Doubles in ascending order as signed words: the sign turns the order of the rest around.
def doubleKey (x : Float) : Int :=
  let bits := x.toBits.toNat
  if bits < signedLimit then bits else (signedLimit : Int) - 1 - bits

-- From here on every double is a whole number.
def wholeFrom : Float := 4503599627370496

-- The nearest whole number, a half away from zero. The sign is kept where the number is zero.
def nearestWhole (x : Float) : Float :=
  let size := x.abs
  if size < wholeFrom then
    let below := size.toUInt64.toFloat
    let nearest := if size - below < 0.5 then below else below + 1
    if x.toBits.toNat < signedLimit then nearest else -nearest
  else x

-- A count fits in a word; what is larger counts as the largest word.
instance : Scalar Float where
  ofNat n := (UInt64.ofNatClamp n).toFloat
  ofDouble x := x
  abs := Float.abs
  le a b := a ≤ b
  isFinite := Float.isFinite
  round := nearestWhole
  totalLe a b := decide (doubleKey a ≤ doubleKey b)

end Likeness.Number
