namespace Likeness.Number

-- A positive double as `mantissa * 2 ^ exponent`. The gap to the double below is half of the gap
-- above when `halfGap` is set.
structure Binary where
  mantissa : Nat
  exponent : Int
  halfGap : Bool

def Binary.ofBits (bits : Nat) : Binary :=
  let stored : Nat := (bits >>> 52) % 2048
  let fraction := bits % (1 <<< 52)
  if stored = 0 then ⟨fraction, -1074, false⟩
  else ⟨(1 <<< 52) + fraction, Int.ofNat stored - 1075, fraction = 0 && 1 < stored⟩

-- `digits * 10 ^ exponent`.
structure Decimal where
  digits : Nat
  exponent : Int

namespace Binary

-- A quotient of naturals that equals `n * 2 ^ e / 10 ^ d`.
def scaled (n : Nat) (e d : Int) : Nat × Nat :=
  ((n <<< e.toNat) * Nat.pow 10 (-d).toNat, (1 <<< (-e).toNat) * Nat.pow 10 d.toNat)

-- The largest `d` with `10 ^ d` at most the number: a first guess from its binary logarithm is one
-- too small at most.
def magnitude (b : Binary) : Int :=
  let guess := ((b.mantissa.log2 : Int) + b.exponent) * 30103 / 100000
  let (num, den) := scaled b.mantissa b.exponent (guess + 1)
  if den ≤ num then guess + 1 else guess

-- Whether `c * 10 ^ d` lies in the interval of reals that round to the number. In units of a
-- quarter of the gap above, the interval is from `4 m - 2` (or `4 m - 1`) to `4 m + 2`, and its
-- ends belong to it for an even mantissa.
def roundsBack (b : Binary) (d : Int) (c : Nat) : Bool :=
  let lower := 4 * b.mantissa - (if b.halfGap then 1 else 2)
  let upper := 4 * b.mantissa + 2
  let (lowNum, den) := scaled lower (b.exponent - 2) d
  let (highNum, _) := scaled upper (b.exponent - 2) d
  if b.mantissa % 2 = 0 then lowNum ≤ c * den && c * den ≤ highNum
  else lowNum < c * den && c * den < highNum

-- The one of the two neighbours on the grid `10 ^ d` that reads back, the nearer one if both do,
-- the even one if they are equally near.
def onGrid (b : Binary) (d : Int) : Option Nat :=
  let (num, den) := scaled b.mantissa b.exponent d
  let low := num / den
  match roundsBack b d low, roundsBack b d (low + 1) with
  | true, true =>
    let twice := 2 * (num % den)
    some (if twice < den then low else if den < twice then low + 1
      else if low % 2 = 0 then low else low + 1)
  | true, false => some low
  | false, true => some (low + 1)
  | false, false => none

-- The first of the grids of `n + 1`, `n + 2`, ... digits with a point that reads back.
def searchGrids (b : Binary) (top : Int) : Nat → Nat → Decimal
  | 0, _ => ⟨0, 0⟩
  | more + 1, n =>
    match onGrid b (top - n) with
    | some c => ⟨c, top - n⟩
    | none => searchGrids b top more (n + 1)

-- The decimal of fewest digits that reads back to the number.
def shortest (b : Binary) : Decimal :=
  searchGrids b (magnitude b) 17 0

end Binary

-- Without zeros at the end of the digits.
def Decimal.strip (d : Decimal) : Nat → Decimal
  | 0 => d
  | fuel + 1 =>
    if d.digits ≠ 0 && d.digits % 10 = 0 then Decimal.strip ⟨d.digits / 10, d.exponent + 1⟩ fuel
    else d

def Decimal.text (d : Decimal) : List Char :=
  Nat.toDigits 10 d.digits

end Likeness.Number
