import Likeness.Number.Shortest
import Likeness.Number.Word

namespace Likeness.Number

-- How the shortest digits of a double are laid out.
structure Layout where
  -- the range of decimal exponents written without an exponent part, if there is a range
  positional : Option (Int × Int)
  -- what ends an integral value
  integral : String
  -- what a positive exponent starts with
  exponentSign : String
  notANumber : String
  infinity : String

namespace Layout

def zeros (n : Nat) : List Char := List.replicate n '0'

-- The digits with the point after the first `point` of them, where `point` may lie outside.
def placed (integral : String) (digits : List Char) (point : Int) : String :=
  if point ≤ 0 then "0." ++ String.ofList (zeros (-point).toNat ++ digits)
  else if digits.length ≤ point.toNat then
    String.ofList (digits ++ zeros (point.toNat - digits.length)) ++ integral
  else String.ofList (digits.take point.toNat) ++ "." ++ String.ofList (digits.drop point.toNat)

def scientific (exponentSign : String) (digits : List Char) (exponent : Int) : String :=
  let mantissa := match digits with
    | [] => "0"
    | [d] => d.toString
    | d :: rest => d.toString ++ "." ++ String.ofList rest
  mantissa ++ "e" ++ (if exponent < 0 then "-" else exponentSign) ++ toString exponent.natAbs

def finite (n : Layout) (bits : Nat) : String :=
  if bits = 0 then "0" ++ n.integral
  else
    let decimal := (Binary.ofBits bits).shortest.strip 17
    let digits := decimal.text
    let exponent := decimal.exponent + digits.length - 1
    let inRange := match n.positional with
      | some (low, high) => low ≤ exponent && exponent < high
      | none => true
    if inRange then placed n.integral digits (exponent + 1)
    else scientific n.exponentSign digits exponent

-- The text of a double.
def write (n : Layout) (x : Float) : String :=
  if x.isNaN then n.notANumber
  else
    let bits := x.toBits.toNat
    let sign := if signedLimit ≤ bits then "-" else ""
    if x.isInf then sign ++ n.infinity else sign ++ n.finite (bits % signedLimit)

-- Without exponents: `1`, `0.00001`, `100000000000000000000`.
def plain : Layout := ⟨none, "", "", "NaN", "inf"⟩

-- As `plain`, with `.0` after an integral value.
def pointed : Layout := ⟨none, ".0", "", "NaN", "inf"⟩

end Layout

section Places

-- The quotient rounded to the nearest natural; a half goes to the even neighbour.
def roundDiv (num den : Nat) : Nat :=
  let low := num / den
  let twice := 2 * (num % den)
  if twice < den then low else if den < twice then low + 1
  else if low % 2 = 0 then low else low + 1

-- The text of a double with a fixed number of places.
def fixedPlaces (places : Nat) (x : Float) : String :=
  if x.isNaN then "NaN"
  else
    let bits := x.toBits.toNat
    let sign := if signedLimit ≤ bits then "-" else ""
    if x.isInf then sign ++ "inf"
    else
      let b := Binary.ofBits (bits % signedLimit)
      let (num, den) := Binary.scaled b.mantissa b.exponent (-(places : Int))
      let digits := Nat.toDigits 10 (roundDiv num den)
      let padded := List.replicate (places + 1 - digits.length) '0' ++ digits
      let whole := padded.take (padded.length - places)
      let part := padded.drop (padded.length - places)
      sign ++ String.ofList whole ++ (if places = 0 then "" else "." ++ String.ofList part)

-- The natural logarithm of 1024.
def logKibi : Float := 6.931471805599453

-- A number of bytes in the unit of its magnitude, a power of 1024, with one place.
def byteText (bytes : Nat) : String :=
  if bytes < 1024 then s!"{bytes} B"
  else
    let size := bytes.toUInt64.toFloat
    let power := max 1 (Float.log size / logKibi).toUInt64.toNat
    let unit := ["Ki", "Mi", "Gi", "Ti", "Pi", "Ei"][power - 1]?.getD "Ei"
    fixedPlaces 1 (size / (1 <<< (10 * power) : Nat).toUInt64.toFloat) ++ " " ++ unit ++ "B"

end Places

end Likeness.Number
