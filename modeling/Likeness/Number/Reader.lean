import Likeness.Number.Word

namespace Likeness.Number

-- `digits * 10 ^ exponent` as the nearest double. Exponents past the range of doubles are cut off
-- first, so that no power of ten is computed for them.
def ofDecimal (negative : Bool) (digits : Nat) (count : Nat) (exponent : Int) : Float :=
  let size : Int := count + exponent
  let magnitude : Float :=
    if digits = 0 then 0
    else if 400 < size then (1 : Float) / 0
    else if size < -400 then 0
    else if exponent < 0 then Float.ofScientific digits true (-exponent).toNat
    else Float.ofScientific digits false exponent.toNat
  if negative then -magnitude else magnitude

def digitsValue (cs : List Char) : Nat :=
  cs.foldl (fun n c => n * 10 + (c.toNat - 48)) 0

-- An optional sign, and what follows it.
def splitSign : List Char → Bool × List Char
  | '-' :: rest => (true, rest)
  | '+' :: rest => (false, rest)
  | cs => (false, cs)

-- The exponent part: nothing, or `e`, a sign and digits up to the end.
def readExponent : List Char → Option Int
  | [] => some 0
  | e :: rest =>
    if e = 'e' || e = 'E' then
      let (negative, digits) := splitSign rest
      if digits.isEmpty || !digits.all Char.isDigit then none
      else
        let n : Int := digitsValue digits
        some (if negative then -n else n)
    else none

-- A decimal number: digits with at most one point, of which there is at least one digit, and an
-- optional exponent. Nothing else may stand before or after.
def readDouble (cs : List Char) : Option Float :=
  let (negative, body) := splitSign cs
  let word := String.ofList (body.map Char.toLower)
  let special (x : Float) := some (if negative then -x else x)
  if word == "inf" || word == "infinity" then special (1 / 0)
  else if word == "nan" then special (0 / 0)
  else
    let whole := body.takeWhile Char.isDigit
    let afterWhole := body.dropWhile Char.isDigit
    let (part, tail) := match afterWhole with
      | '.' :: rest => (rest.takeWhile Char.isDigit, rest.dropWhile Char.isDigit)
      | _ => ([], afterWhole)
    if whole.isEmpty && part.isEmpty then none
    else
      match readExponent tail with
      | none => none
      | some e =>
        let digits := whole ++ part
        let significant := digits.dropWhile (· == '0')
        some (ofDecimal negative (digitsValue digits) significant.length (e - part.length))

-- The number that some digits write, unless there are none or something else is among them.
def readDigits (cs : List Char) : Option Nat :=
  if cs.isEmpty || !cs.all Char.isDigit then none else some (digitsValue cs)

-- A whole number of at most 64 bits. A plus may stand before it.
def readNat64 (cs : List Char) : Option Nat :=
  let digits := match cs with
    | '+' :: rest => rest
    | cs => cs
  (readDigits digits).filter (· < wordLimit)

-- A whole number of at most 64 bits, one of them for the sign.
def readInt64 (cs : List Char) : Option Int :=
  match cs with
  | '-' :: digits => ((readDigits digits).filter (· ≤ signedLimit)).map fun n => -(n : Int)
  | cs => ((readNat64 cs).filter (· < signedLimit)).map fun n => (n : Int)

end Likeness.Number
