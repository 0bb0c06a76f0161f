import Likeness.Number.Reader
import Likeness.Yaml.Value

namespace Likeness.Yaml

def isNullWord (s : String) : Bool := ["null", "Null", "NULL", "~"].contains s

def readBool? (s : String) : Option Bool :=
  if ["true", "True", "TRUE"].contains s then some true
  else if ["false", "False", "FALSE"].contains s then some false
  else none

def digitValue? (c : Char) : Option Nat :=
  if '0' ≤ c && c ≤ '9' then some (c.toNat - 48)
  else if 'a' ≤ c && c ≤ 'z' then some (c.toNat - 87)
  else if 'A' ≤ c && c ≤ 'Z' then some (c.toNat - 55)
  else none

-- Digits in a base, at least one.
def readDigits? (base : Nat) (cs : List Char) : Option Nat :=
  if cs.isEmpty then none
  else cs.foldl (fun n c => match n, digitValue? c with
    | some n, some d => if d < base then some (n * base + d) else none
    | _, _ => none) (some 0)

-- Leading zeros before digits make a text, not a number.
def hasLeadingZero (cs : List Char) : Bool :=
  let body := match cs with
    | '-' :: rest | '+' :: rest => rest
    | _ => cs
  match body with
  | '0' :: rest => !rest.isEmpty && rest.all Char.isDigit
  | _ => false

-- A whole number without a sign and the base its marker names.
def readMarked? (limit : Nat) (cs : List Char) : Option Nat :=
  let inRange (n : Option Nat) : Option Nat := n.filter (· ≤ limit)
  match cs with
  | '0' :: 'x' :: rest => inRange (readDigits? 16 rest)
  | '0' :: 'o' :: rest => inRange (readDigits? 8 rest)
  | '0' :: 'b' :: rest => inRange (readDigits? 2 rest)
  | _ => none

-- A whole number up to a limit; a plus may stand before it.
def readUnsigned? (limit : Nat) (cs : List Char) : Option Nat :=
  let body := match cs with
    | '+' :: rest => rest
    | _ => cs
  match readMarked? limit body with
  | some n => some n
  | none => if hasLeadingZero cs then none else (readDigits? 10 body).filter (· ≤ limit)

-- A whole number after a minus, down to a limit. Any zero is zero.
def readNegative? (limit : Nat) (cs : List Char) : Option Int :=
  let negated (n : Nat) : Int := -(n : Int)
  match cs with
  | '-' :: body =>
    match readMarked? limit body with
    | some n => some (negated n)
    | none =>
      if hasLeadingZero cs then none
      else ((readDigits? 10 body).filter (· ≤ limit)).map negated
  | _ => none

-- A whole number that does not fit into a word, and how many bits it was read with.
structure LargeInteger where
  value : Int
  isSigned : Bool

-- A whole number: words without a sign are tried before those with one.
def readInt? (s : String) : Option (Except LargeInteger Int) :=
  let cs := s.toList
  match readUnsigned? (Number.wordLimit - 1) cs with
  | some n => some (.ok n)
  | none =>
    match readNegative? Number.signedLimit cs with
    | some n => some (.ok n)
    | none =>
      match readUnsigned? ((1 <<< 128) - 1) cs with
      | some n => some (.error ⟨n, false⟩)
      | none => (readNegative? (1 <<< 127) cs).map fun n => .error ⟨n, true⟩

-- A number with a point or an exponent, or one of the words for what is no finite number. A
-- number too large for a double is none.
def readDouble? (s : String) : Option Float :=
  let cs := s.toList
  let signs := ['+', '-']
  let (plus, body) := match cs with
    | '+' :: rest => (true, rest)
    | _ => (false, cs)
  let text := String.ofList body
  if plus && (body.head?.map signs.contains).getD false then none
  else if [".inf", ".Inf", ".INF"].contains text then some (1 / 0)
  else if ["-.inf", "-.Inf", "-.INF"].contains s then some (-1 / 0)
  else if [".nan", ".NaN", ".NAN"].contains s then some (0 / 0)
  else (Number.readDouble body).filter Float.isFinite

-- The meaning of a plain scalar without a tag.
def plainValue (s : String) : Except LargeInteger Value :=
  if s = "" || isNullWord s then .ok .null
  else
    match readBool? s with
    | some b => .ok (.bool b)
    | none =>
      match readInt? s with
      | some (.ok n) => .ok (.int n)
      | some (.error large) => .error large
      | none =>
        if hasLeadingZero s.toList then .ok (.string s)
        else
          match readDouble? s with
          | some x => .ok (.double x)
          | none => .ok (.string s)

end Likeness.Yaml
