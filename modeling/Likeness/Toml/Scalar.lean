import Likeness.Number.Reader
import Likeness.Toml.Quoted

namespace Likeness.Toml

-- Digits of a kind with single underscores between them, at least one digit.
def readDigits (kind : Char → Bool) : List Char → Reading (List Char)
  | [] => none
  | c :: '_' :: rest => if kind c then prepend (some c) (readDigits kind rest) else none
  | c :: rest =>
    if !kind c then none
    else if (rest.head?.map kind).getD false then prepend (some c) (readDigits kind rest)
    else some ([c], rest)

def digitsIn (base : Nat) (c : Char) : Bool :=
  match hexValue? c with
  | some d => d < base
  | none => false

def ofDigits (base : Nat) (cs : List Char) : Nat :=
  cs.foldl (fun n c => n * base + (hexValue? c).getD 0) 0

def readInBase (base : Nat) (cs : List Char) : Reading Value :=
  match readDigits (digitsIn base) cs with
  | some (digits, rest) =>
    let n : Int := ofDigits base digits
    if isInt n then some (.int n, rest) else none
  | none => none

-- The digits before the point: no zero before others.
def readWhole : List Char → Reading (List Char)
  | '0' :: rest => some (['0'], rest)
  | cs => readDigits Char.isDigit cs

-- The digits after a point, with the point.
def readFraction : List Char → Reading (List Char)
  | '.' :: rest => prepend (some '.') (readDigits Char.isDigit rest)
  | _ => none

-- An exponent with its sign.
def readExponent : List Char → Reading (List Char)
  | c :: rest =>
    if c = 'e' || c = 'E' then
      let digits := match rest with
        | '+' :: rest => prepend (some '+') (readDigits Char.isDigit rest)
        | '-' :: rest => prepend (some '-') (readDigits Char.isDigit rest)
        | rest => readDigits Char.isDigit rest
      prepend (some 'e') digits
    else none
  | [] => none

-- The decimal number of some characters. One that is too large is refused, unless it is negative.
def doubleOf (cs : List Char) (rest : List Char) : Reading Value :=
  match Number.readDouble cs with
  | some x => if x.isInf && 0 < x then none else some (.double x, rest)
  | none => none

-- A number after its sign.
def readUnsigned (negative : Bool) (cs : List Char) : Reading Value :=
  let sign := if negative then ['-'] else []
  match cs with
  | 'i' :: 'n' :: 'f' :: rest => some (.double (if negative then -1 / 0 else 1 / 0), rest)
  | 'n' :: 'a' :: 'n' :: rest => some (.double (0 / 0), rest)
  | _ =>
    match readWhole cs with
    | none => none
    | some (whole, rest) =>
      let withExponent (digits rest : List Char) : Reading Value :=
        match rest with
        | c :: _ =>
          if c = 'e' || c = 'E' then
            (readExponent rest).bind fun (exponent, rest) =>
              doubleOf (sign ++ digits ++ exponent) rest
          else doubleOf (sign ++ digits) rest
        | [] => doubleOf (sign ++ digits) rest
      match rest with
      | '.' :: _ => (readFraction rest).bind fun (part, rest) => withExponent (whole ++ part) rest
      | 'e' :: _ | 'E' :: _ => withExponent whole rest
      | _ =>
        let n : Int := ofDigits 10 whole
        let n := if negative then -n else n
        if isInt n then some (.int n, rest) else none

-- A number of a fixed count of digits, in a range.
def readFixed (count low high : Nat) (cs : List Char) : Reading (List Char) :=
  let digits := cs.take count
  let n := ofDigits 10 digits
  if digits.length = count && digits.all Char.isDigit && low ≤ n && n ≤ high then
    some (digits, cs.drop count)
  else none

def isLeap (year : Nat) : Bool := year % 4 = 0 && (year % 100 ≠ 0 || year % 400 = 0)

def daysIn (year month : Nat) : Nat :=
  if month = 2 then if isLeap year then 29 else 28
  else if [4, 6, 9, 11].contains month then 30
  else 31

-- One character among some.
def readOneOf (allowed : List Char) : List Char → Reading (List Char)
  | c :: rest => if allowed.contains c then some ([c], rest) else none
  | [] => none

-- A text read after another one.
def andThen (first : Reading (List Char)) (next : List Char → Reading (List Char)) :
    Reading (List Char) :=
  first.bind fun (a, rest) => (next rest).map fun (b, rest) => (a ++ b, rest)

-- A year, a month and a day.
def readDate (cs : List Char) : Reading (List Char) :=
  let year := ofDigits 10 (cs.take 4)
  let month := ofDigits 10 ((cs.drop 5).take 2)
  andThen (andThen (andThen (andThen (readFixed 4 0 9999 cs) (readOneOf ['-'])) (readFixed 2 1 12))
    (readOneOf ['-'])) (readFixed 2 1 (daysIn year month))

-- The digits after a point, if there is a point.
def readSecondFraction : List Char → Reading (List Char)
  | '.' :: rest =>
    let digits := rest.takeWhile Char.isDigit
    if digits.isEmpty then none else some ('.' :: digits, rest.drop digits.length)
  | rest => some ([], rest)

-- Hours, minutes and seconds.
def readTime (cs : List Char) : Reading (List Char) :=
  andThen (andThen (andThen (andThen (andThen (readFixed 2 0 23 cs) (readOneOf [':']))
    (readFixed 2 0 59)) (readOneOf [':'])) (readFixed 2 0 60)) readSecondFraction

-- The distance from universal time, if it is given.
def readOffset : List Char → Reading (List Char)
  | 'Z' :: rest | 'z' :: rest => some (['Z'], rest)
  | '+' :: rest => andThen (andThen (andThen (some (['+'], rest)) (readFixed 2 0 23))
      (readOneOf [':'])) (readFixed 2 0 59)
  | '-' :: rest => andThen (andThen (andThen (some (['-'], rest)) (readFixed 2 0 23))
      (readOneOf [':'])) (readFixed 2 0 59)
  | rest => some ([], rest)

-- What follows a date: a time, if a letter or a blank and a digit announce one.
def readTimeAfterDate : List Char → Reading (List Char)
  | 'T' :: rest | 't' :: rest =>
    andThen (andThen (some (['T'], rest)) readTime) readOffset
  | ' ' :: d :: rest =>
    if d.isDigit then andThen (andThen (some (['T'], d :: rest)) readTime) readOffset
    else some ([], ' ' :: d :: rest)
  | rest => some ([], rest)

-- A date, a time of day or both.
def readMoment (cs : List Char) : Reading Value :=
  let text := match cs[2]? with
    | some ':' => readTime cs
    | _ => andThen (readDate cs) readTimeAfterDate
  text.map fun (text, rest) => (.time (String.ofList text), rest)

-- Whether digits start a date or a time.
def startsMoment (cs : List Char) : Bool :=
  let digits := cs.takeWhile Char.isDigit
  match digits.length, cs[digits.length]? with
  | 4, some '-' => true
  | 2, some ':' => true
  | _, _ => false

-- A number, a date or a time.
def readNumber (cs : List Char) : Reading Value :=
  match cs with
  | '0' :: 'x' :: rest => readInBase 16 rest
  | '0' :: 'o' :: rest => readInBase 8 rest
  | '0' :: 'b' :: rest => readInBase 2 rest
  | '+' :: rest => readUnsigned false rest
  | '-' :: rest => readUnsigned true rest
  | _ => if startsMoment cs then readMoment cs else readUnsigned false cs

end Likeness.Toml
