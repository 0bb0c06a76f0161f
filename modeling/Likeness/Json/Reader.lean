import Likeness.Json.Value
import Likeness.Number.Word

namespace Likeness.Json

inductive Cause where
  | endInList
  | endInObject
  | endInString
  | endInValue
  | expectedColon
  | expectedListEnd
  | expectedObjectEnd
  | expectedWord
  | expectedValue
  | badEscape
  | badNumber
  | numberTooLarge
  | controlCharacter
  | keyNotString
  | loneSurrogate
  | unpairedEscape
  | trailingComma
  | trailingText
  | tooDeep

def Cause.message : Cause → String
  | .endInList => "EOF while parsing a list"
  | .endInObject => "EOF while parsing an object"
  | .endInString => "EOF while parsing a string"
  | .endInValue => "EOF while parsing a value"
  | .expectedColon => "expected \x60:\x60"
  | .expectedListEnd => "expected \x60,\x60 or \x60]\x60"
  | .expectedObjectEnd => "expected \x60,\x60 or \x60\x7d\x60"
  | .expectedWord => "expected ident"
  | .expectedValue => "expected value"
  | .badEscape => "invalid escape"
  | .badNumber => "invalid number"
  | .numberTooLarge => "number out of range"
  | .controlCharacter => "control character (\\u0000-\\u001F) found while parsing a string"
  | .keyNotString => "key must be a string"
  | .loneSurrogate => "lone leading surrogate in hex escape"
  | .unpairedEscape => "unexpected end of hex escape"
  | .trailingComma => "trailing comma"
  | .trailingText => "trailing characters"
  | .tooDeep => "recursion limit exceeded"

-- What is wrong, how many characters were still unread, and whether the fault is the next of them
-- instead of the one before.
structure Fault where
  cause : Cause
  unread : Nat
  ahead : Bool

abbrev Step (α : Type) := Except Fault (α × List Char)

def behind {α : Type} (cause : Cause) (rest : List Char) : Except Fault α :=
  .error ⟨cause, rest.length, false⟩

def ahead {α : Type} (cause : Cause) (rest : List Char) : Except Fault α :=
  .error ⟨cause, rest.length, true⟩

def isSpace (c : Char) : Bool := c = ' ' || c = '\n' || c = '\t' || c = '\r'

def skipSpace (cs : List Char) : List Char := cs.dropWhile isSpace

-- The rest after a given word, of which the first letter has been seen.
def expectWord {α : Type} (value : α) : List Char → List Char → Step α
  | [], rest => .ok (value, rest)
  | _ :: _, [] => behind .endInValue []
  | w :: word, c :: rest => if w = c then expectWord value word rest else behind .expectedWord rest

-- A significand times a power of ten: the nearest double of the significand, then one
-- multiplication or division by a power that is a double itself. Steps of 308 bring a small
-- exponent into range.
def scaleDouble (significand : Nat) (exponent : Int) : Option Float :=
  let start := significand.toUInt64.toFloat
  let rec shrink (f : Float) (e : Int) : Nat → Option Float
    | 0 => some f
    | fuel + 1 =>
      if e.natAbs ≤ 308 then
        if 0 ≤ e then
          let g := f * Float.ofScientific 1 false e.natAbs
          if g.isInf then none else some g
        else some (f / Float.ofScientific 1 false e.natAbs)
      else if f == 0 then some f
      else if 0 ≤ e then none
      else shrink (f / Float.ofScientific 1 false 308) (e + 308) fuel
  if exponent < -4000 then some 0 else shrink start exponent 20

def finishDouble (negative : Bool) (significand : Nat) (exponent : Int) (rest : List Char) :
    Step Number :=
  match scaleDouble significand exponent with
  | none => behind .numberTooLarge rest
  | some f => .ok (.double (if negative then -f else f), rest)

def exponentLimit : Nat := 1 <<< 31

-- The digits of an exponent after its first one.
def readExponentDigits (negative negativeExponent : Bool) (significand : Nat) (start : Int)
    (value : Nat) : List Char → Step Number
  | c :: rest =>
    if c.isDigit then
      let next := value * 10 + (c.toNat - 48)
      if exponentLimit ≤ next then
        if significand ≠ 0 && !negativeExponent then behind .numberTooLarge rest
        else .ok (.double (if negative then -0.0 else 0.0), rest.dropWhile Char.isDigit)
      else readExponentDigits negative negativeExponent significand start next rest
    else
      finishDouble negative significand (if negativeExponent then start - value else start + value)
        (c :: rest)
  | [] =>
    finishDouble negative significand (if negativeExponent then start - value else start + value) []

-- What follows the `e` of a number.
def readExponent (negative : Bool) (significand : Nat) (start : Int) (rest : List Char) :
    Step Number :=
  let (negativeExponent, rest) := match rest with
    | '+' :: rest => (false, rest)
    | '-' :: rest => (true, rest)
    | rest => (false, rest)
  match rest with
  | [] => behind .endInValue []
  | c :: rest =>
    if c.isDigit then
      readExponentDigits negative negativeExponent significand start (c.toNat - 48) rest
    else behind .badNumber rest

def isExponentMark (c : Char) : Bool := c = 'e' || c = 'E'

def afterDigits (negative : Bool) (significand : Nat) (exponent : Int) (rest : List Char) :
    Step Number :=
  match rest with
  | [] => finishDouble negative significand exponent []
  | c :: tail =>
    if isExponentMark c then readExponent negative significand exponent tail
    else finishDouble negative significand exponent rest

-- The digits after the point. Those that no longer fit into a word are passed over.
def readFraction (negative : Bool) (significand : Nat) (exponent : Int) (any : Bool) :
    List Char → Step Number
  | c :: rest =>
    if c.isDigit then
      let next := significand * 10 + (c.toNat - 48)
      if Number.wordLimit ≤ next then
        afterDigits negative significand exponent ((c :: rest).dropWhile Char.isDigit)
      else readFraction negative next (exponent - 1) true rest
    else if any then afterDigits negative significand exponent (c :: rest)
    else ahead .badNumber (c :: rest)
  | [] => if any then afterDigits negative significand exponent [] else ahead .endInValue []

-- The digits of an integer after those that fit into a word.
def readLongInteger (negative : Bool) (significand : Nat) (exponent : Int) :
    List Char → Step Number
  | '.' :: rest => readFraction negative significand exponent false rest
  | c :: rest =>
    if c.isDigit then readLongInteger negative significand (exponent + 1) rest
    else afterDigits negative significand exponent (c :: rest)
  | [] => afterDigits negative significand exponent []

-- The end of a number without further integer digits. Minus zero and what is below the signed
-- words are doubles.
def afterInteger (negative : Bool) (significand : Nat) : List Char → Step Number
  | '.' :: rest => readFraction negative significand 0 false rest
  | rest =>
    match rest with
    | c :: tail =>
      if isExponentMark c then readExponent negative significand 0 tail
      else .ok (plain, rest)
    | [] => .ok (plain, [])
where
  plain : Number :=
    if !negative then .int significand
    else if significand = 0 || Number.signedLimit < significand then
      .double (-(significand.toUInt64.toFloat))
    else .int (-significand)

def readIntegerDigits (negative : Bool) (significand : Nat) : List Char → Step Number
  | c :: rest =>
    if c.isDigit then
      let next := significand * 10 + (c.toNat - 48)
      if Number.wordLimit ≤ next then readLongInteger negative significand 0 (c :: rest)
      else readIntegerDigits negative next rest
    else afterInteger negative significand (c :: rest)
  | [] => afterInteger negative significand []

-- A number after its minus sign, if it has one.
def readNumber (negative : Bool) : List Char → Step Number
  | [] => behind .endInValue []
  | '0' :: rest =>
    match rest with
    | c :: _ => if c.isDigit then ahead .badNumber rest else afterInteger negative 0 rest
    | [] => afterInteger negative 0 []
  | c :: rest =>
    if c.isDigit then readIntegerDigits negative (c.toNat - 48) rest else behind .badNumber rest

def hexValue? (c : Char) : Option Nat :=
  if c.isDigit then some (c.toNat - 48)
  else if 'a' ≤ c && c ≤ 'f' then some (c.toNat - 87)
  else if 'A' ≤ c && c ≤ 'F' then some (c.toNat - 55)
  else none

-- Four hexadecimal digits.
def readHex : List Char → Step Nat
  | a :: b :: c :: d :: rest =>
    match hexValue? a, hexValue? b, hexValue? c, hexValue? d with
    | some a, some b, some c, some d => .ok (((a * 16 + b) * 16 + c) * 16 + d, rest)
    | _, _, _, _ => behind .badEscape rest
  | _ => behind .endInString []

-- What follows `\u`. Characters outside the basic plane are written as two escapes.
def readUnicode (rest : List Char) : Except Fault (Char × List Char) := do
  let (n, rest) ← readHex rest
  if 0xDC00 ≤ n && n ≤ 0xDFFF then behind .loneSurrogate rest
  else if n < 0xD800 || 0xDBFF < n then return (Char.ofNat n, rest)
  else
    match rest with
    | [] => behind .endInString []
    | '\\' :: rest =>
      match rest with
      | [] => behind .endInString []
      | 'u' :: rest => do
        let (low, rest) ← readHex rest
        if low < 0xDC00 || 0xDFFF < low then behind .loneSurrogate rest
        else return (Char.ofNat (0x10000 + (n - 0xD800) * 0x400 + (low - 0xDC00)), rest)
      | _ :: rest => behind .unpairedEscape rest
    | _ :: rest => behind .unpairedEscape rest

-- What follows a backslash.
def readEscape : List Char → Step Char
  | [] => behind .endInString []
  | c :: rest =>
    if c = '"' || c = '\\' || c = '/' then .ok (c, rest)
    else if c = 'b' then .ok (Char.ofNat 8, rest)
    else if c = 'f' then .ok (Char.ofNat 12, rest)
    else if c = 'n' then .ok ('\n', rest)
    else if c = 'r' then .ok ('\r', rest)
    else if c = 't' then .ok ('\t', rest)
    else if c = 'u' then readUnicode rest
    else behind .badEscape rest

-- The characters of a string up to its closing quote. Every step takes at least one character.
def readString (read : List Char) (fuel : Nat) (rest : List Char) :
    Except Fault (String × List Char) :=
  match fuel, rest with
  | 0, _ => behind .endInString rest
  | _, [] => behind .endInString []
  | _ + 1, '"' :: rest => .ok (String.ofList read.reverse, rest)
  | fuel + 1, '\\' :: rest => do
    let (c, rest) ← readEscape rest
    readString (c :: read) fuel rest
  | fuel + 1, c :: rest =>
    if c.toNat < 32 then behind .controlCharacter rest else readString (c :: read) fuel rest

-- Whether there is one more item in a list; `first` before any has been read.
def hasItem (first : Bool) (rest : List Char) : Step Bool :=
  match skipSpace rest with
  | [] => ahead .endInList []
  | ']' :: rest => .ok (false, rest)
  | c :: rest =>
    if first then .ok (true, c :: rest)
    else if c = ',' then
      match skipSpace rest with
      | [] => ahead .endInValue []
      | ']' :: rest => ahead .trailingComma (']' :: rest)
      | rest => .ok (true, rest)
    else ahead .expectedListEnd (c :: rest)

def readItems (value : List Char → Step Value) (read : List Value) (fuel : Nat)
    (rest : List Char) : Except Fault (List Value × List Char) :=
  match fuel with
  | 0 => ahead .endInList rest
  | fuel + 1 => do
    let (more, rest) ← hasItem read.isEmpty rest
    if more then
      let (v, rest) ← value rest
      readItems value (v :: read) fuel rest
    else return (read.reverse, rest)

-- Whether there is one more field in an object, up to the quote of its key.
def hasField (first : Bool) (rest : List Char) : Step Bool :=
  match skipSpace rest with
  | [] => ahead .endInObject []
  | '\x7d' :: rest => .ok (false, rest)
  | c :: rest =>
    if first then
      if c = '"' then .ok (true, rest) else ahead .keyNotString (c :: rest)
    else if c = ',' then
      match skipSpace rest with
      | [] => ahead .endInValue []
      | '"' :: rest => .ok (true, rest)
      | '\x7d' :: rest => ahead .trailingComma ('\x7d' :: rest)
      | rest => ahead .keyNotString rest
    else ahead .expectedObjectEnd (c :: rest)

def expectColon (rest : List Char) : Step Unit :=
  match skipSpace rest with
  | [] => ahead .endInObject []
  | ':' :: rest => .ok ((), rest)
  | rest => ahead .expectedColon rest

-- Of two fields with one key the later stays.
def readFields (size : Nat) (value : List Char → Step Value) (first : Bool)
    (read : List (String × Value)) (fuel : Nat) (rest : List Char) : Except Fault (List (String × Value) × List Char) :=
  match fuel with
  | 0 => ahead .endInObject rest
  | fuel + 1 => do
    let (more, rest) ← hasField first rest
    if more then
      let (key, rest) ← readString [] size rest
      let ((), rest) ← expectColon rest
      let (v, rest) ← value rest
      readFields size value false (insertField key v read) fuel rest
    else return (read, rest)

-- A value with at most `depth - 1` levels of lists and objects, in a text of less than `size`
-- characters.
def readValue (size depth : Nat) (rest : List Char) : Step Value :=
  match depth with
  | 0 => ahead .tooDeep rest
  | depth + 1 =>
    match skipSpace rest with
    | [] => ahead .endInValue []
    | c :: rest =>
      if c = 'n' then expectWord .null "ull".toList rest
      else if c = 't' then expectWord (.bool true) "rue".toList rest
      else if c = 'f' then expectWord (.bool false) "alse".toList rest
      else if c = '-' then (readNumber true rest).map fun (n, rest) => (.number n, rest)
      else if c.isDigit then (readNumber false (c :: rest)).map fun (n, rest) => (.number n, rest)
      else if c = '"' then
        (readString [] size rest).map fun (s, rest) => (.string s, rest)
      else if c = '[' then
        if depth = 0 then ahead .tooDeep (c :: rest)
        else (readItems (readValue size depth) [] size rest).map
          fun (items, rest) => (.array items, rest)
      else if c = '\x7b' then
        if depth = 0 then ahead .tooDeep (c :: rest)
        else (readFields size (readValue size depth) true [] size rest).map
          fun (fields, rest) => (.object fields, rest)
      else ahead .expectedValue (c :: rest)

-- The line, counted from 1, and the number of bytes on it before the place.
def placeAfter (read : List Char) : Nat × Nat :=
  read.foldl (fun (line, column) c => if c = '\n' then (line + 1, 0) else (line, column + c.utf8Size))
    (1, 0)

def Fault.message (fault : Fault) (text : List Char) : String :=
  let read := text.take (text.length - fault.unread)
  let (line, column) := placeAfter read
  let (line, column) := match fault.ahead, text.drop (text.length - fault.unread) with
    | true, c :: _ => if c = '\n' then (line + 1, 0) else (line, column + 1)
    | _, _ => (line, column)
  fault.cause.message ++ " at line " ++ toString line ++ " column " ++ toString column

-- Lists and objects may be nested 127 deep.
def depthLimit : Nat := 128

def readDocument (text : List Char) : Except Fault Value := do
  let (v, rest) ← readValue (text.length + 1) depthLimit text
  match skipSpace rest with
  | [] => return v
  | rest => ahead .trailingText rest

-- Reads a whole text as one document.
def Value.read (text : String) : Except String Value :=
  (readDocument text.toList).mapError (·.message text.toList)

end Likeness.Json
