import Likeness.Json.Value
import Likeness.Number.Layout

namespace Likeness.Json

open Likeness.Number (Layout)

-- Doubles stand without an exponent from 10^-5 up to 10^16; what is no number is written as null.
def doubleLayout : Layout := ⟨some (-5, 16), ".0", "+", "null", "null"⟩

def writeDouble (x : Float) : String :=
  if x.isFinite then doubleLayout.write x else "null"

def Number.text : Number → String
  | .int n => toString n
  | .double x => writeDouble x

def hexDigit (n : Nat) : Char :=
  Char.ofNat (if n < 10 then 48 + n else 87 + n)

-- Quotes, backslashes and the characters below the blank are escaped, all others stand as they are.
def escapeChar (c : Char) : List Char :=
  if c = '"' then ['\\', '"']
  else if c = '\\' then ['\\', '\\']
  else if c = '\n' then ['\\', 'n']
  else if c = '\r' then ['\\', 'r']
  else if c = '\t' then ['\\', 't']
  else if c.toNat = 8 then ['\\', 'b']
  else if c.toNat = 12 then ['\\', 'f']
  else if c.toNat < 32 then
    ['\\', 'u', '0', '0', hexDigit (c.toNat / 16), hexDigit (c.toNat % 16)]
  else [c]

def quote (s : String) : String :=
  String.ofList ('"' :: s.toList.flatMap escapeChar ++ ['"'])

mutual

-- The canonical text: no blanks, the fields in their order.
def Value.text : Value → String
  | .null => "null"
  | .bool b => if b then "true" else "false"
  | .number n => n.text
  | .string s => quote s
  | .array items => "[" ++ String.intercalate "," (itemTexts items) ++ "]"
  | .object fields => "\x7b" ++ String.intercalate "," (fieldTexts fields) ++ "\x7d"

def itemTexts : List Value → List String
  | [] => []
  | v :: rest => v.text :: itemTexts rest

def fieldTexts : List (String × Value) → List String
  | [] => []
  | (k, v) :: rest => (quote k ++ ":" ++ v.text) :: fieldTexts rest

end

-- The lines of a bracketed list: each entry indented, a comma after all but the last.
def bracketed (opening closing indent : String) (entries : List String) : String :=
  if entries.isEmpty then opening ++ closing
  else
    opening ++ "\n" ++ String.intercalate ",\n" (entries.map (indent ++ "  " ++ ·)) ++ "\n"
      ++ indent ++ closing

mutual

-- One entry a line, two blanks for each level.
def Value.prettyAt (indent : String) : Value → String
  | .array items => bracketed "[" "]" indent (itemLines indent items)
  | .object fields => bracketed "\x7b" "\x7d" indent (fieldLines indent fields)
  | v => v.text

def itemLines (indent : String) : List Value → List String
  | [] => []
  | v :: rest => v.prettyAt (indent ++ "  ") :: itemLines indent rest

def fieldLines (indent : String) : List (String × Value) → List String
  | [] => []
  | (k, v) :: rest =>
    (quote k ++ ": " ++ v.prettyAt (indent ++ "  ")) :: fieldLines indent rest

end

def Value.pretty (v : Value) : String := v.prettyAt ""

end Likeness.Json
