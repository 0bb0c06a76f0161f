import Likeness.Toml.Value

namespace Likeness.Toml

-- The characters that stand in texts and comments as they are.
def isPrintable (c : Char) : Bool := c = '\t' || (0x20 ≤ c.toNat && c.toNat ≠ 0x7F)

-- What decides how a text is quoted.
structure Quoting where
  -- the most single quotes in a row
  singles : Nat
  -- the most double quotes in a row
  doubles : Nat
  -- a character that can only be written as an escape
  hasControl : Bool
  hasBackslash : Bool
  hasBreak : Bool

-- The most occurrences of a character in a row; `run` is how many there were just before.
def longestRun (x : Char) (run : Nat) : List Char → Nat
  | [] => run
  | c :: rest => if c = x then longestRun x (run + 1) rest else max run (longestRun x 0 rest)

def isControl (c : Char) : Bool :=
  (c.toNat ≤ 0x1F && c ≠ '\t' && c ≠ '\n') || c.toNat = 0x7F

def quotingOf (cs : List Char) : Quoting :=
  ⟨longestRun '\x27' 0 cs, longestRun '"' 0 cs, cs.any isControl, cs.any (· = '\\'),
    cs.any (· = '\n')⟩

-- The four ways to quote a text.
inductive Style where
  | basic
  | literal
  | longBasic
  | longLiteral
deriving DecidableEq

-- The first way that needs no escapes; if there is none, escapes are used.
def Quoting.style (q : Quoting) : Style :=
  if !q.hasControl && !q.hasBackslash && q.doubles = 0 && !q.hasBreak then .basic
  else if !q.hasControl && q.singles = 0 && !q.hasBreak then .literal
  else if !q.hasControl && !q.hasBackslash && q.doubles ≤ 2 then .longBasic
  else if !q.hasControl && q.singles ≤ 2 then .longLiteral
  else if q.hasBreak then .longBasic
  else .basic

def hexDigit (n : Nat) : Char := Char.ofNat (if n < 10 then 48 + n else 55 + n)

-- A character inside double quotes, other than a double quote.
def escapeChar (long : Bool) (c : Char) : List Char :=
  if c.toNat = 8 then ['\\', 'b']
  else if c = '\t' then ['\\', 't']
  else if c = '\n' then if long then ['\n'] else ['\\', 'n']
  else if c.toNat = 12 then ['\\', 'f']
  else if c = '\r' then ['\\', 'r']
  else if c = '\\' then ['\\', '\\']
  else if isControl c then
    ['\\', 'u', '0', '0', hexDigit (c.toNat / 16), hexDigit (c.toNat % 16)]
  else [c]

-- A text inside double quotes. Of double quotes in a row every third one is escaped where three of
-- them would end the text, and each of them elsewhere.
def escape (long : Bool) (run : Nat) : List Char → List Char
  | [] => []
  | c :: rest =>
    if c = '"' then
      if long && run < 2 then '"' :: escape long (run + 1) rest
      else '\\' :: '"' :: escape long 0 rest
    else escapeChar long c ++ escape long 0 rest

def quoteChars (cs : List Char) : List Char :=
  let opening := if cs.any (· = '\n') then ['\n'] else []
  match (quotingOf cs).style with
  | .basic => '"' :: escape false 0 cs ++ ['"']
  | .literal => '\x27' :: cs ++ ['\x27']
  | .longBasic => ['"', '"', '"'] ++ opening ++ escape true 0 cs ++ ['"', '"', '"']
  | .longLiteral => ['\x27', '\x27', '\x27'] ++ opening ++ cs ++ ['\x27', '\x27', '\x27']

def quote (s : String) : String := String.ofList (quoteChars s.toList)

def hexValue? (c : Char) : Option Nat :=
  if '0' ≤ c && c ≤ '9' then some (c.toNat - 48)
  else if 'a' ≤ c && c ≤ 'f' then some (c.toNat - 87)
  else if 'A' ≤ c && c ≤ 'F' then some (c.toNat - 55)
  else none

-- The character with a code point in hexadecimal digits.
def charOfHex? (digits : List Char) : Option Char :=
  let code := digits.foldl (fun n c => match n, hexValue? c with
    | some n, some d => some (n * 16 + d)
    | _, _ => none) (some 0)
  match code with
  | some n => if (0xD800 ≤ n && n ≤ 0xDFFF) || 0x10FFFF < n then none else some (Char.ofNat n)
  | none => none

def simpleEscape? : Char → Option Char
  | 'b' => some '\x08'
  | 't' => some '\t'
  | 'n' => some '\n'
  | 'f' => some '\x0c'
  | 'r' => some '\r'
  | '"' => some '"'
  | '\\' => some '\\'
  | _ => none

-- The text that was read and what is left, if the text was well formed.
abbrev Reading (α : Type) := Option (α × List Char)

-- Puts a character before a text that is read.
def prepend (c : Option Char) (r : Reading (List Char)) : Reading (List Char) :=
  match c, r with
  | some c, some (cs, rest) => some (c :: cs, rest)
  | _, _ => none

-- A text on one line, up to its closing double quote.
def readBasic : List Char → Reading (List Char)
  | [] => none
  | '"' :: rest => some ([], rest)
  | '\\' :: 'u' :: a :: b :: c :: d :: rest =>
    prepend (charOfHex? [a, b, c, d]) (readBasic rest)
  | '\\' :: 'U' :: a :: b :: c :: d :: e :: f :: g :: h :: rest =>
    prepend (charOfHex? [a, b, c, d, e, f, g, h]) (readBasic rest)
  | '\\' :: c :: rest => prepend (simpleEscape? c) (readBasic rest)
  | c :: rest => if isPrintable c && c ≠ '\\' then prepend (some c) (readBasic rest) else none

-- A text on one line, up to its closing single quote.
def readLiteral : List Char → Reading (List Char)
  | [] => none
  | c :: rest =>
    if c = '\x27' then some ([], rest)
    else if isPrintable c then prepend (some c) (readLiteral rest)
    else none

-- What a long text is doing: reading, looking for the end of the line after a backslash, or
-- skipping blanks and breaks after such an end.
inductive LongState where
  | text
  | lineEnd
  | skip
deriving DecidableEq

-- A long text up to its closing quotes. Up to two more quotes before them belong to the text.
def readLongBasic (state : LongState) : List Char → Reading (List Char)
  | [] => none
  | c :: rest =>
    let blank := c = ' ' || c = '\t'
    match state, c, rest with
    | .lineEnd, '\n', rest => readLongBasic .skip rest
    | .lineEnd, '\r', '\n' :: rest => readLongBasic .skip rest
    | .lineEnd, _, rest => if blank then readLongBasic .lineEnd rest else none
    | .skip, '\n', rest => readLongBasic .skip rest
    | .skip, '\r', '\n' :: rest => readLongBasic .skip rest
    | _, '"', '"' :: '"' :: '"' :: '"' :: rest => some (['"', '"'], rest)
    | _, '"', '"' :: '"' :: '"' :: rest => some (['"'], rest)
    | _, '"', '"' :: '"' :: rest => some ([], rest)
    | _, '\r', '\n' :: rest => prepend (some '\n') (readLongBasic .text rest)
    | _, '\n', rest => prepend (some '\n') (readLongBasic .text rest)
    | _, '\\', 'u' :: a :: b :: c :: d :: rest =>
      prepend (charOfHex? [a, b, c, d]) (readLongBasic .text rest)
    | _, '\\', 'U' :: a :: b :: c :: d :: e :: f :: g :: h :: rest =>
      prepend (charOfHex? [a, b, c, d, e, f, g, h]) (readLongBasic .text rest)
    | _, '\\', '\n' :: rest => readLongBasic .skip rest
    | _, '\\', '\r' :: '\n' :: rest => readLongBasic .skip rest
    | _, '\\', ' ' :: rest => readLongBasic .lineEnd rest
    | _, '\\', '\t' :: rest => readLongBasic .lineEnd rest
    | _, '\\', c :: rest => prepend (simpleEscape? c) (readLongBasic .text rest)
    | state, c, rest =>
      if blank && state = .skip then readLongBasic .skip rest
      else if isPrintable c && c ≠ '\\' then prepend (some c) (readLongBasic .text rest)
      else none

-- A long text up to its closing single quotes.
def readLongLiteral : List Char → Reading (List Char)
  | [] => none
  | '\x27' :: '\x27' :: '\x27' :: '\x27' :: '\x27' :: rest => some (['\x27', '\x27'], rest)
  | '\x27' :: '\x27' :: '\x27' :: '\x27' :: rest => some (['\x27'], rest)
  | '\x27' :: '\x27' :: '\x27' :: rest => some ([], rest)
  | '\r' :: '\n' :: rest => prepend (some '\n') (readLongLiteral rest)
  | c :: rest =>
    if isPrintable c || c = '\n' then prepend (some c) (readLongLiteral rest) else none

-- A break right after the opening quotes of a long text does not belong to it.
def dropBreak : List Char → List Char
  | '\n' :: rest => rest
  | '\r' :: '\n' :: rest => rest
  | cs => cs

-- A text in one of the four styles.
def readQuoted (cs : List Char) : Reading String :=
  let text := match cs with
    | '"' :: '"' :: '"' :: rest => readLongBasic .text (dropBreak rest)
    | '"' :: rest => readBasic rest
    | '\x27' :: '\x27' :: '\x27' :: rest => readLongLiteral (dropBreak rest)
    | '\x27' :: rest => readLiteral rest
    | _ => none
  text.map fun (cs, rest) => (String.ofList cs, rest)

end Likeness.Toml
