import Likeness.Syntax.Ending

namespace Likeness.Syntax.Grammar

open Reading

-- The rules that refer to themselves, directly or through others.
inductive Rule where
  -- an expression whose operators bind at least as tightly as the level
  | expression (level : Nat)
  -- an expression or several with commas between them
  | expressions
  | typeExpression
  | primaryType
  | typeArguments
  | typeParameters
  | objectType
  | pattern
  | formalParameters
  | callSignature
  -- a block; `afterValue` when it completes a value
  | block (afterValue : Bool)
  | statement
  | declaration
  | classBody
  | markup
  | templateString

-- What the rules read. Each rule is written for any such table and is part of one.
abbrev Rules := Rule → Reading Unit

-- The end of the escape that starts with the backslash at `i`.
def escapeEnd? (chars : Array Char) (i : Nat) : Option Nat :=
  let hex (k : Nat) : Bool := (chars[k]?.map isHexDigit).getD false
  let octal (c : Char) : Bool := '0' ≤ c && c ≤ '7'
  match chars[i + 1]? with
  | none => none
  | some c =>
    if c = 'x' then if hex (i + 2) && hex (i + 3) then some (i + 4) else none
    else if c = 'u' then
      if chars[i + 2]? = some '\x7b' then
        let stop := skipWhile chars isHexDigit (i + 3)
        if i + 3 < stop && chars[stop]? = some '\x7d' then some (stop + 1) else none
      else if (List.range 4).all (fun k => hex (i + 2 + k)) then some (i + 6) else none
    else if octal c then some (min (i + 4) (skipWhile chars octal (i + 1)))
    else if c = '\r' && chars[i + 2]? = some '\n' then some (i + 3)
    else some (i + 2)

-- One stretch of text between the quotes of a string, or one escape.
def stringPart (quote : Char) : Reading Unit := do
  let c ← context
  let s ← state
  let stop := skipWhile c.chars (fun d => d ≠ quote && d ≠ '\\' && d ≠ '\n' && d ≠ '\r') s.pos
  if s.pos < stop then take stop (.node .stringFragment none · [])
  else if c.chars[s.pos]? = some '\\' then
    match escapeEnd? c.chars s.pos with
    | some stop => take stop (.node .escapeSequence none · [])
    | none => refuse
  else refuse

def quoted (quote : String) (part : Reading Unit) : Reading Unit := do
  rawToken quote none
  many part
  rawToken quote none

-- A string in either kind of quotes, on one line.
def string (role : Option Role) : Reading Unit := do
  node .string role (quoted "\"" (stringPart '"') <|> quoted "'" (stringPart '\x27'))
  settle

-- The end of digits of one sort, which may have single underscores between them.
def digitsEnd (chars : Array Char) (digit : Char → Bool) (i : Nat) : Nat → Nat
  | 0 => i
  | fuel + 1 =>
    let stop := skipWhile chars digit i
    if i < stop && chars[stop]? = some '_' && (chars[stop + 1]?.map digit).getD false then
      digitsEnd chars digit (stop + 1) fuel
    else stop

-- The end of an exponent at `i`, or `i` where there is none.
def exponentEnd (chars : Array Char) (i : Nat) : Nat :=
  if chars[i]? = some 'e' || chars[i]? = some 'E' then
    let j := if chars[i + 1]? = some '+' || chars[i + 1]? = some '-' then i + 2 else i + 1
    let stop := digitsEnd chars Char.isDigit j (chars.size + 1 - j)
    if j < stop then stop else i
  else i

-- The end of the number at `i`, if there is one.
def numberEnd? (chars : Array Char) (i : Nat) : Option Nat :=
  let run (digit : Char → Bool) (k : Nat) : Nat := digitsEnd chars digit k (chars.size + 1 - k)
  let big (k : Nat) : Nat := if chars[k]? = some 'n' then k + 1 else k
  let based (digit : Char → Bool) : Option Nat :=
    let stop := run digit (i + 2)
    if i + 2 < stop then some (big stop) else some (i + 1)
  match chars[i]? with
  | none => none
  | some c =>
    if c = '0' && (chars[i + 1]? = some 'x' || chars[i + 1]? = some 'X') then based isHexDigit
    else if c = '0' && (chars[i + 1]? = some 'o' || chars[i + 1]? = some 'O') then
      based (fun d => '0' ≤ d && d ≤ '7')
    else if c = '0' && (chars[i + 1]? = some 'b' || chars[i + 1]? = some 'B') then
      based (fun d => d = '0' || d = '1')
    else if c.isDigit then
      let whole := run Char.isDigit i
      if chars[whole]? = some 'n' then some (whole + 1)
      else if chars[whole]? = some '.' then some (exponentEnd chars (run Char.isDigit (whole + 1)))
      else some (exponentEnd chars whole)
    else if c = '.' then
      let stop := run Char.isDigit (i + 1)
      if i + 1 < stop then some (exponentEnd chars stop) else none
    else none

def number (role : Option Role) : Reading Unit := do
  let c ← context
  let s ← state
  match numberEnd? c.chars s.pos with
  | some stop =>
    take stop (.node .number role · [])
    settle
  | none => refuse

-- The end of a set of characters in a regular expression, of which `i` is inside.
def classEnd? (chars : Array Char) (i : Nat) : Nat → Option Nat
  | 0 => none
  | fuel + 1 =>
    match chars[i]? with
    | none => none
    | some c =>
      if c = '\n' then none
      else if c = ']' then some (i + 1)
      else if c = '\\' then if chars[i + 1]? = some '\n' then none else classEnd? chars (i + 2) fuel
      else classEnd? chars (i + 1) fuel

-- The place of the slash that ends a regular expression.
def regexEnd? (chars : Array Char) (i : Nat) : Nat → Option Nat
  | 0 => none
  | fuel + 1 =>
    match chars[i]? with
    | none => none
    | some c =>
      if c = '\n' then none
      else if c = '/' then some i
      else if c = '\\' then if chars[i + 1]? = some '\n' then none else regexEnd? chars (i + 2) fuel
      else if c = '[' then
        match classEnd? chars (i + 1) (chars.size - i) with
        | some stop => regexEnd? chars stop fuel
        | none => none
      else regexEnd? chars (i + 1) fuel

def regex : Reading Unit := do
  node .regex none do
    rawToken "/" none
    let c ← context
    let s ← state
    match regexEnd? c.chars s.pos (c.chars.size + 1 - s.pos) with
    | some stop =>
      if s.pos < stop then take stop (.node .regexPattern (some .pattern) · []) else refuse
    | none => refuse
    rawToken "/" none
    let s ← state
    let stop := skipWhile c.chars (fun d => 'a' ≤ d && d ≤ 'z') s.pos
    if s.pos < stop then take stop (.node .regexFlags none · []) else pure ()
  settle

-- The end of plain text in a template, from `i` on.
def templateTextEnd (chars : Array Char) (i : Nat) : Nat → Nat
  | 0 => i
  | fuel + 1 =>
    let stop := skipWhile chars (fun d => d ≠ '\x60' && d ≠ '\\' && d ≠ '$') i
    if chars[stop]? = some '$' && chars[stop + 1]? ≠ some '\x7b' then
      templateTextEnd chars (stop + 1) fuel
    else stop

-- Text of a template, an escape in it, or what `inner` reads between dollar braces.
def templatePart (substitution : Kind) (inner : Reading Unit) : Reading Unit := do
  let c ← context
  let s ← state
  let stop := templateTextEnd c.chars s.pos (c.chars.size + 1 - s.pos)
  if s.pos < stop then take stop (.node .stringFragment none · [])
  else if c.chars[s.pos]? = some '\\' then
    match escapeEnd? c.chars s.pos with
    | some stop => take stop (.node .escapeSequence none · [])
    | none => refuse
  else
    node substitution none do
      rawToken "$\x7b" none
      settle
      bracketed inner
      rawToken "\x7d" none

def templateString (g : Rules) : Reading Unit := do
  node .templateString none (quoted "\x60" (templatePart .templateSubstitution (g .expressions)))
  settle

end Likeness.Syntax.Grammar
