import Likeness.Syntax.Reading

namespace Likeness.Syntax

def isLineBlank (c : Char) : Bool := isSeparator c && c ≠ '\n'

-- The next place after blanks, line ends and comments; none before a slash that starts no comment.
def skipLines (chars : Array Char) (i : Nat) : Nat → Option Nat
  | 0 => some i
  | fuel + 1 =>
    let i := skipWhile chars isSeparator i
    if chars[i]? = some '/' then
      match commentEnd? chars i with
      | some stop => skipLines chars stop fuel
      | none => none
    else some i

-- Characters that go on with a statement at the start of a line, whatever came before.
def continues (c : Char) : Bool := "\x60,.;*%><=?^|&/:".toList.contains c

-- Whether a letter `i` is not the start of `in` or `instanceof`.
def isOtherWord (chars : Array Char) (i : Nat) : Bool :=
  let letter (k : Nat) : Bool := (chars[k]?.map Char.isAlpha).getD false
  if chars[i + 1]? ≠ some 'n' then true
  else if !letter (i + 2) then false
  else if Reading.standsAt chars "stanceof".toList (i + 2) then letter (i + 10)
  else true

-- Whether a statement ends before the character at `i`, the first on a line of its own.
def endsBefore (chars : Array Char) (afterValue beforeBlock : Bool) (i : Nat) : Bool :=
  match chars[i]? with
  | none => true
  | some c =>
    if continues c then false
    else if c = '\x7b' then !beforeBlock
    else if c = '(' || c = '[' then !afterValue
    else if c = '+' || c = '-' then chars[i + 1]? == some c
    else if c = '!' then chars[i + 1]? != some '='
    else if c = 'i' then isOtherWord chars i
    else true

-- Where a statement that stops at `i` ends without a semicolon: before the end of the text or of a
-- block, or before a line that does not go on with it. Comments up to there belong to it.
-- `afterValue` says that a value has just been completed, `beforeBlock` that a block may follow.
def openEnd? (chars : Array Char) (afterValue beforeBlock : Bool) (i : Nat) : Nat → Option Nat
  | 0 => none
  | fuel + 1 =>
    let k := skipWhile chars isLineBlank i
    match chars[k]? with
    | none => some i
    | some c =>
      if c = '\x7d' then
        if chars[skipWhile chars isSeparator (k + 1)]? = some ':' && !afterValue then none
        else some i
      else if c = '\n' then
        match skipLines chars k (chars.size + 1 - k) with
        | some next => if endsBefore chars afterValue beforeBlock next then some i else none
        | none => none
      else
        match commentEnd? chars k with
        | some stop => openEnd? chars afterValue beforeBlock stop fuel
        | none => none

namespace Reading

def openEndHere (afterValue beforeBlock : Bool) : Reading (Option Nat) := fun c s =>
  .done (openEnd? c.chars afterValue beforeBlock s.last (c.chars.size + 1 - s.last)) s

-- Whether the current statement is over here by the rules for ends without a semicolon.
def statementOver (afterValue : Bool) : Reading Bool := do
  if (← context).openEnd then
    return (← openEndHere afterValue false).isSome
  else return false

-- The end of a statement without a semicolon: a token without text.
def openEnd (afterValue beforeBlock : Bool) : Reading Unit := do
  match ← openEndHere afterValue beforeBlock with
  | some place =>
    change fun s => { s with last := place, out := .token "" none ⟨place, place⟩ :: s.out }
  | none => refuse

-- The end of a statement.
def semicolon (afterValue : Bool) : Reading Unit :=
  sign ";" none <|> openEnd afterValue false

end Reading

end Likeness.Syntax
