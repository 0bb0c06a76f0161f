import Likeness.Syntax.Source

namespace Likeness.Syntax

-- A place in a text. The column counts bytes, and both counts start at one.
structure Place where
  line : Nat
  column : Nat
deriving DecidableEq

namespace Place

def of (chars : Array Char) (i : Nat) : Place :=
  let before := (chars.extract 0 i).toList
  let lastLine := (before.reverse.takeWhile (· ≠ '\n')).reverse
  ⟨Source.row chars i + 1, (String.ofList lastLine).utf8ByteSize + 1⟩

end Place

namespace Fault

open Reading (signAt)

-- The words, numbers and signs of a text from `i` on, whether or not they make sense together.
def lexemes (chars : Array Char) (i : Nat) : Nat → List Span
  | 0 => []
  | fuel + 1 =>
    let i := (skipTrivia chars [] i (chars.size + 1 - i)).1
    if i < chars.size then
      let stop := match Reading.wordAt? chars i, Grammar.numberEnd? chars i, signAt chars i with
        | some stop, _, _ => stop
        | none, some stop, _ => stop
        | none, none, some text => i + text.length
        | none, none, none => i + 1
      ⟨i, stop⟩ :: lexemes chars stop fuel
    else []

def isWhole (dialect : Dialect) (chars : Array Char) : Bool :=
  match Source.read dialect chars with
  | .ok _ => true
  | .error _ => false

def withInserted (chars : Array Char) (i : Nat) (c : Char) : Array Char :=
  (chars.extract 0 i).push c ++ chars.extract i chars.size

def without (chars : Array Char) (span : Span) : Array Char :=
  chars.extract 0 span.start ++ chars.extract span.stop chars.size

-- How many lexemes on each side of the place of refusal are looked at.
def window : Nat := 24

-- Where a closing bracket is missing, if one more makes the text whole.
def missingBracket? (dialect : Dialect) (chars : Array Char) (before : List Span) : Option Nat :=
  match before.getLast? with
  | some last =>
    if [')', ']', '\x7d'].any fun c => isWhole dialect (withInserted chars last.stop c) then
      some last.stop
    else none
  | none => none

-- The start of the shortest stretch before one of the later lexemes without which the text is
-- whole.
def surplus? (dialect : Dialect) (chars : Array Char) (before : List Span) :
    List Span → Option Nat
  | [] => none
  | next :: rest =>
    match (before.reverse.take window).find? fun first =>
        isWhole dialect (without chars ⟨first.start, next.start⟩) with
    | some first => some first.start
    | none => surplus? dialect chars (before ++ [next]) rest

-- Where a text that was refused is taken to be wrong: where a bracket is missing, where a stretch
-- starts that is too much, or else where the text starts.
def place (dialect : Dialect) (chars : Array Char) : Place :=
  let all := lexemes chars 0 (chars.size + 1)
  let reach := match Source.read dialect chars with
    | .ok _ => chars.size
    | .error reach => reach
  let before := all.filter (·.start < reach)
  let after := (all.filter (reach ≤ ·.start)).take window
  let found := match missingBracket? dialect chars before with
    | some i => some i
    | none => surplus? dialect chars before after
  Place.of chars (found.getD ((all.head?.map (·.start)).getD 0))

end Fault

-- What is reported of a text that is refused.
structure Malformed where
  place : Place

def Malformed.message (e : Malformed) : String :=
  s!"Syntax error at {e.place.line}:{e.place.column}"

def malformed (dialect : Dialect) (text : String) : Malformed :=
  ⟨Fault.place dialect text.toList.toArray⟩

end Likeness.Syntax
