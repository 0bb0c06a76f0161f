import Likeness.Files.Path

namespace Likeness.Files

namespace Glob

-- A pattern for paths is matched against the bytes of a path.
inductive Part where
  | literal (bytes : Bytes)
  -- one byte other than a slash
  | any
  -- any number of them
  | star
  -- any directories before the rest, or none
  | leading
  -- all that is below
  | trailing
  -- a slash with any directories before it
  | between
  | oneOf (negated : Bool) (ranges : List (UInt8 × UInt8))
  | alternatives (branches : List (List Part))

-- Why a pattern is refused.
inductive Fault where
  | badRange (first last : Char)
  | noGroupStart
  | noGroupEnd
  | danglingEscape

def Fault.message : Fault → String
  | .badRange first last => s!"invalid range; '{first}' > '{last}'"
  | .noGroupStart =>
    "unopened alternate group; missing '\x7b' (maybe escape '\x7d' with '[\x7d]'?)"
  | .noGroupEnd =>
    "unclosed alternate group; missing '\x7d' (maybe escape '\x7b' with '[\x7b]'?)"
  | .danglingEscape => "dangling '\\'"

-- A pattern while it is read: the branches that are open, innermost first and each with its last
-- part first, and for each open group how many branches there were before it.
structure State where
  branches : List (List Part)
  groups : List Nat
  previous : Option Char
  -- an opening bracket without its closing one stands for itself, as do all after it
  noClasses : Bool

namespace State

def start : State := ⟨[[]], [], none, false⟩

def top (s : State) : List Part := s.branches.headD []

def push (s : State) (p : Part) : State :=
  { s with branches := (p :: s.top) :: s.branches.drop 1 }

def pushStars (s : State) : State := (s.push .star).push .star

-- Closes the innermost group.
def close (s : State) : Except Fault State :=
  match s.groups with
  | [] => .error .noGroupStart
  | before :: groups =>
    let count := s.branches.length - before
    let alternatives := ((s.branches.take count).map List.reverse).reverse
    .ok ({ s with branches := s.branches.drop count, groups }.push (.alternatives alternatives))

end State

def isSlash (c : Option Char) : Bool := c == some '/'

-- The ranges of characters in brackets, last one first, and what follows the closing bracket; none
-- if there is no closing bracket.
def readRanges (ranges : List (Char × Char)) (first inRange : Bool) :
    List Char → Except Fault (Option (List (Char × Char) × List Char))
  | [] => .ok none
  | c :: rest =>
    let extend : Except Fault (List (Char × Char)) := match ranges with
      | (low, _) :: others => if c < low then .error (.badRange low c) else .ok ((low, c) :: others)
      | [] => .ok []
    if c = ']' && !first then
      .ok (some (if inRange then ('-', '-') :: ranges else ranges, rest))
    else if c = '-' && !first && !inRange then readRanges ranges false true rest
    else if inRange then
      match extend with
      | .ok ranges => readRanges ranges false false rest
      | .error fault => .error fault
    else readRanges ((c, c) :: ranges) false false rest

-- The bytes of a range of characters. Only the last byte of the first character and the first one
-- of the last character make a range.
def rangeBytes (range : Char × Char) : List (UInt8 × UInt8) :=
  let single (b : UInt8) : UInt8 × UInt8 := (b, b)
  let low := String.utf8EncodeChar range.1
  if range.1 = range.2 then low.map single
  else
    let high := String.utf8EncodeChar range.2
    low.dropLast.map single ++ [(low.getLastD 0, high.headD 0)] ++ (high.drop 1).map single

-- A star that another one precedes: directories if slashes or the ends of the pattern are around
-- them. The rest starts after the second star.
def readStars (s : State) (rest : List Char) : State × List Char :=
  let next := rest.head?
  let inGroup := 2 ≤ s.branches.length
  if s.top.isEmpty then
    if next.isNone || isSlash next then (s.push .leading, rest.drop 1) else (s.pushStars, rest)
  else
    let startsBranch := inGroup && (s.previous = some ',' || s.previous = some '\x7b')
    if !isSlash s.previous && !startsBranch then (s.pushStars, rest)
    else
      let branchEnds := inGroup && (next = some ',' || next = some '\x7d')
      if !next.isNone && !isSlash next && !branchEnds then (s.pushStars, rest)
      else
        let isLast := next.isNone || branchEnds
        let rest := if isSlash next then rest.drop 1 else rest
        let before : State := { s with branches := s.top.drop 1 :: s.branches.drop 1 }
        match s.top with
        | .leading :: _ | .trailing :: _ => (s, rest)
        | _ => (before.push (if isLast then .trailing else .between), rest)

-- Reads a pattern up to its end.
def readParts : Nat → State → List Char → Except Fault State
  | 0, s, _ => .ok s
  | _, s, [] => .ok s
  | fuel + 1, s, c :: rest =>
    let goOn (s : State) (last : Char) (rest : List Char) : Except Fault State :=
      readParts fuel { s with previous := some last } rest
    let literal (s : State) (x : Char) : State := s.push (.literal (String.utf8EncodeChar x))
    if c = '?' then goOn (s.push .any) c rest
    else if c = '*' then
      match rest with
      | '*' :: rest =>
        let (s, after) := readStars s rest
        goOn s (if after.length < rest.length then '/' else '*') after
      | _ => goOn (s.push .star) c rest
    else if c = '[' && !s.noClasses then
      let (negated, body) := match rest with
        | '!' :: body | '^' :: body => (true, body)
        | body => (false, body)
      match readRanges [] true false body with
      | .error fault => .error fault
      | .ok none => goOn (literal { s with noClasses := true } '[') c rest
      | .ok (some (ranges, after)) =>
        goOn (s.push (.oneOf negated (ranges.reverse.flatMap rangeBytes))) ']' after
    else if c = '\x7b' then
      goOn { s with groups := s.branches.length :: s.groups, branches := [] :: s.branches } c rest
    else if c = '\x7d' then
      match s.close with
      | .ok s => goOn s c rest
      | .error fault => .error fault
    else if c = ',' && !s.groups.isEmpty then goOn { s with branches := [] :: s.branches } c rest
    else if c = '\\' then
      match rest with
      | x :: rest => goOn (literal s x) x rest
      | [] => .error .danglingEscape
    else goOn (literal s c) c rest

-- The parts of a pattern.
def parse (pattern : String) : Except Fault (List Part) :=
  match readParts (pattern.length + 1) .start pattern.toList with
  | .error fault => .error fault
  | .ok s => if 1 < s.branches.length then .error .noGroupEnd else .ok s.top.reverse

def slash : UInt8 := 47

-- Whether some end of a text passes.
def someEnd (test : Bytes → Bool) : Bytes → Bool
  | [] => test []
  | b :: rest => test (b :: rest) || someEnd test rest

-- Whether some end of a text that starts after a slash, or right at its start, passes.
def someAfterSlash (test : Bytes → Bool) : Bytes → Bool
  | [] => false
  | b :: rest => (b == slash && test rest) || someAfterSlash test rest

-- Whether the text passes after some of its bytes, up to a slash.
def someBeforeSlash (test : Bytes → Bool) : Bytes → Bool
  | [] => test []
  | b :: rest => test (b :: rest) || (b != slash && someBeforeSlash test rest)

mutual

-- Whether a pattern consists of groups without anything in them.
def isVoid : List Part → Bool
  | [] => true
  | .alternatives branches :: rest => areVoid branches && isVoid rest
  | _ :: _ => false

def areVoid : List (List Part) → Bool
  | [] => true
  | branch :: rest => isVoid branch && areVoid rest

end

mutual

-- Whether some start of a text matches the parts and the rest of it passes.
def matchParts (parts : List Part) (test : Bytes → Bool) (text : Bytes) : Bool :=
  match parts with
  | [] => test text
  | part :: rest => matchPart part (matchParts rest test) text

def matchPart (part : Part) (test : Bytes → Bool) (text : Bytes) : Bool :=
  match part with
  | .literal bytes => bytes.isPrefixOf text && test (text.drop bytes.length)
  | .any => match text with
    | b :: rest => b != slash && test rest
    | [] => false
  | .star => someBeforeSlash test text
  | .leading => test text || someAfterSlash test text
  | .trailing => match text with
    | b :: rest => b == slash && someEnd test rest
    | [] => false
  | .between => match text with
    | b :: rest => b == slash && (test rest || someAfterSlash test rest)
    | [] => false
  | .oneOf negated ranges => match text with
    | b :: rest => (ranges.any (fun (low, high) => low ≤ b && b ≤ high) != negated) && test rest
    | [] => false
  | .alternatives branches => if areVoid branches then test text else matchAny branches test text

-- Branches without anything in them are passed over.
def matchAny (branches : List (List Part)) (test : Bytes → Bool) (text : Bytes) : Bool :=
  match branches with
  | [] => false
  | branch :: rest =>
    (!isVoid branch && matchParts branch test text) || matchAny rest test text

end

-- Whether a path matches a pattern. Two stars alone match all paths.
def isMatch (parts : List Part) (path : String) : Bool :=
  match parts with
  | [.leading] => true
  | _ => matchParts parts List.isEmpty (bytesOf path)

end Glob

end Likeness.Files
