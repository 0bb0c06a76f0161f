import Likeness.Yaml.Cursor

namespace Likeness.Yaml

-- Blanks and breaks between two pieces of a scalar: the blanks up to the first break, and what
-- the breaks stand for. `broken` holds as soon as there was a break, or an escaped one.
structure Gap where
  blanks : List Char
  breaks : List Char
  broken : Bool

namespace Gap

-- A single break becomes a blank; of more of them the first is dropped.
def fold : List Char → List Char
  | '\n' :: [] => [' ']
  | '\n' :: rest => rest
  | breaks => breaks

def text (g : Gap) : List Char := if g.broken then fold g.breaks else g.blanks

-- What an escaped break leaves of the gap after it: the breaks, as they are.
def textAfterEscape (g : Gap) : List Char := g.breaks

end Gap

-- Reads a gap. After a break no tab may stand before the given column.
def readGap (column : Nat) (start : Mark) : Nat → Gap → Cursor → Except Fault (Gap × Cursor)
  | 0, gap, c => .ok (gap, c)
  | fuel + 1, gap, c =>
    match c.rest with
    | x :: _ =>
      if isBlank x then
        if gap.broken && c.mark.column < column && x = '\t' then
          c.fault .tabBeforeIndent (some (.plainScalar, start))
        else
          let gap := if gap.broken then gap else { gap with blanks := gap.blanks ++ [x] }
          readGap column start fuel gap (c.skip 1)
      else if isBreak x then
        let (stands, c) := c.lineBreak
        readGap column start fuel ⟨[], gap.breaks ++ stands, true⟩ c
      else .ok (gap, c)
    | [] => .ok (gap, c)

def readGapFrom (column : Nat) (start : Mark) (broken : Bool) (c : Cursor) :
    Except Fault (Gap × Cursor) :=
  readGap column start (c.rest.length + 1) ⟨[], [], broken⟩ c

-- What a one-letter escape stands for.
def simpleEscape? : Char → Option Char
  | '0' => some '\x00'
  | 'a' => some '\x07'
  | 'b' => some '\x08'
  | 't' | '\t' => some '\t'
  | 'n' => some '\n'
  | 'v' => some '\x0b'
  | 'f' => some '\x0c'
  | 'r' => some '\r'
  | 'e' => some '\x1b'
  | ' ' => some ' '
  | '"' => some '"'
  | '/' => some '/'
  | '\\' => some '\\'
  | 'N' => some '\x85'
  | '_' => some '\xa0'
  | 'L' => some '\u2028'
  | 'P' => some '\u2029'
  | _ => none

-- How many digits follow a letter that announces a code point.
def escapeDigits? : Char → Option Nat
  | 'x' => some 2
  | 'u' => some 4
  | 'U' => some 8
  | _ => none

-- The value of a number of hexadecimal digits, if there are as many.
def hexNumber? (count : Nat) (cs : List Char) : Option Nat :=
  if cs.length < count then none
  else (cs.take count).foldl (fun n c => match n, hexValue? c with
    | some n, some d => some (n * 16 + d)
    | _, _ => none) (some 0)

def charOfCode? (n : Nat) : Option Char :=
  if (0xD800 ≤ n && n ≤ 0xDFFF) || 0x10FFFF < n then none else some (Char.ofNat n)

-- The escape at the cursor, which stands on its backslash.
def readEscape (start : Mark) (c : Cursor) : Except Fault (Char × Cursor) :=
  let activity := some (Activity.escape, start)
  match c.rest with
  | _ :: x :: rest =>
    match simpleEscape? x with
    | some y => .ok (y, c.skip 2)
    | none =>
      match escapeDigits? x with
      | none => c.fault .unknownEscape activity
      | some count =>
        match hexNumber? count rest with
        | none => (c.skip 2).fault .noHexDigit activity
        | some n =>
          match charOfCode? n with
          | none => (c.skip 2).fault .badCharacter activity
          | some y => .ok (y, c.skip (2 + count))
  | _ => c.fault .unknownEscape activity

-- The characters of a quoted scalar up to a gap, the closing quote or an escaped break; the last
-- is told by the flag. The text is collected last character first.
def readQuotedRun (single : Bool) (start : Mark) :
    Nat → List Char → Cursor → Except Fault (List Char × Bool × Cursor)
  | 0, acc, c => .ok (acc, false, c)
  | fuel + 1, acc, c =>
    match c.rest with
    | [] => .ok (acc, false, c)
    | x :: _ =>
      if isBlank x || isBreak x then .ok (acc, false, c)
      else if single && x = '\x27' && c.has '\x27' 1 then
        readQuotedRun single start fuel ('\x27' :: acc) (c.skip 2)
      else if x = (if single then '\x27' else '"') then .ok (acc, false, c)
      else if !single && x = '\\' then
        if (c.skip 1).atBreak then .ok (acc, true, (c.skip 1).skipBreak)
        else
          match readEscape start c with
          | .ok (y, c) => readQuotedRun single start fuel (y :: acc) c
          | .error fault => .error fault
      else readQuotedRun single start fuel (x :: acc) (c.skip 1)

-- The rest of a quoted scalar after its opening quote.
def readQuotedRest (single : Bool) (start : Mark) :
    Nat → List Char → Cursor → Except Fault (List Char × Cursor)
  | 0, acc, c => .ok (acc, c)
  | fuel + 1, acc, c =>
    let activity := some (Activity.quotedScalar, start)
    if c.atAnyDocumentMark then c.fault .documentInScalar activity
    else if c.atEnd then c.fault .endInScalar activity
    else
      match readQuotedRun single start (c.rest.length + 1) acc c with
      | .error fault => .error fault
      | .ok (acc, escaped, c) =>
        if c.has (if single then '\x27' else '"') 0 then .ok (acc, c.skip 1)
        else
          match readGapFrom 0 start escaped c with
          | .error fault => .error fault
          | .ok (gap, c) =>
            let text := if escaped then gap.textAfterEscape else gap.text
            readQuotedRest single start fuel (text.reverse ++ acc) c

-- A quoted scalar; the cursor stands on its opening quote.
def readQuoted (single : Bool) (c : Cursor) : Except Fault (String × Cursor) :=
  (readQuotedRest single c.mark (c.rest.length + 1) [] (c.skip 1)).map fun (acc, c) =>
    (String.ofList acc.reverse, c)

def isFlowIndicator (c : Char) : Bool :=
  c = ',' || c = '[' || c = ']' || c = '\x7b' || c = '\x7d'

-- The characters of a plain scalar up to a gap or an indicator that ends it, last one first.
def readPlainRun (inFlow : Bool) (start : Mark) :
    Nat → List Char → Cursor → Except Fault (List Char × Cursor)
  | 0, acc, c => .ok (acc, c)
  | fuel + 1, acc, c =>
    match c.rest with
    | [] => .ok (acc, c)
    | x :: rest =>
      let next := rest.head?
      if isBlank x || isBreak x then .ok (acc, c)
      else if inFlow && x = ':' && (next.map fun y => isFlowIndicator y || y = '?').getD false then
        c.fault .unexpectedColon (some (.plainScalar, start))
      else if x = ':' && c.atGap 1 then .ok (acc, c)
      else if inFlow && isFlowIndicator x then .ok (acc, c)
      else readPlainRun inFlow start fuel (x :: acc) (c.skip 1)

-- A plain scalar: its text, its end, and whether breaks were read after it.
structure Plain where
  text : List Char
  after : Cursor
  broken : Bool

-- The rest of a plain scalar. `gap` is what stands before the next piece, if there is one.
def readPlainRest (inFlow : Bool) (column : Nat) (start : Mark) :
    Nat → List Char → Gap → Cursor → Except Fault Plain
  | 0, acc, gap, c => .ok ⟨acc, c, gap.broken⟩
  | fuel + 1, acc, gap, c =>
    if c.atAnyDocumentMark || c.has '#' 0 then .ok ⟨acc, c, gap.broken⟩
    else
      match readPlainRun inFlow start (c.rest.length + 1) [] c with
      | .error fault => .error fault
      | .ok (run, c) =>
        let (acc, broken) := if run.isEmpty then (acc, gap.broken)
          else (run ++ gap.text.reverse ++ acc, false)
        if !(c.atBlank || c.atBreak) then .ok ⟨acc, c, broken⟩
        else
          match readGapFrom column start false c with
          | .error fault => .error fault
          | .ok (gap, c) =>
            if !inFlow && c.mark.column < column then .ok ⟨acc, c, gap.broken⟩
            else readPlainRest inFlow column start fuel acc gap c

-- A plain scalar; it ends with the first line that starts left of the given column.
def readPlain (inFlow : Bool) (column : Nat) (c : Cursor) :
    Except Fault (String × Cursor × Bool) :=
  (readPlainRest inFlow column c.mark (c.rest.length + 1) [] ⟨[], [], false⟩ c).map fun p =>
    (String.ofList p.text.reverse, p.after, p.broken)

-- What becomes of the breaks at the end of a block scalar.
inductive Chomping where
  | strip
  | clip
  | keep
deriving DecidableEq

def chomping? : Option Char → Option Chomping
  | some '+' => some .keep
  | some '-' => some .strip
  | _ => none

-- The signs after the indicator of a block scalar, in either order; zero columns are none given.
def readBlockHeader (start : Mark) (c : Cursor) : Except Fault (Chomping × Nat × Cursor) :=
  let digit (c : Cursor) : Except Fault (Nat × Cursor) :=
    match c.rest.head? with
    | some x =>
      if x = '0' then c.fault .zeroIndent (some (.blockScalar, start))
      else if x.isDigit then .ok (x.toNat - 48, c.skip 1)
      else .ok (0, c)
    | none => .ok (0, c)
  match chomping? c.rest.head? with
  | some chomping => (digit (c.skip 1)).map fun (columns, c) => (chomping, columns, c)
  | none =>
    match digit c with
    | .error fault => .error fault
    | .ok (0, c) => .ok (.clip, 0, c)
    | .ok (columns, c) =>
      match chomping? c.rest.head? with
      | some chomping => .ok (chomping, columns, c.skip 1)
      | none => .ok (.clip, columns, c)

-- Empty lines and the blanks before the first other one: what the breaks stand for, the column
-- of the widest line, and where the other line goes on. No column is given while it is unknown.
def readBlockBreaks (column : Option Nat) (start : Mark) :
    Nat → List Char → Nat → Cursor → Except Fault (List Char × Nat × Cursor)
  | 0, breaks, widest, c => .ok (breaks, widest, c)
  | fuel + 1, breaks, widest, c =>
    let blanks := c.rest.takeWhile (· = ' ')
    let count := match column with
      | none => blanks.length
      | some column => min blanks.length (column - c.mark.column)
    let c := c.skip count
    let widest := max widest c.mark.column
    let before := match column with
      | none => true
      | some column => c.mark.column < column
    if before && c.has '\t' 0 then c.fault .tabInIndent (some (.blockScalar, start))
    else if c.atBreak then
      let (stands, c) := c.lineBreak
      readBlockBreaks column start fuel (breaks ++ stands) widest c
    else .ok (breaks, widest, c)

-- The state of a block scalar between two lines: the text, last character first, the break that
-- ended the last line, the empty lines after it, and whether it started with a blank.
structure BlockText where
  text : List Char
  ending : List Char
  breaks : List Char
  indented : Bool

-- The lines of a block scalar, as long as they start in its column.
def readBlockLines (literal : Bool) (column : Nat) (start : Mark) :
    Nat → BlockText → Cursor → Except Fault (BlockText × Cursor)
  | 0, b, c => .ok (b, c)
  | fuel + 1, b, c =>
    if c.mark.column = column && !c.atEnd then
      let indented := c.atBlank
      let folded := !literal && b.ending == ['\n'] && !b.indented && !indented
      let joint := if folded then (if b.breaks.isEmpty then [' '] else b.breaks)
        else b.ending ++ b.breaks
      let (line, after) := c.span (!isBreak ·)
      let (ending, after) := after.lineBreak
      match readBlockBreaks (some column) start (after.rest.length + 1) [] 0 after with
      | .error fault => .error fault
      | .ok (breaks, _, after) =>
        readBlockLines literal column start fuel
          ⟨line.reverse ++ joint.reverse ++ b.text, ending, breaks, indented⟩ after
    else .ok (b, c)

-- A block scalar; the cursor stands on its indicator. `outer` is the column of the block around
-- it and one more.
def readBlock (literal : Bool) (outer : Nat) (c : Cursor) : Except Fault (String × Cursor) :=
  let start := c.mark
  match readBlockHeader start (c.skip 1) with
  | .error fault => .error fault
  | .ok (chomping, columns, c) =>
    let c := c.skipComment
    if !c.atLineEnd then c.fault .noLineEnd (some (.blockScalar, start))
    else
      let c := c.skipBreak
      let given := if columns = 0 then none else some (outer - 1 + columns)
      match readBlockBreaks given start (c.rest.length + 1) [] 0 c with
      | .error fault => .error fault
      | .ok (breaks, widest, c) =>
        let column := given.getD (max (max widest outer) 1)
        match readBlockLines literal column start (c.rest.length + 1) ⟨[], [], breaks, false⟩ c with
        | .error fault => .error fault
        | .ok (b, c) =>
          let ending := match chomping with
            | .strip => []
            | .clip => b.ending
            | .keep => b.ending ++ b.breaks
          .ok (String.ofList (b.text.reverse ++ ending), c)

end Likeness.Yaml
