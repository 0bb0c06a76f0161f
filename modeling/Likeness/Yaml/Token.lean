import Likeness.Yaml.Scalar
import Likeness.Yaml.Tag

namespace Likeness.Yaml

-- The pieces a text is made of.
inductive Piece where
  | directive (d : Directive)
  | documentStart
  | documentEnd
  | blockSequenceStart
  | blockMappingStart
  | blockEnd
  | flowSequenceStart
  | flowSequenceEnd
  | flowMappingStart
  | flowMappingEnd
  | blockEntry
  | flowEntry
  | key
  | value
  | alias (name : String)
  | anchor (name : String)
  | tag (tag : TagText)
  | scalar (text : String) (isPlain : Bool)
  | streamEnd
  -- the text cannot be read on
  | broken (fault : Fault)

structure Token where
  piece : Piece
  mark : Mark

-- A token that turns out to start a key if a colon follows on the same line. It must be one if it
-- stands in the column of the block around it.
structure PossibleKey where
  number : Nat
  required : Bool
  mark : Mark

-- The columns of the blocks around the cursor are kept as one more than the column, zero outside
-- of all blocks. There is a possible key for each open flow collection and one outside of them.
structure Tokens.State where
  cursor : Cursor
  column : Nat
  columns : List Nat
  key : Option PossibleKey
  keys : List (Option PossibleKey)
  keyAllowed : Bool
  -- tokens that are not delivered yet, since a key may start at the first of them
  waiting : List Token
  delivered : Nat

namespace Tokens

namespace State

def ofText (text : String) : State := ⟨.ofText text, 0, [], none, [], true, [], 0⟩

def inFlow (s : State) : Bool := !s.keys.isEmpty

def add (s : State) (piece : Piece) (mark : Mark) : State :=
  { s with waiting := s.waiting ++ [⟨piece, mark⟩] }

-- Adds a token before the one with a number.
def addBefore (s : State) (number : Nat) (piece : Piece) (mark : Mark) : State :=
  { s with waiting := s.waiting.insertIdx (number - s.delivered) ⟨piece, mark⟩ }

-- A key without its colon is a fault only where there has to be one.
def dropKey (s : State) : Except Fault State :=
  match s.key with
  | some key =>
    if key.required then s.cursor.fault .keyWithoutColon (some (.simpleKey, key.mark))
    else .ok { s with key := none }
  | none => .ok s

-- Notes that the next token may start a key.
def saveKey (s : State) : Except Fault State :=
  if s.keyAllowed then
    let mark := s.cursor.mark
    let key := ⟨s.delivered + s.waiting.length, !s.inFlow && s.column = mark.column + 1, mark⟩
    s.dropKey.map fun s => { s with key := some key }
  else .ok s

-- A key stays possible up to the end of its line and for 1024 characters.
def isOver (s : State) (key : PossibleKey) : Bool :=
  key.mark.line < s.cursor.mark.line || key.mark.index + 1024 < s.cursor.mark.index

-- Drops the keys that are over. They are looked at from the outermost collection inwards.
def dropOldKeys (s : State) : Except Fault State :=
  let all := (s.key :: s.keys).reverse.filterMap id
  match all.find? fun key => key.required && s.isOver key with
  | some key => s.cursor.fault .keyWithoutColon (some (.simpleKey, key.mark))
  | none =>
    let keep (key : Option PossibleKey) : Option PossibleKey := key.filter (!s.isOver ·)
    .ok { s with key := keep s.key, keys := s.keys.map keep }

-- Opens a block in a column right of the one around it.
def openBlock (s : State) (mark : Mark) (number : Option Nat) (piece : Piece) : State :=
  if !s.inFlow && s.column < mark.column + 1 then
    let s := { s with column := mark.column + 1, columns := s.column :: s.columns }
    match number with
    | some number => s.addBefore number piece mark
    | none => s.add piece mark
  else s

-- Closes blocks as long as `column` is left of them.
def closeColumns (mark : Mark) (limit : Nat) : Nat → List Nat → List Token → List Token × Nat × List Nat
  | column, outer :: columns, ended =>
    if limit < column then closeColumns mark limit outer columns (⟨.blockEnd, mark⟩ :: ended)
    else (ended, column, outer :: columns)
  | column, [], ended => (ended, column, [])

-- Closes the blocks right of a column, given as one more.
def closeBlocks (s : State) (limit : Nat) : State :=
  if s.inFlow then s
  else
    let (ended, column, columns) := closeColumns s.cursor.mark limit s.column s.columns []
    { s with column, columns, waiting := s.waiting ++ ended }

-- Blanks, comments and breaks. Tabs count as blanks where no key can start.
def skipToToken : Nat → State → State
  | 0, s => s
  | fuel + 1, s =>
    let c := if s.cursor.mark.column == 0 && s.cursor.has '\ufeff' 0 then s.cursor.skip 1
      else s.cursor
    let tabs := s.inFlow || !s.keyAllowed
    let c := c.skipAll fun x => x = ' ' || (tabs && x = '\t')
    let c := if c.has '#' 0 then c.skipAll (!isBreak ·) else c
    if c.atBreak then
      skipToToken fuel
        { s with cursor := c.skipBreak, keyAllowed := s.keyAllowed || !s.inFlow }
    else { s with cursor := c }

-- A token of some characters at the cursor.
def take (s : State) (piece : Piece) (count : Nat) : State :=
  { s.add piece s.cursor.mark with cursor := s.cursor.skip count }

def isPlainStart (s : State) : Bool :=
  let c := s.cursor
  let indicators := ['-', '?', ':', ',', '[', ']', '\x7b', '\x7d', '#', '&', '*', '!', '|', '>',
    '\x27', '"', '%', '@', '\x60']
  (!c.atGap 0 && !indicators.any (c.has · 0))
    || (c.has '-' 0 && !((c.skip 1).atBlank))
    || (!s.inFlow && (c.has '?' 0 || c.has ':' 0) && !c.atGap 1)

-- Outside of all blocks at the start of a line.
def endBlocks (s : State) : Except Fault State :=
  (s.closeBlocks 0).dropKey.map fun s => { s with keyAllowed := false }

def fetchEnd (s : State) : Except Fault State :=
  let mark := s.cursor.mark
  let s := if mark.column = 0 then s
    else { s with cursor := { s.cursor with mark := ⟨mark.line + 1, 0, mark.index⟩ } }
  s.endBlocks.map fun s => s.add .streamEnd s.cursor.mark

def fetchDirective (s : State) : Except Fault State :=
  match s.endBlocks with
  | .error fault => .error fault
  | .ok s => (readDirective s.cursor).map fun (directive, c) =>
    { s.add (.directive directive) s.cursor.mark with cursor := c }

def fetchFlowStart (s : State) (piece : Piece) : Except Fault State :=
  s.saveKey.map fun s =>
    { s with key := none, keys := s.key :: s.keys, keyAllowed := true }.take piece 1

def fetchFlowEnd (s : State) (piece : Piece) : Except Fault State :=
  s.dropKey.map fun s =>
    let s := match s.keys with
      | key :: keys => { s with key, keys }
      | [] => s
    { s with keyAllowed := false }.take piece 1

def fetchFlowEntry (s : State) : Except Fault State :=
  s.dropKey.map fun s => { s with keyAllowed := true }.take .flowEntry 1

def fetchBlockEntry (s : State) : Except Fault State :=
  if !s.inFlow && !s.keyAllowed then s.cursor.fault .entryNotAllowed none
  else
    (s.openBlock s.cursor.mark none .blockSequenceStart).dropKey.map fun s =>
      { s with keyAllowed := true }.take .blockEntry 1

def fetchKey (s : State) : Except Fault State :=
  if !s.inFlow && !s.keyAllowed then s.cursor.fault .keyNotAllowed none
  else
    (s.openBlock s.cursor.mark none .blockMappingStart).dropKey.map fun s =>
      { s with keyAllowed := !s.inFlow }.take .key 1

def fetchValue (s : State) : Except Fault State :=
  match s.key with
  | some key =>
    let s := s.addBefore key.number .key key.mark
    let s := s.openBlock key.mark (some key.number) .blockMappingStart
    .ok ({ s with key := none, keyAllowed := false }.take .value 1)
  | none =>
    if !s.inFlow && !s.keyAllowed then s.cursor.fault .valueNotAllowed none
    else
      let s := s.openBlock s.cursor.mark none .blockMappingStart
      .ok ({ s with keyAllowed := !s.inFlow }.take .value 1)

-- A token that may start a key and is none itself.
def fetchContent (s : State) (read : Cursor → Except Fault (Piece × Cursor)) :
    Except Fault State :=
  match s.saveKey with
  | .error fault => .error fault
  | .ok s => (read s.cursor).map fun (piece, c) =>
    { s.add piece s.cursor.mark with cursor := c, keyAllowed := false }

def fetchBlockScalar (s : State) (literal : Bool) : Except Fault State :=
  match s.dropKey with
  | .error fault => .error fault
  | .ok s => (readBlock literal s.column s.cursor).map fun (text, c) =>
    { s.add (.scalar text false) s.cursor.mark with cursor := c, keyAllowed := true }

def fetchPlain (s : State) : Except Fault State :=
  match s.saveKey with
  | .error fault => .error fault
  | .ok s => (readPlain s.inFlow s.column s.cursor).map fun (text, c, broken) =>
    { s.add (.scalar text true) s.cursor.mark with cursor := c, keyAllowed := broken }

def fetchQuoted (s : State) (single : Bool) : Except Fault State :=
  s.fetchContent fun c => (readQuoted single c).map fun (text, c) => (.scalar text false, c)

-- Reads one token and what it opens and closes before it.
def fetch (s : State) : Except Fault State :=
  match (s.skipToToken (s.cursor.rest.length + 1)).dropOldKeys with
  | .error fault => .error fault
  | .ok s =>
    let c := s.cursor
    let s := s.closeBlocks (c.mark.column + 1)
    match c.rest.head? with
    | none => s.fetchEnd
    | some x =>
      if c.mark.column = 0 && x = '%' then s.fetchDirective
      else if c.atDocumentMark '-' then s.endBlocks.map (·.take .documentStart 3)
      else if c.atDocumentMark '.' then s.endBlocks.map (·.take .documentEnd 3)
      else if x = '[' then s.fetchFlowStart .flowSequenceStart
      else if x = '\x7b' then s.fetchFlowStart .flowMappingStart
      else if x = ']' then s.fetchFlowEnd .flowSequenceEnd
      else if x = '\x7d' then s.fetchFlowEnd .flowMappingEnd
      else if x = ',' then s.fetchFlowEntry
      else if x = '-' && c.atGap 1 then s.fetchBlockEntry
      else if x = '?' && (s.inFlow || c.atGap 1) then s.fetchKey
      else if x = ':' && (s.inFlow || c.atGap 1) then s.fetchValue
      else if x = '*' then s.fetchContent fun c =>
        (readAnchor true c).map fun (name, c) => (.alias name, c)
      else if x = '&' then s.fetchContent fun c =>
        (readAnchor false c).map fun (name, c) => (.anchor name, c)
      else if x = '!' then s.fetchContent fun c =>
        (readTag s.inFlow c).map fun (tag, c) => (.tag tag, c)
      else if x = '|' && !s.inFlow then s.fetchBlockScalar true
      else if x = '>' && !s.inFlow then s.fetchBlockScalar false
      else if x = '\x27' then s.fetchQuoted true
      else if x = '"' then s.fetchQuoted false
      else if s.isPlainStart then s.fetchPlain
      else c.fault .noTokenStart (some (.nextToken, c.mark))

-- Whether the first waiting token is sure to start no key.
def isReady (s : State) : Bool :=
  !(s.key :: s.keys).any fun key => (key.map (·.number == s.delivered)).getD false

end State

-- Delivers tokens up to the end of the text or to the place where it cannot be read on.
def collect : Nat → State → List Token
  | 0, _ => []
  | fuel + 1, s =>
    let brokenBy (fault : Fault) : List Token := [⟨.broken fault, fault.mark⟩]
    let more (s : State) : List Token :=
      match s.fetch with
      | .ok s => collect fuel s
      | .error fault => brokenBy fault
    match s.waiting with
    | [] => more s
    | token :: waiting =>
      match s.dropOldKeys with
      | .error fault => brokenBy fault
      | .ok s =>
        if s.isReady then
          match token.piece with
          | .streamEnd => [token]
          | _ => token :: collect fuel { s with waiting, delivered := s.delivered + 1 }
        else more s

end Tokens

-- The tokens of a text. The last one is its end or tells where it cannot be read on.
def tokens (text : String) : List Token :=
  match forbidden? text with
  | some fault => [⟨.broken fault, fault.mark⟩]
  | none => Tokens.collect (8 * (text.length + 4)) (.ofText text)

end Likeness.Yaml
