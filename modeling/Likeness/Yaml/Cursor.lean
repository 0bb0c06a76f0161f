import Likeness.Yaml.Fault

namespace Likeness.Yaml

def isBreak (c : Char) : Bool :=
  c = '\n' || c = '\r' || c = '\x85' || c = '\u2028' || c = '\u2029'

def isBlank (c : Char) : Bool := c = ' ' || c = '\t'

-- Letters and digits of ASCII, underscores and hyphens.
def isWord (c : Char) : Bool := c.isAlphanum || c = '_' || c = '-'

def hexValue? (c : Char) : Option Nat :=
  if '0' ≤ c && c ≤ '9' then some (c.toNat - 48)
  else if 'a' ≤ c && c ≤ 'f' then some (c.toNat - 87)
  else if 'A' ≤ c && c ≤ 'F' then some (c.toNat - 55)
  else none

-- The characters a text may hold.
def isAllowed (c : Char) : Bool :=
  let n := c.toNat
  n == 9 || n == 10 || n == 13 || (0x20 ≤ n && n ≤ 0x7E) || n == 0x85
    || (0xA0 ≤ n && n ≤ 0xFFFD) || 0x10000 ≤ n

-- The text that is still unread, and where it starts.
structure Cursor where
  rest : List Char
  mark : Mark

namespace Cursor

def ofText (text : String) : Cursor := ⟨text.toList, .start⟩

-- Whether a character stands a number of places ahead.
def has (c : Cursor) (x : Char) (ahead : Nat) : Bool := c.rest[ahead]? == some x

def atEnd (c : Cursor) : Bool := c.rest.isEmpty

def atBlank (c : Cursor) : Bool := (c.rest.head?.map isBlank).getD false

def atBreak (c : Cursor) : Bool := (c.rest.head?.map isBreak).getD false

def atLineEnd (c : Cursor) : Bool := c.atEnd || c.atBreak

-- Whether a blank, a break or the end stands a number of places ahead.
def atGap (c : Cursor) (ahead : Nat) : Bool :=
  (c.rest[ahead]?.map fun x => isBlank x || isBreak x).getD true

-- Goes on by characters of one line.
def skip (c : Cursor) (count : Nat) : Cursor :=
  ⟨c.rest.drop count, { c.mark with
    column := c.mark.column + count, index := c.mark.index + count }⟩

-- The characters of a kind at the start, and where they end. No break is of the kind.
def span (c : Cursor) (kind : Char → Bool) : List Char × Cursor :=
  let run := c.rest.takeWhile kind
  (run, c.skip run.length)

def skipAll (c : Cursor) (kind : Char → Bool) : Cursor := (c.span kind).2

-- A line break and the character it stands for; nothing at other places.
def lineBreak (c : Cursor) : List Char × Cursor :=
  let next (count : Nat) (rest : List Char) : Cursor :=
    ⟨rest, ⟨c.mark.line + 1, 0, c.mark.index + count⟩⟩
  match c.rest with
  | '\r' :: '\n' :: rest => (['\n'], next 2 rest)
  | x :: rest =>
    if isBreak x then ([if x = '\u2028' || x = '\u2029' then x else '\n'], next 1 rest)
    else ([], c)
  | [] => ([], c)

def skipBreak (c : Cursor) : Cursor := c.lineBreak.2

-- Blanks and a comment up to the end of the line.
def skipComment (c : Cursor) : Cursor :=
  let c := c.skipAll isBlank
  if c.has '#' 0 then c.skipAll (!isBreak ·) else c

-- Three hyphens or three points alone at the start of a line.
def atDocumentMark (c : Cursor) (x : Char) : Bool :=
  c.mark.column == 0 && c.has x 0 && c.has x 1 && c.has x 2 && c.atGap 3

def atAnyDocumentMark (c : Cursor) : Bool := c.atDocumentMark '-' || c.atDocumentMark '.'

-- A fault at the cursor.
def fault {α : Type} (c : Cursor) (cause : Cause) (activity : Option (Activity × Mark)) :
    Except Fault α :=
  .error ⟨cause, c.mark, activity⟩

end Cursor

-- The first character that no text may hold, as a fault.
def forbidden? (text : String) : Option Fault :=
  let allowed := text.toList.takeWhile isAllowed
  if allowed.length = text.length then none
  else some ⟨.controlCharacter (String.ofList allowed).utf8ByteSize, .start, none⟩

end Likeness.Yaml
