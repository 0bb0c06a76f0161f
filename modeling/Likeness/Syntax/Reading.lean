import Likeness.Syntax.Tree
import Std.Data.HashSet

namespace Likeness.Syntax

-- Plain files have casts in angle brackets, the others have elements of markup in their place.
inductive Dialect where
  | typeScript
  | tsx
deriving DecidableEq

-- What a place in the source file allows.
structure Context where
  chars : Array Char
  dialect : Dialect
  -- a statement may end here without a semicolon
  openEnd : Bool
  -- an arrow function may state its result type, which between the question mark and the colon of
  -- a conditional can take that colon away
  resultTypes : Bool

-- What is learnt on the way and stays true when a choice is taken back.
structure Notes where
  -- the furthest place where the text was refused
  reach : Nat
  -- opening parentheses that start no parameter list of an arrow function
  refuted : Std.HashSet Nat

structure State where
  -- the next character
  pos : Nat
  -- the end of what was read last, before blanks and comments
  last : Nat
  -- what has been read of the current node, the latest first
  out : List Tree
  -- the comments so far, the latest first
  comments : List Tree
  notes : Notes

inductive Result (α : Type) where
  | done (value : α) (state : State)
  | refused (notes : Notes)

-- A rule of the grammar: it reads a stretch of the text, or refuses the text.
def Reading (α : Type) := Context → State → Result α

namespace Reading

variable {α β : Type}

def succeed (a : α) : Reading α := fun _ s => .done a s

def andThen (p : Reading α) (q : α → Reading β) : Reading β := fun c s =>
  match p c s with
  | .done a s => q a c s
  | .refused notes => .refused notes

def refuse : Reading α := fun _ s =>
  .refused { s.notes with reach := max s.notes.reach s.pos }

-- The second rule reads from where the first one started.
def otherwise (p : Reading α) (q : Unit → Reading α) : Reading α := fun c s =>
  match p c s with
  | .done a s => .done a s
  | .refused notes => q () c { s with notes := notes }

instance : Monad Reading where
  pure := succeed
  bind := andThen

instance : OrElse (Reading α) := ⟨otherwise⟩

def context : Reading Context := fun c s => .done c s

def state : Reading State := fun _ s => .done s s

def change (f : State → State) : Reading Unit := fun _ s => .done () (f s)

def within (f : Context → Context) (p : Reading α) : Reading α := fun c s => p (f c) s

-- Inside of brackets nothing ends a statement.
def bracketed (p : Reading α) : Reading α :=
  within (fun c => { c with openEnd := false, resultTypes := true }) p

def optional (p : Reading Unit) : Reading Unit := p <|> pure ()

-- Whether a rule was there to read.
def tried (p : Reading Unit) : Reading Bool := (do p; pure true) <|> pure false

-- Reads nothing, and refuses what the rule refuses.
def lookAhead (p : Reading Unit) : Reading Unit := fun c s =>
  match p c s with
  | .done _ _ => .done () s
  | .refused notes => .refused notes

-- Reads nothing, and refuses what the rule reads.
def never (p : Reading Unit) : Reading Unit := fun c s =>
  match p c s with
  | .done _ _ => .refused { s.notes with reach := max s.notes.reach s.pos }
  | .refused notes => .done () { s with notes := notes }

def repeatFor (p : Reading Unit) : Nat → Reading Unit
  | 0 => pure ()
  | fuel + 1 => fun c s =>
    match p c s with
    | .refused notes => .done () { s with notes := notes }
    | .done _ next => if next.pos = s.pos then .done () next else repeatFor p fuel c next

-- As often as the rule reads something.
def many (p : Reading Unit) : Reading Unit := fun c s => repeatFor p (c.chars.size + 1 - s.pos) c s

def many1 (p : Reading Unit) : Reading Unit := do p; many p

def peek : Reading (Option Char) := fun c s => .done c.chars[s.pos]? s

end Reading

-- The characters that separate words and belong to nothing.
def isSeparator (c : Char) : Bool :=
  let n := c.toNat
  (9 ≤ n && n ≤ 13) || n == 0x20 || n == 0xA0 || n == 0x1680 || (0x2000 ≤ n && n ≤ 0x200B)
    || n == 0x2028 || n == 0x2029 || n == 0x202F || n == 0x205F || n == 0x2060 || n == 0x3000
    || n == 0xFEFF

def isPunctuation (c : Char) : Bool :=
  ":;\x60\"'@#.,|^&<=>+-*/\\%?!~()[]\x7b\x7d".toList.contains c

-- What a word may hold, and what it may start with.
def isWordChar (c : Char) : Bool := 0x20 ≤ c.toNat && !isSeparator c && !isPunctuation c

def isWordStart (c : Char) : Bool := isWordChar c && !c.isDigit

def isHexDigit (c : Char) : Bool :=
  c.isDigit || ('a' ≤ c && c ≤ 'f') || ('A' ≤ c && c ≤ 'F')

-- The place after all characters from `i` on that pass the test.
def skipWhile (chars : Array Char) (test : Char → Bool) (i : Nat) : Nat :=
  if h : i < chars.size then
    if test chars[i] then skipWhile chars test (i + 1) else i
  else i
termination_by chars.size - i

-- The place after the first star and slash from `i` on.
def blockCommentEnd (chars : Array Char) (i : Nat) : Option Nat :=
  if i + 1 < chars.size then
    if chars[i]? = some '*' && chars[i + 1]? = some '/' then some (i + 2)
    else blockCommentEnd chars (i + 1)
  else none
termination_by chars.size - i

-- The end of the comment that starts at `i`, if one does.
def commentEnd? (chars : Array Char) (i : Nat) : Option Nat :=
  if chars[i]? = some '/' then
    if chars[i + 1]? = some '/' then some (skipWhile chars (· ≠ '\n') (i + 2))
    else if chars[i + 1]? = some '*' then blockCommentEnd chars (i + 2)
    else none
  else none

-- The next place that is not in a blank or a comment, and the comments passed.
def skipTrivia (chars : Array Char) (comments : List Tree) (i : Nat) : Nat → Nat × List Tree
  | 0 => (i, comments)
  | fuel + 1 =>
    let i := skipWhile chars isSeparator i
    match commentEnd? chars i with
    | some stop => skipTrivia chars (.node .comment none ⟨i, stop⟩ [] :: comments) stop fuel
    | none => (i, comments)

namespace Reading

-- Passes blanks and comments.
def settle : Reading Unit := fun c s =>
  let (pos, comments) := skipTrivia c.chars s.comments s.pos (c.chars.size + 1 - s.pos)
  .done () { s with pos := pos, comments := comments }

-- Whether the characters stand at a place.
def standsAt (chars : Array Char) (text : List Char) (i : Nat) : Bool :=
  match text with
  | [] => true
  | c :: rest => chars[i]? == some c && standsAt chars rest (i + 1)

-- Reads up to a place and adds what is made of that stretch.
def take (stop : Nat) (make : Span → Tree) : Reading Unit := fun _ s =>
  .done () { s with pos := stop, last := stop, out := make ⟨s.pos, stop⟩ :: s.out }

-- A given text, whatever follows, and nothing after it.
def rawToken (text : String) (role : Option Role) : Reading Unit := fun c s =>
  if standsAt c.chars text.toList s.pos then
    take (s.pos + text.length) (.token text role ·) c s
  else refuse c s

-- The signs of more than one character, the longest first.
def longSigns : List String :=
  [">>>=", "...", "===", "!==", "**=", "<<=", ">>=", ">>>", "&&=", "||=", "??=", "=>", "==", "!=",
    "<=", ">=", "&&", "||", "??", "?.", "++", "--", "+=", "-=", "*=", "/=", "%=", "&=", "|=", "^=",
    "<<", ">>", "**"]

-- The longest sign at a place.
def signAt (chars : Array Char) (i : Nat) : Option String :=
  match longSigns.find? (fun sign => standsAt chars sign.toList i) with
  | some sign => some sign
  | none => chars[i]?.map Char.toString

def peekSign : Reading (Option String) := fun c s => .done (signAt c.chars s.pos) s

-- A sign that is not the start of a longer one.
def sign (text : String) (role : Option Role) : Reading Unit := fun c s =>
  if signAt c.chars s.pos == some text then
    andThen (take (s.pos + text.length) (.token text role ·)) (fun _ => settle) c s
  else refuse c s

-- Punctuation, even where it starts a longer sign.
def mark (text : String) (role : Option Role) : Reading Unit := do
  rawToken text role
  settle

-- The end of the word that starts at `i`. A character may be written as an escape.
def wordEnd (chars : Array Char) (i : Nat) : Nat → Nat
  | 0 => i
  | fuel + 1 =>
    let i := skipWhile chars isWordChar i
    if standsAt chars ['\\', 'u'] i then
      if chars[i + 2]? = some '\x7b' then
        let stop := skipWhile chars isHexDigit (i + 3)
        if i + 3 < stop && chars[stop]? = some '\x7d' then wordEnd chars (stop + 1) fuel else i
      else if (List.range 4).all (fun k => (chars[i + 2 + k]?.map isHexDigit).getD false) then
        wordEnd chars (i + 6) fuel
      else i
    else i

-- The end of a word at a place, if there is one.
def wordAt? (chars : Array Char) (i : Nat) : Option Nat :=
  match chars[i]? with
  | none => none
  | some c =>
    if isWordStart c || c = '\\' then
      let stop := wordEnd chars i (chars.size + 1 - i)
      if i < stop then some stop else none
    else none

def textOf (chars : Array Char) (span : Span) : String :=
  String.ofList (chars.extract span.start span.stop).toList

-- The word ahead; no text stands for no word.
def peekWord : Reading String := fun c s =>
  match wordAt? c.chars s.pos with
  | some stop => .done (textOf c.chars ⟨s.pos, stop⟩) s
  | none => .done "" s

-- A given word.
def word (text : String) (role : Option Role) : Reading Unit := fun c s =>
  if wordAt? c.chars s.pos == some (s.pos + text.length) && standsAt c.chars text.toList s.pos then
    andThen (take (s.pos + text.length) (.token text role ·)) (fun _ => settle) c s
  else refuse c s

-- Any of some words.
def anyWord (texts : List String) (role : Option Role) : Reading Unit :=
  match texts with
  | [] => refuse
  | text :: rest => word text role <|> anyWord rest role

-- Any word, as a node of its own.
def wordNode (kind : Kind) (role : Option Role) : Reading Unit := fun c s =>
  match wordAt? c.chars s.pos with
  | some stop => andThen (take stop (.node kind role · [])) (fun _ => settle) c s
  | none => refuse c s

-- A given word, as a node of its own.
def wordAs (text : String) (kind : Kind) (role : Option Role) : Reading Unit := do
  let w ← peekWord
  if w = text then wordNode kind role else refuse

-- The stretch from the first to the last of some trees, given in reverse.
def spanOf (trees : List Tree) (place : Nat) : Span :=
  match trees.getLast?, trees.head? with
  | some first, some last => ⟨first.span.start, last.span.stop⟩
  | _, _ => ⟨place, place⟩

-- What the rule reads becomes the children of one node.
def node (kind : Kind) (role : Option Role) (p : Reading Unit) : Reading Unit := fun c s =>
  match p c { s with out := [] } with
  | .refused notes => .refused notes
  | .done _ next =>
    let made := Tree.node kind role (spanOf next.out s.pos) next.out.reverse
    .done () { next with out := made :: s.out }

-- As `node`, with the tree read last as the first child. It takes a role of its own there.
def wrap (kind : Kind) (inner : Option Role) (p : Reading Unit) : Reading Unit := fun c s =>
  match s.out with
  | [] => refuse c s
  | first :: before =>
    let first := match inner with
      | some role => first.withRole role
      | none => first
    match p c { s with out := [first] } with
    | .refused notes => .refused notes
    | .done _ next =>
      let made := Tree.node kind none (spanOf next.out s.pos) next.out.reverse
      .done () { next with out := made :: before }

-- Gives the tree read last a role.
def withRole (role : Option Role) (p : Reading Unit) : Reading Unit := do
  p
  match role with
  | none => pure ()
  | some role => change fun s => match s.out with
    | last :: before => { s with out := last.withRole role :: before }
    | [] => s

-- The kind of the tree read last.
def lastKind : Reading (Option Kind) := fun _ s => .done (s.out.head?.bind Tree.kind?) s

-- One or more, with commas between them.
def commaSep1 (p : Reading Unit) : Reading Unit := do
  p
  many do
    sign "," none
    p

def commaSep (p : Reading Unit) : Reading Unit := optional (commaSep1 p)

-- Entries and gaps with commas between them: each entry may be missing.
def commaGaps (p : Reading Unit) : Reading Unit := do
  optional p
  many do
    sign "," none
    optional p

end Reading

end Likeness.Syntax
