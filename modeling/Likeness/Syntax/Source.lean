import Likeness.Syntax.Grammar.Program

namespace Likeness.Syntax

namespace Tree

mutual

-- Puts a comment into the innermost node that begins before it and does not end before it.
def insertComment (comment : Tree) : Tree → Tree
  | .token text role span => .token text role span
  | .node kind role span children => .node kind role span (insertCommentAmong comment children)
termination_by structural t => t

def insertCommentAmong (comment : Tree) : List Tree → List Tree
  | [] => [comment]
  | t :: rest =>
    if t.isNode && t.span.start < comment.span.start && comment.span.stop ≤ t.span.stop then
      insertComment comment t :: rest
    else if comment.span.start ≤ t.span.start then comment :: t :: rest
    else t :: insertCommentAmong comment rest
termination_by structural ts => ts

end

end Tree

-- A source file that was understood.
structure Source where
  dialect : Dialect
  text : String
  chars : Array Char
  tree : Tree

namespace Source

-- Reads a whole text. A refusal says how far the reading got.
def read (dialect : Dialect) (chars : Array Char) : Except Nat Tree :=
  let start : State := ⟨0, 0, [], [], ⟨0, {}⟩⟩
  match Grammar.program (Grammar.rules (Grammar.depthFor chars.size))
      ⟨chars, dialect, true, true⟩ start with
  | .refused notes => .error notes.reach
  | .done _ s =>
    match s.out with
    | tree :: _ => .ok (List.foldl (fun tree comment => Tree.insertComment comment tree) tree
        s.comments.reverse)
    | [] => .error 0

def parse? (dialect : Dialect) (text : String) : Option Source :=
  let chars := text.toList.toArray
  match read dialect chars with
  | .ok tree => some ⟨dialect, text, chars, tree⟩
  | .error _ => none

-- The text of a node.
def textOf (s : Source) (t : Tree) : String := Reading.textOf s.chars t.span

-- The number of line ends before a place.
def row (chars : Array Char) (i : Nat) : Nat :=
  ((chars.extract 0 i).toList.filter (· == '\n')).length

-- The line a node starts in, counted from one.
def line (s : Source) (t : Tree) : Nat := row s.chars t.span.start + 1

section Literal

-- What is between two equal quotes around a text, or the text.
def stripQuotes (text : String) : String :=
  match text.toList with
  | first :: rest =>
    match rest.getLast? with
    | some last =>
      if first = last && (first = '"' || first = '\x27' || first = '\x60') then
        String.ofList rest.dropLast
      else text
    | none => text
  | [] => text

-- The stretches of a template between its substitutions.
def templatePieces (chars : Array Char) (stop : Nat) : Nat → List Tree → List Char
  | place, [] => (chars.extract place stop).toList
  | place, t :: rest =>
    if t.hasKind .templateSubstitution then
      (chars.extract place t.span.start).toList ++ templatePieces chars stop t.span.stop rest
    else templatePieces chars stop place rest

-- The text of a template without its quotes and its substitutions, escapes as they are written.
def templateText (s : Source) (t : Tree) : String :=
  String.ofList
    (templatePieces s.chars (max (t.span.stop - 1) (t.span.start + 1)) (t.span.start + 1)
      t.namedChildren)

-- The value of a string or of a template without substitutions.
def stringValue (s : Source) (t : Tree) : Option String :=
  if t.hasKind .string then some (stripQuotes (s.textOf t))
  else if t.hasKind .templateString && !t.namedChildren.any (·.hasKind .templateSubstitution) then
    some (s.templateText t)
  else none

-- The value of a string, or the text of anything else.
def valueOrText (s : Source) (t : Tree) : String := (s.stringValue t).getD (s.textOf t)

end Literal

end Source

end Likeness.Syntax
