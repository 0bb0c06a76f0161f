import Likeness.Digest.Blake3
import Likeness.Syntax.Source

namespace Likeness

open Syntax

-- A function with a name: a declaration, or an arrow function that a variable is bound to.
structure Function where
  name : String
  node : Tree
  -- the list of parameters, or the only parameter of an arrow function
  params : Option Tree
  -- a block or an expression
  body : Option Tree
  line : Nat

namespace Function

-- The function that a node declares.
def ofNode? (s : Source) (t : Tree) : Option Function :=
  match t.kind? with
  | some .functionDeclaration | some .generatorFunctionDeclaration =>
    match t.child? .name with
    | some name =>
      some ⟨s.textOf name, t, t.child? .parameters, t.child? .body, s.line t⟩
    | none => none
  | some .variableDeclarator =>
    match t.child? .name, t.child? .value with
    | some name, some value =>
      if value.hasKind .arrowFunction && name.hasKind .identifier then
        let params := (value.child? .parameters).orElse fun _ => value.child? .parameter
        some ⟨s.textOf name, value, params, value.child? .body, s.line t⟩
      else none
    | _, _ => none
  | _ => none

-- All functions of a file, nested ones among them, in source order.
def all (s : Source) : List Function := s.tree.nodes.filterMap (ofNode? s)

end Function

-- What is left of a function when names and literals are dropped: a word for each statement.
abbrev Shape := List String

namespace Shape

def kindName (t : Tree) : String :=
  match t.kind? with
  | some kind => kind.name
  | none => ""

-- The word for a statement. A value that is returned counts by its kind, and by its operator if it
-- has one with two operands.
def token (statement : Tree) : String :=
  match statement.kind? with
  | some .lexicalDeclaration | some .variableDeclaration => "declaration"
  | some .expressionStatement =>
    match statement.firstPart with
    | some expression => kindName expression.unwrapParens
    | none => kindName statement
  | some .returnStatement =>
    match statement.firstPart with
    | none => "return"
    | some argument =>
      let value := argument.unwrapParens
      if value.hasKind .binaryExpression then
        match value.child? .operator with
        | some (.token text _ _) => s!"return-binary:{text}"
        | _ => "return-binary:?"
      else s!"return:{kindName value}"
  | _ => kindName statement

-- The shape of a body. A block with fewer statements than the minimum has none.
def ofBody? (least : Nat) (body : Tree) : Option Shape :=
  if body.hasKind .statementBlock then
    let tokens := body.parts.map token
    if tokens.length < least then none else some tokens
  else some [kindName body.unwrapParens]

def ofFunction? (least : Nat) (f : Function) : Option Shape := f.body.bind (ofBody? least)

def digest (shape : Shape) : String := Digest.ofText (String.intercalate "\n" shape)

end Shape

end Likeness
