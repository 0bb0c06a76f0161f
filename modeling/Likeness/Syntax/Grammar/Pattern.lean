import Likeness.Syntax.Grammar.Types

namespace Likeness.Syntax.Grammar

open Reading

-- The level of expressions without any operator around them: members, calls and what is simpler.
def memberLevel : Nat := 14

def assignable : List Kind :=
  [.identifier, .memberExpression, .subscriptExpression, .nonNullExpression]

-- A place that can be assigned to.
def placeExpression (g : Rules) : Reading Unit := do
  g (.expression memberLevel)
  match ← lastKind with
  | some kind => if assignable.contains kind then pure () else refuse
  | none => refuse

-- An equals sign and a value.
def initializer (g : Rules) (role : Option Role) : Reading Unit := do
  sign "=" none
  withRole role (g (.expression 0))

def restPattern (g : Rules) : Reading Unit :=
  node .restPattern none do
    sign "..." none
    g .pattern

def element (g : Rules) : Reading Unit :=
  node .assignmentPattern none (do
      withRole (some .left) (g .pattern)
      initializer g (some .right))
    <|> g .pattern

def arrayPattern (g : Rules) : Reading Unit :=
  node .arrayPattern none do
    mark "[" none
    bracketed (commaGaps (element g))
    mark "]" none

def objectPatternEntry (g : Rules) : Reading Unit :=
  node .pairPattern none (do
      propertyName g (some .key)
      sign ":" none
      withRole (some .value) (element g))
    <|> restPattern g
    <|> node .objectAssignmentPattern none (do
      wordNode .shorthandPropertyIdentifierPattern (some .left)
        <|> withRole (some .left) (g .pattern)
      initializer g (some .right))
    <|> wordNode .shorthandPropertyIdentifierPattern none

def objectPattern (g : Rules) : Reading Unit :=
  node .objectPattern none do
    mark "\x7b" none
    bracketed (commaGaps (objectPatternEntry g))
    mark "\x7d" none

def destructuring (g : Rules) : Reading Unit := objectPattern g <|> arrayPattern g

-- What a value can be taken apart into.
def pattern (g : Rules) : Reading Unit :=
  destructuring g <|> restPattern g <|> placeExpression g

-- What a declaration can bind.
def binding (g : Rules) : Reading Unit := identifier none <|> destructuring g

def decorator (g : Rules) : Reading Unit :=
  node .decorator (some .decorator) do
    sign "@" none
    node .parenthesizedExpression none (do
        mark "(" none
        bracketed (g (.expression 0))
        mark ")" none)
      <|> identifier none
    many do
      wrap .memberExpression (some .object) do
        sign "." none
        wordNode .propertyIdentifier (some .property)
    many do
      wrap .callExpression (some .function) do
        optional (g .typeArguments)
        node .arguments (some .arguments) do
          mark "(" none
          bracketed (commaGaps (node .spreadElement none (do
              sign "..." none
              g (.expression 0))
            <|> g (.expression 0)))
          mark ")" none

-- A parameter: what is bound, perhaps a question mark, a type and a default.
def parameter (g : Rules) : Reading Unit := do
  let start : Reading Unit := do
    many (decorator g)
    optional (parameterWord accessibility)
    optional (parameterWord overriding)
    optional (parameterWord (memberWord "readonly"))
    withRole (some .pattern) (wordAs "this" .thisWord none <|> binding g <|> restPattern g)
  let rest : Reading Unit := do
    optional (typeClause g (some .typePart))
    optional (initializer g (some .value))
  node .optionalParameter none (do
      start
      sign "?" none
      rest)
    <|> node .requiredParameter none (do
      start
      rest)
where
  -- the word is the parameter itself unless something to bind follows
  parameterWord (p : Reading Unit) : Reading Unit := do
    p
    lookAhead (identifier none <|> mark "\x7b" none <|> mark "[" none)

def formalParameters (g : Rules) : Reading Unit :=
  node .formalParameters (some .parameters) do
    mark "(" none
    bracketed (commaSep (parameter g))
    optional (sign "," none)
    mark ")" none

end Likeness.Syntax.Grammar
