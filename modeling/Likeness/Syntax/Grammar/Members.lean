import Likeness.Syntax.Grammar.Expression

namespace Likeness.Syntax.Grammar

open Reading

-- The rest of a statement, which may end without a semicolon.
def statementContext (p : Reading Unit) : Reading Unit :=
  within (fun c => { c with openEnd := true, resultTypes := true }) p

-- Whether the node read last was given a value.
def lastHasValue : Reading Bool := do
  return (((← state).out.head?.bind (Tree.child? .value)).isSome)

-- What stands before the name of a field.
def fieldWords : Reading Unit := do
  optional
    ((do
      memberWord "declare"
      optional accessibility) <|> do
      accessibility
      optional (memberWord "declare"))
  (memberWord "accessor")
    <|> (do
      memberWord "abstract"
      optional (memberWord "readonly"))
    <|> (do
      memberWord "readonly"
      memberWord "abstract")
    <|> (do
      optional (memberWord "static")
      optional overriding
      optional (memberWord "readonly"))

def field (g : Rules) : Reading Unit :=
  node .publicFieldDefinition none do
    many (decorator g)
    fieldWords
    propertyName g (some .name)
    optional (sign "?" none <|> sign "!" none)
    optional (typeClause g (some .typePart))
    optional (initializer g (some .value))

def abstractMethod (g : Rules) : Reading Unit :=
  node .abstractMethodSignature none do
    optional accessibility
    memberWord "abstract"
    optional overriding
    optional (memberWord "get" <|> memberWord "set" <|> sign "*" none)
    propertyName g (some .name)
    optional (sign "?" none)
    g .callSignature

def staticBlock (g : Rules) : Reading Unit :=
  node .classStaticBlock none do
    word "static" none
    withRole (some .body) (g (.block false))

-- The end of a member without a body.
def memberEnd (afterValue : Bool) : Reading Unit := sign "," none <|> semicolon afterValue

-- One member of a class and its end. Where a block may follow, the end of a line is no end.
def classMember (g : Rules) : Reading Unit :=
  sign ";" none
    <|> (do
      many (decorator g)
      methodDefinition g
      optional (semicolon false))
    <|> (do
      many (decorator g)
      methodSignature g
      sign ";" none <|> sign "," none <|> openEnd false true)
    <|> staticBlock g
    <|> (do
      abstractMethod g
      memberEnd false)
    <|> (do
      indexSignature g
      memberEnd false)
    <|> (do
      field g
      memberEnd (← lastHasValue))

def classBody (g : Rules) : Reading Unit :=
  node .classBody none do
    mark "\x7b" none
    statementContext (many (classMember g))
    mark "\x7d" none

end Likeness.Syntax.Grammar
