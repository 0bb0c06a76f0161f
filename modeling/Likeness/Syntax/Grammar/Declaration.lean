import Likeness.Syntax.Grammar.Members

namespace Likeness.Syntax.Grammar

open Reading

-- A name with its result and its value, if they are given.
def declarator (g : Rules) : Reading Unit :=
  node .variableDeclarator none do
    withRole (some .name) (binding g)
    (do
      sign "!" none
      typeClause g (some .typePart)) <|> do
      optional (typeClause g (some .typePart))
      optional (initializer g (some .value))

def declarators (g : Rules) : Reading Unit := do
  commaSep1 (declarator g)
  semicolon (← lastHasValue)

def variableDeclaration (g : Rules) : Reading Unit :=
  node .lexicalDeclaration none (do
      anyWord ["let", "const"] (some .kindWord)
      declarators g)
    <|> node .variableDeclaration none (do
      word "var" none
      declarators g)

-- A function with a name, or only its signature.
def functionDeclaration (g : Rules) : Reading Unit :=
  node .generatorFunctionDeclaration none (do
      optional (word "async" none)
      word "function" none
      sign "*" none
      signature
      withRole (some .body) (g (.block false)))
    <|> node .functionDeclaration none (do
      optional (word "async" none)
      word "function" none
      signature
      withRole (some .body) (g (.block false)))
    <|> node .functionSignature none (do
      optional (word "async" none)
      word "function" none
      signature
      sign ";" none <|> openEnd false true)
where
  signature : Reading Unit := do
    identifier (some .name)
    g .callSignature

def classDeclaration (g : Rules) : Reading Unit :=
  node .classDeclaration none (do
      many (decorator g)
      word "class" none
      typeName (some .name)
      classTail g
      optional (openEnd false false))
    <|> node .abstractClassDeclaration none (do
      many (decorator g)
      word "abstract" none
      word "class" none
      typeName (some .name)
      classTail g)

def enumMember (g : Rules) : Reading Unit :=
  node .enumAssignment none (do
      propertyName g (some .name)
      initializer g (some .value))
    <|> propertyName g (some .name)

def enumDeclaration (g : Rules) : Reading Unit :=
  node .enumDeclaration none do
    optional (word "const" none)
    word "enum" none
    identifier (some .name)
    node .enumBody (some .body) do
      mark "\x7b" none
      bracketed (commaSep (enumMember g))
      optional (sign "," none)
      mark "\x7d" none

def interfaceDeclaration (g : Rules) : Reading Unit :=
  node .interfaceDeclaration none do
    word "interface" none
    typeName (some .name)
    optional (g .typeParameters)
    optional (node .extendsTypeClause none do
      word "extends" none
      commaSep1 (withRole (some .typePart) (namedType g)))
    objectTypeAs .interfaceBody (some .body) g

def typeAlias (g : Rules) : Reading Unit :=
  node .typeAliasDeclaration none do
    word "type" none
    typeName (some .name)
    optional (g .typeParameters)
    sign "=" none
    withRole (some .value) (g .typeExpression)
    semicolon false

def importAlias : Reading Unit :=
  node .importAlias none do
    word "import" none
    identifier none
    sign "=" none
    identifier none
    many (wrap .nestedIdentifier (some .object) do
      sign "." none
      wordNode .propertyIdentifier (some .property))
    semicolon false

def moduleDeclaration (g : Rules) : Reading Unit :=
  node .moduleDeclaration none do
    word "module" none
    internalModule.moduleTail g

def ambientDeclaration (g : Rules) : Reading Unit :=
  node .ambientDeclaration none do
    word "declare" none
    g .declaration
      <|> (do
        word "global" none
        g (.block false))
      <|> (do
        word "module" none
        sign "." none
        wordNode .propertyIdentifier none
        sign ":" none
        g .typeExpression
        semicolon false)

-- Any declaration.
def declaration (g : Rules) : Reading Unit := do
  let w ← peekWord
  if w = "function" || w = "async" then functionDeclaration g
  else if w = "class" || w = "abstract" then classDeclaration g
  else if w = "let" || w = "var" then variableDeclaration g
  else if w = "const" then enumDeclaration g <|> variableDeclaration g
  else if w = "enum" then enumDeclaration g
  else if w = "interface" then interfaceDeclaration g
  else if w = "type" then typeAlias g
  else if w = "module" then moduleDeclaration g
  else if w = "namespace" then internalModule g
  else if w = "declare" then ambientDeclaration g
  else if w = "import" then importAlias
  else
    let next ← peek
    if next = some '@' then classDeclaration g else refuse

end Likeness.Syntax.Grammar
