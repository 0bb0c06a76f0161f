import Likeness.Syntax.Grammar.Literal

namespace Likeness.Syntax.Grammar

open Reading

def identifier (role : Option Role) : Reading Unit := wordNode .identifier role

def typeName (role : Option Role) : Reading Unit := wordNode .typeIdentifier role

def predefinedTypes : List String :=
  ["any", "number", "boolean", "string", "symbol", "void", "unknown", "never", "object"]

-- A name of a property: a word, a private name, a string, a number or a computed name.
def propertyName (g : Rules) (role : Option Role) : Reading Unit :=
  wordNode .propertyIdentifier role
    <|> withRole role privateName
    <|> string role
    <|> number role
    <|> node .computedPropertyName role (do
      mark "[" none
      bracketed (g (.expression 0))
      mark "]" none)
where
  privateName : Reading Unit := do
    let c ← context
    let s ← state
    if c.chars[s.pos]? = some '#' then
      match wordAt? c.chars (s.pos + 1) with
      | some stop =>
        take stop (.node .privatePropertyIdentifier none · [])
        settle
      | none => refuse
    else refuse

-- A colon and a type.
def typeClause (g : Rules) (role : Option Role) : Reading Unit :=
  node .typeClause role do
    sign ":" none
    g .typeExpression

-- What is said about a parameter: `x is T`.
def typePredicate (g : Rules) : Reading Unit :=
  node .typePredicate none do
    wordAs "this" .thisWord (some .name) <|> identifier (some .name)
    word "is" none
    g .typeExpression

def asserts (g : Rules) : Reading Unit :=
  node .asserts none do
    word "asserts" none
    typePredicate g <|> wordAs "this" .thisWord none <|> identifier none

-- The result type of a function, after a colon.
def resultType (g : Rules) : Reading Unit :=
  node .assertsClause (some .returnType) (do sign ":" none; asserts g)
    <|> node .typePredicateClause (some .returnType) (do sign ":" none; typePredicate g)
    <|> typeClause g (some .returnType)

def callSignature (g : Rules) : Reading Unit := do
  optional (g .typeParameters)
  g .formalParameters
  if (← context).resultTypes then optional (resultType g) else pure ()

def typeParameter (g : Rules) : Reading Unit :=
  node .typeParameter none do
    optional (do
      anyWord ["const", "in", "out"] none
      lookAhead (typeName none))
    typeName (some .name)
    optional (node .constraint none do
      word "extends" none <|> sign ":" none
      g .typeExpression)
    optional (node .defaultType none do
      sign "=" none
      g .typeExpression)

def typeParameters (g : Rules) : Reading Unit :=
  node .typeParameters (some .typeParameters) do
    mark "<" none
    bracketed (commaSep1 (typeParameter g))
    optional (sign "," none)
    mark ">" none

def typeArguments (g : Rules) : Reading Unit :=
  node .typeArguments (some .typeArguments) do
    mark "<" none
    bracketed (commaSep1 (g .typeExpression))
    optional (sign "," none)
    mark ">" none

-- A function type or the type of a constructor.
def functionType (g : Rules) : Reading Unit :=
  node .constructorType none (do
      optional (word "abstract" none)
      word "new" none
      optional (g .typeParameters)
      g .formalParameters
      sign "=>" none
      g .typeExpression)
    <|> node .functionType none (do
      optional (g .typeParameters)
      g .formalParameters
      sign "=>" none
      asserts g <|> typePredicate g <|> g .typeExpression)

-- The sign before the question mark or the `readonly` of a mapped type.
def mappedSign : Reading Unit := optional (sign "-" none <|> sign "+" none)

def mappedClause (g : Rules) : Reading Unit :=
  node .mappedTypeClause none do
    typeName (some .name)
    word "in" none
    g .typeExpression
    optional (do
      word "as" none
      g .typeExpression)

def indexSignature (g : Rules) : Reading Unit :=
  node .indexSignature none do
    optional (do
      mappedSign
      word "readonly" none)
    mark "[" none
    bracketed (mappedClause g <|> do
      identifier (some .name)
      sign ":" none
      g .typeExpression)
    mark "]" none
    node .omittedTypeClause (some .typePart) (marked "-")
      <|> node .addedTypeClause (some .typePart) (marked "+")
      <|> node .optedTypeClause (some .typePart) (do
        sign "?" none
        sign ":" none
        g .typeExpression)
      <|> optional (typeClause g (some .typePart))
where
  marked (before : String) : Reading Unit := do
    sign before none
    sign "?" none
    sign ":" none
    g .typeExpression

-- A word that qualifies the member whose name follows it.
def memberWord (text : String) : Reading Unit := do
  word text none
  let next ← peek
  match next with
  | some c => if isWordStart c || "\"'[#*0123456789".toList.contains c then pure () else refuse
  | none => refuse

def accessibility : Reading Unit :=
  node .accessibilityModifier none
    (memberWord "public" <|> memberWord "private" <|> memberWord "protected")

def overriding : Reading Unit := node .overrideModifier none (memberWord "override")

-- What stands before the name of a method.
def methodWords : Reading Unit := do
  optional accessibility
  optional (memberWord "static")
  optional overriding
  optional (memberWord "readonly")
  optional (memberWord "async")
  optional (memberWord "get" <|> memberWord "set" <|> sign "*" none)

def methodSignature (g : Rules) : Reading Unit :=
  node .methodSignature none do
    methodWords
    propertyName g (some .name)
    optional (sign "?" none)
    g .callSignature

def propertySignature (g : Rules) : Reading Unit :=
  node .propertySignature none do
    optional accessibility
    optional (memberWord "static")
    optional overriding
    optional (memberWord "readonly")
    propertyName g (some .name)
    optional (sign "?" none)
    optional (typeClause g (some .typePart))

def objectTypeMember (g : Rules) : Reading Unit :=
  methodSignature g
    <|> node .constructSignature none (do
      word "new" none
      optional (g .typeParameters)
      g .formalParameters
      optional (typeClause g (some .typePart)))
    <|> node .callSignature none (g .callSignature)
    <|> indexSignature g
    <|> propertySignature g

-- The members of an object type are separated by commas, semicolons or line ends.
def objectTypeAs (kind : Kind) (role : Option Role) (g : Rules) : Reading Unit :=
  node kind role do
    mark "\x7b" none
    within (fun c => { c with openEnd := true, resultTypes := true }) do
      optional (sign "," none <|> sign ";" none)
      many do
        objectTypeMember g
        sign "," none <|> semicolon false <|> lookAhead (mark "\x7d" none)
        many (sign "," none <|> sign ";" none)
    mark "\x7d" none

def objectType (g : Rules) : Reading Unit := objectTypeAs .objectType none g

def tupleMember (g : Rules) : Reading Unit :=
  node .requiredParameter none (do
      node .restPattern (some .name) (do
          sign "..." none
          identifier none)
        <|> identifier (some .name)
      typeClause g (some .typePart))
    <|> node .optionalParameter none (do
      identifier (some .name)
      sign "?" none
      typeClause g (some .typePart))
    <|> node .restType none (do
      sign "..." none
      g .typeExpression)
    <|> (do
      g .typeExpression
      optional (wrap .optionalType none (sign "?" none)))

-- What may follow `typeof`.
def typeQuery (g : Rules) : Reading Unit :=
  node .typeQuery none do
    word "typeof" none
    wordAs "this" .thisWord none <|> importType <|> identifier none
    many (wrap .memberExpression (some .object) do
        sign "." none
        wordNode .privatePropertyIdentifier (some .property) <|>
          wordNode .propertyIdentifier (some .property)
      <|> wrap .subscriptExpression (some .object) do
        mark "[" none
        string none <|> number none
        mark "]" none)
    optional (wrap .instantiationExpression none (g .typeArguments))
where
  importType : Reading Unit := do
    wordAs "import" .importWord none
    wrap .callExpression (some .function) (node .arguments (some .arguments) do
      mark "(" none
      string none
      mark ")" none)

-- A type name with any modules before it and any arguments after it.
def namedType (g : Rules) : Reading Unit := do
  typeName none
  many (wrap .nestedTypeIdentifier none do
    sign "." none
    typeName (some .name))
  optional (wrap .genericType (some .name) (g .typeArguments))

-- A type taken from another file.
def importedType (g : Rules) : Reading Unit := do
  wordAs "import" .importWord none
  wrap .callExpression (some .function) (node .arguments (some .arguments) do
    mark "(" none
    string none
    mark ")" none)
  many (wrap .memberExpression (some .object) do
    sign "." none
    wordNode .propertyIdentifier (some .property))
  optional (wrap .genericType (some .name) (g .typeArguments))

def literalType : Reading Unit :=
  node .literalType none (string none)
    <|> node .literalType none (number none)
    <|> node .literalType none (wordAs "true" .trueLiteral none)
    <|> node .literalType none (wordAs "false" .falseLiteral none)
    <|> node .literalType none (wordAs "null" .nullLiteral none)
    <|> node .literalType none (wordAs "undefined" .undefinedWord none)
    <|> node .literalType none (node .unaryExpression none do
      sign "-" (some .operator) <|> sign "+" (some .operator)
      number (some .argument))

def predefinedType : List String → Reading Unit
  | [] => refuse
  | w :: rest => wordAs w .predefinedType none <|> predefinedType rest

def templateType (g : Rules) : Reading Unit := do
  node .templateLiteralType none (quoted "\x60" (templatePart .templateType (g .typeExpression)))
  settle

-- A type without operators.
def simpleType (g : Rules) : Reading Unit :=
  node .parenthesizedType none (do
      mark "(" none
      bracketed (g .typeExpression)
      mark ")" none)
    <|> node .predefinedType none (do
      word "unique" none
      word "symbol" none)
    <|> predefinedType predefinedTypes
    <|> literalType
    <|> templateType g
    <|> wordAs "this" .thisType none
    <|> typeQuery g
    <|> node .indexTypeQuery none (do
      word "keyof" none
      g .primaryType)
    <|> node .readonlyType none (do
      word "readonly" none
      g .primaryType)
    <|> node .inferType none (do
      word "infer" none
      typeName none
      optional (do
        word "extends" none
        g .primaryType
        never (sign "?" none)))
    <|> node .tupleType none (do
      mark "[" none
      bracketed (commaSep (tupleMember g))
      optional (sign "," none)
      mark "]" none)
    <|> g .objectType
    <|> node .existentialType none (sign "*" none)
    <|> node .flowMaybeType none (do
      sign "?" none
      g .primaryType)
    <|> importedType g
    <|> namedType g

-- A type with any number of brackets after it.
def primaryType (g : Rules) : Reading Unit := do
  simpleType g
  many do
    if ← statementOver false then refuse else pure ()
    wrap .arrayType none (do
        mark "[" none
        mark "]" none)
      <|> wrap .lookupType none (do
        mark "[" none
        bracketed (g .typeExpression)
        mark "]" none)

-- Members joined by one operator, which may also stand before the first.
def joinedType (operator : String) (kind : Kind) (member : Reading Unit) : Reading Unit := do
  node kind none (do
      sign operator none
      member)
    <|> member
  many do
    if ← statementOver false then refuse else pure ()
    wrap kind none do
      sign operator none
      member

def unionType (g : Rules) : Reading Unit :=
  joinedType "|" .unionType
    (joinedType "&" .intersectionType (functionType g <|> g .primaryType))

-- Any type.
def typeExpression (g : Rules) : Reading Unit := do
  unionType g
  optional do
    if ← statementOver false then refuse else pure ()
    wrap .conditionalType (some .left) do
      word "extends" none
      within (fun c => { c with openEnd := false }) (unionType g)
      sign "?" none
      within (fun c => { c with openEnd := false }) (g .typeExpression)
      sign ":" none
      g .typeExpression

end Likeness.Syntax.Grammar
