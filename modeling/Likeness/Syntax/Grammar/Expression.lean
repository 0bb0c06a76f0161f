import Likeness.Syntax.Grammar.Markup

namespace Likeness.Syntax.Grammar

open Reading

-- The operand of an operator that stands before it.
def operandLevel : Nat := 13

-- What is constructed by `new`: no calls.
def constructorLevel : Nat := 15

-- The binary operators, and how tightly they bind.
def binaryOperators : List (String × Nat) :=
  [("??", 1), ("||", 2), ("&&", 3), ("|", 4), ("^", 5), ("&", 6), ("==", 7), ("===", 7), ("!=", 7),
    ("!==", 7), ("<", 8), ("<=", 8), (">", 8), (">=", 8), ("instanceof", 8), ("in", 8), ("<<", 9),
    (">>", 9), (">>>", 9), ("+", 10), ("-", 10), ("*", 11), ("/", 11), ("%", 11), ("**", 12)]

def powerLevel : Nat := 12

def augmentedOperators : List String :=
  ["+=", "-=", "*=", "/=", "%=", "^=", "&=", "|=", ">>=", ">>>=", "<<=", "**=", "&&=", "||=", "??="]

def argumentList (g : Rules) : Reading Unit :=
  node .arguments (some .arguments) do
    mark "(" none
    bracketed (commaGaps (spreadElement g <|> g (.expression 0)))
    mark ")" none

def methodDefinition (g : Rules) : Reading Unit :=
  node .methodDefinition none do
    methodWords
    propertyName g (some .name)
    optional (sign "?" none)
    within (fun c => { c with resultTypes := true }) (g .callSignature)
    withRole (some .body) (g (.block false))

def objectEntry (g : Rules) : Reading Unit :=
  spreadElement g
    <|> node .pair none (do
      propertyName g (some .key)
      sign ":" none
      withRole (some .value) (g (.expression 0)))
    <|> methodDefinition g
    <|> wordNode .shorthandPropertyIdentifier none

def objectLiteral (g : Rules) : Reading Unit :=
  node .object none do
    mark "\x7b" none
    bracketed (commaGaps (objectEntry g))
    mark "\x7d" none

def arrayLiteral (g : Rules) : Reading Unit :=
  node .array none do
    mark "[" none
    bracketed (commaGaps (spreadElement g <|> g (.expression 0)))
    mark "]" none

-- A literal, or the assignment of a value to a pattern that looks like one.
def literalOrAssignment (g : Rules) (literal target : Reading Unit) : Reading Unit :=
  (do
    literal
    never (sign "=" none))
    <|> node .assignmentExpression none (do
      withRole (some .left) target
      initializer g (some .right))

def parenthesized (g : Rules) : Reading Unit :=
  node .parenthesizedExpression none do
    mark "(" none
    bracketed do
      g .expressions
      optional (typeClause g (some .typePart))
    mark ")" none

-- The parameters of an arrow function and what follows them.
def arrowFunction (g : Rules) : Reading Unit :=
  node .arrowFunction none do
    (do
      identifier (some .parameter)
      sign "=>" none)
      <|> (do
        word "async" none
        identifier (some .parameter)
        sign "=>" none)
      <|> (do
        optional (word "async" none)
        g .callSignature
        sign "=>" none)
    let next ← peek
    if next = some '\x7b' then withRole (some .body) (g (.block true))
    else withRole (some .body) (g (.expression 0))

-- An arrow function or an expression in parentheses. A parenthesis that was found to start no
-- parameter list is not tried again.
def arrowOrParenthesized (g : Rules) : Reading Unit := do
  let s ← state
  if s.notes.refuted.contains s.pos then parenthesized g
  else
    arrowFunction g <|> do
      if (← context).resultTypes then
        change fun s => { s with notes := { s.notes with refuted := s.notes.refuted.insert s.pos } }
      else pure ()
      parenthesized g

def functionHead (g : Rules) : Reading Unit := do
  optional (identifier (some .name))
  within (fun c => { c with resultTypes := true }) (g .callSignature)
  withRole (some .body) (g (.block true))

def functionExpression (g : Rules) : Reading Unit :=
  node .generatorFunction none (do
      optional (word "async" none)
      word "function" none
      sign "*" none
      functionHead g)
    <|> node .functionExpression none (do
      optional (word "async" none)
      word "function" none
      functionHead g)

-- What a class extends and implements.
def heritage (g : Rules) : Reading Unit :=
  node .classHeritage none do
    let parents := node .extendsClause none do
      word "extends" none
      commaSep1 do
        withRole (some .value) (g (.expression memberLevel))
        optional (g .typeArguments)
    let interfaces := node .implementsClause none do
      word "implements" none
      commaSep1 (g .typeExpression)
    (do
      parents
      optional interfaces) <|> interfaces

def classTail (g : Rules) : Reading Unit := do
  optional (g .typeParameters)
  optional (within (fun c => { c with openEnd := false }) (heritage g))
  withRole (some .body) (g .classBody)

def classExpression (g : Rules) : Reading Unit :=
  node .classExpression none do
    many (decorator g)
    word "class" none
    (do
      never (word "extends" none <|> word "implements" none)
      typeName (some .name)
      classTail g) <|> classTail g

def newExpression (g : Rules) : Reading Unit :=
  node .metaProperty none (do
      word "new" none
      sign "." none
      word "target" none)
    <|> node .newExpression none (do
      word "new" none
      withRole (some .constructorPart) (g (.expression constructorLevel))
      optional (do
        g .typeArguments
        lookAhead (mark "(" none))
      optional (argumentList g))

-- The end of an operand that reaches as far as it can: a type or an exclamation mark after it.
def typeSuffix (g : Rules) : Reading Unit := do
  if ← statementOver true then refuse
  else
    wrap .asExpression none (do
        word "as" none
        word "const" none <|> g .typeExpression)
      <|> wrap .satisfiesExpression none (do
        word "satisfies" none
        g .typeExpression)
      <|> wrap .nonNullExpression none (sign "!" none)

def awaitExpression (g : Rules) : Reading Unit :=
  node .awaitExpression none do
    word "await" none
    g (.expression operandLevel)
    many (typeSuffix g)

def yieldExpression (g : Rules) : Reading Unit :=
  node .yieldExpression none do
    word "yield" none
    if ← statementOver false then pure ()
    else
      let delegates ← tried (sign "*" none)
      if delegates then g (.expression 0) else optional (g (.expression 0))

-- A module written where an expression may stand.
def internalModule (g : Rules) : Reading Unit :=
  node .internalModule none do
    word "namespace" none
    moduleTail g
where
  moduleTail (g : Rules) : Reading Unit := do
    string (some .name) <|> withRole (some .name) (do
      identifier none
      many (wrap .nestedIdentifier (some .object) do
        sign "." none
        wordNode .propertyIdentifier (some .property)))
    optional (withRole (some .body) (g (.block false)))

def importExpression : Reading Unit :=
  node .metaProperty none (do
      word "import" none
      sign "." none
      word "meta" none)
    <|> (do
      wordAs "import" .importWord none
      lookAhead (mark "(" none))

-- An expression that starts with a word.
def wordExpression (g : Rules) (w : String) : Reading Unit :=
  if w = "function" then functionExpression g
  else if w = "async" then functionExpression g <|> arrowFunction g <|> identifier none
  else if w = "class" then classExpression g
  else if w = "new" then newExpression g
  else if w = "await" then awaitExpression g
  else if w = "yield" then yieldExpression g
  else if w = "typeof" || w = "void" || w = "delete" then
    node .unaryExpression none do
      word w (some .operator)
      withRole (some .argument) (g (.expression operandLevel))
  else if w = "this" then wordNode .thisWord none
  else if w = "super" then wordNode .superWord none
  else if w = "null" then wordNode .nullLiteral none
  else if w = "true" then wordNode .trueLiteral none
  else if w = "false" then wordNode .falseLiteral none
  else if w = "undefined" then arrowOr (wordNode .undefinedWord none)
  else if w = "import" then importExpression
  else if w = "namespace" then internalModule g <|> arrowOr (identifier none)
  else arrowOr (identifier none)
where
  arrowOr (p : Reading Unit) : Reading Unit := do
    let isArrow ← tried (lookAhead do
      identifier none
      sign "=>" none)
    if isArrow then arrowFunction g else p

def unary (g : Rules) (operator : String) : Reading Unit :=
  node .unaryExpression none do
    sign operator (some .operator)
    withRole (some .argument) (g (.expression operandLevel))

-- An expression up to the operators that stand after an operand.
def operand (g : Rules) : Reading Unit := do
  let c ← context
  let s ← state
  match c.chars[s.pos]? with
  | none => refuse
  | some first =>
    if first = '(' then arrowOrParenthesized g
    else if first = '\x7b' then literalOrAssignment g (objectLiteral g) (objectPattern g)
    else if first = '[' then literalOrAssignment g (arrayLiteral g) (arrayPattern g)
    else if first = '"' || first = '\x27' then string none
    else if first = '\x60' then g .templateString
    else if first.isDigit || first = '.' then number none
    else if first = '/' then regex
    else if first = '<' then
      arrowFunction g <|> match c.dialect with
        | .tsx => do
          g .markup
          settle
        | .typeScript => node .typeAssertion none do
          g .typeArguments
          g (.expression operandLevel)
    else if first = '@' then classExpression g
    else if first = '#' then
      withRole none (propertyName g none)
    else if first = '!' then unary g "!"
    else if first = '~' then unary g "~"
    else if first = '+' || first = '-' then
      unary g first.toString <|> node .updateExpression none do
        sign (String.ofList [first, first]) (some .operator)
        withRole (some .argument) (g (.expression memberLevel))
    else wordExpression g (← peekWord)

def member (g : Rules) : Reading Unit :=
  wrap .memberExpression (some .object) do
    sign "." none
    property
where
  property : Reading Unit := do
    let next ← peek
    if next = some '#' then propertyName g (some .property)
    else wordNode .propertyIdentifier (some .property)

def index (g : Rules) : Reading Unit := do
  mark "[" none
  withRole (some .index) (bracketed (g .expressions))
  mark "]" none

-- A member, call or subscript of what may be missing.
def optionalChain (g : Rules) : Reading Unit :=
  wrap .callExpression (some .function) (do
      sign "?." none
      optional (g .typeArguments)
      argumentList g)
    <|> wrap .subscriptExpression (some .object) (do
      node .optionalChain none (sign "?." none)
      index g)
    <|> wrap .memberExpression (some .object) (do
      node .optionalChain none (sign "?." none)
      member.property g)

-- Type arguments of a call, or alone where no operand follows them.
def typeApplication (g : Rules) : Reading Unit :=
  wrap .callExpression (some .function) (do
      g .typeArguments
      argumentList g <|> withRole (some .arguments) (g .templateString))
    <|> wrap .instantiationExpression none (do
      g .typeArguments
      let next ← peek
      match next with
      | none => pure ()
      | some c => if ")],;:\x7d.?".toList.contains c then pure () else refuse)

def binary (g : Rules) (operator : String) (level : Nat) : Reading Unit := do
  wrap .binaryExpression (some .left) do
    sign operator (some .operator) <|> word operator (some .operator)
    withRole (some .right) do
      if level = powerLevel then
        g (.expression level)
        many (typeSuffix g)
      else g (.expression (level + 1))

-- The two outcomes of a condition. An arrow function in the first one states no result type if its
-- colon is the one of the condition.
def conditional (g : Rules) : Reading Unit :=
  wrap .ternaryExpression (some .condition) do
    sign "?" none
    let first := withRole (some .consequence) (g (.expression 0))
    let s ← state
    within (fun c => { c with openEnd := false, resultTypes := true }) first
    let closed ← tried (sign ":" none)
    if closed then pure ()
    else
      change fun now => { s with notes := now.notes }
      within (fun c => { c with openEnd := false, resultTypes := false }) first
      sign ":" none
    withRole (some .alternative) (g (.expression 0))

def assignment (g : Rules) (operator : String) : Reading Unit := do
  match ← lastKind with
  | some kind =>
    if assignable.contains kind || kind = .parenthesizedExpression then
      if operator = "=" then
        wrap .assignmentExpression (some .left) (initializer g (some .right))
      else
        wrap .augmentedAssignmentExpression (some .left) do
          sign operator (some .operator)
          withRole (some .right) (g (.expression 0))
    else refuse
  | none => refuse

-- What goes on with the expression read last, if it binds at least as tightly as the level.
def suffix (g : Rules) (level : Nat) : Reading Unit := do
  if ← statementOver true then refuse
  else
    match ← peekSign with
    | none => refuse
    | some op =>
      if op = "." then member g
      else if op = "[" then wrap .subscriptExpression (some .object) (index g)
      else if op = "\x60" then
        wrap .callExpression (some .function) (withRole (some .arguments) (g .templateString))
      else if constructorLevel ≤ level then refuse
      else if op = "?." then optionalChain g
      else if op = "(" then wrap .callExpression (some .function) (argumentList g)
      else if op = "<" then
        typeApplication g <|> if level ≤ 8 then binary g "<" 8 else refuse
      else if op = "++" || op = "--" then
        if level ≤ operandLevel then
          wrap .updateExpression (some .argument) (sign op (some .operator))
        else refuse
      else if op = "=" || augmentedOperators.contains op then
        if level ≤ operandLevel then assignment g op else refuse
      else if op = "!" then if level = 0 then typeSuffix g else refuse
      else if op = "?" then if level = 0 then conditional g else refuse
      else
        match binaryOperators.find? (·.1 = op) with
        | some (_, tightness) => if level ≤ tightness then binary g op tightness else refuse
        | none =>
          let w ← peekWord
          if w = "as" || w = "satisfies" then if level = 0 then typeSuffix g else refuse
          else if w = "in" || w = "instanceof" then
            if level ≤ 8 then binary g w 8 else refuse
          else refuse

def expression (g : Rules) (level : Nat) : Reading Unit := do
  operand g
  many (suffix g level)

def expressions (g : Rules) : Reading Unit := do
  g (.expression 0)
  optional (wrap .sequenceExpression none (many1 do
    sign "," none
    g (.expression 0)))

end Likeness.Syntax.Grammar
