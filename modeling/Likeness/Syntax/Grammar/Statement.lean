import Likeness.Syntax.Grammar.Declaration

namespace Likeness.Syntax.Grammar

open Reading

-- The name of what is exported or imported, as another file knows it.
def exportedName (role : Option Role) : Reading Unit := identifier role <|> string role

def fromClause : Reading Unit := do
  word "from" none
  string (some .source)

-- A word before a name that says what is meant is a type. It may itself be the name.
def typeWord (p : Reading Unit) : Reading Unit :=
  (do
    anyWord ["type", "typeof"] none
    p) <|> p

def exportClause : Reading Unit :=
  node .exportClause none do
    mark "\x7b" none
    commaSep (node .exportSpecifier none (typeWord do
      exportedName (some .name)
      optional (do
        word "as" none
        exportedName (some .alias))
      lookAhead (mark "," none <|> mark "\x7d" none)))
    optional (sign "," none)
    mark "\x7d" none

def exportedList : Reading Unit := do
  (do
    sign "*" none
    fromClause)
    <|> (do
      node .namespaceExport none do
        sign "*" none
        word "as" none
        exportedName none
      fromClause)
    <|> (do
      exportClause
      optional fromClause)
    <|> (do
      word "type" none
      exportClause
      optional fromClause)
    <|> (do
      word "as" none
      word "namespace" none
      identifier none)
  semicolon false

def exportStatement (g : Rules) : Reading Unit :=
  node .exportStatement none do
    many (decorator g)
    word "export" none
    exportedList
      <|> (do
        word "default" none
        withRole (some .declaration) (g .declaration) <|> do
          withRole (some .value) (g (.expression 0))
          semicolon true)
      <|> (do
        sign "=" none
        g (.expression 0)
        semicolon true)
      <|> withRole (some .declaration) (g .declaration)

def namedImports : Reading Unit :=
  node .namedImports none do
    mark "\x7b" none
    commaSep (node .importSpecifier none (typeWord do
      (do
        exportedName (some .name)
        word "as" none
        identifier (some .alias)) <|> identifier (some .name)
      lookAhead (mark "," none <|> mark "\x7d" none)))
    optional (sign "," none)
    mark "\x7d" none

def importClause : Reading Unit :=
  node .importClause none do
    let rest : Reading Unit := node .namespaceImport none (do
        sign "*" none
        word "as" none
        identifier none) <|> namedImports
    rest <|> do
      identifier none
      optional do
        sign "," none
        rest

def importStatement (g : Rules) : Reading Unit :=
  node .importStatement none do
    word "import" none
    typeWord
      ((do
        importClause
        fromClause)
      <|> node .importRequireClause none (do
        identifier none
        sign "=" none
        word "require" none
        mark "(" none
        string (some .source)
        mark ")" none)
      <|> string (some .source))
    optional (node .importAttribute none do
      anyWord ["with", "assert"] none
      objectLiteral g)
    semicolon false

def ifStatement (g : Rules) : Reading Unit :=
  node .ifStatement none do
    word "if" none
    withRole (some .condition) (parenthesized g)
    withRole (some .consequence) (g .statement)
    optional (node .elseClause (some .alternative) do
      word "else" none
      g .statement)

-- The statements after a case go up to the next one.
def caseBody (g : Rules) : Reading Unit := do
  sign ":" none
  many do
    never (word "case" none <|> word "default" none)
    withRole (some .body) (g .statement)

def switchStatement (g : Rules) : Reading Unit :=
  node .switchStatement none do
    word "switch" none
    withRole (some .value) (parenthesized g)
    node .switchBody (some .body) do
      mark "\x7b" none
      many (node .switchCase none (do
          word "case" none
          withRole (some .value) (bracketed (g .expressions))
          caseBody g)
        <|> node .switchDefault none (do
          word "default" none
          caseBody g))
      mark "\x7d" none

-- A loop over what a collection holds.
def forInStatement (g : Rules) : Reading Unit :=
  node .forInStatement none do
    word "for" none
    optional (word "await" none)
    mark "(" none
    bracketed do
      (do
        word "var" (some .kindWord)
        withRole (some .left) (binding g)
        optional (initializer g (some .value)))
        <|> (do
          anyWord ["let", "const"] (some .kindWord)
          withRole (some .left) (binding g))
        <|> withRole (some .left) (destructuring g <|> placeExpression g <|> parenthesized g)
      anyWord ["in", "of"] (some .operator)
      withRole (some .right) (g .expressions)
    mark ")" none
    withRole (some .body) (g .statement)

-- An expression up to a semicolon, or the semicolon alone.
def loopPart (g : Rules) (role : Role) : Reading Unit :=
  node .expressionStatement (some role) (do
      g .expressions
      sign ";" none)
    <|> node .emptyStatement (some role) (sign ";" none)

def forStatement (g : Rules) : Reading Unit :=
  forInStatement g <|> node .forStatement none (do
    word "for" none
    mark "(" none
    bracketed do
      withRole (some .initializer) (variableDeclaration g) <|> loopPart g .initializer
      loopPart g .condition
      optional (withRole (some .increment) (g .expressions))
    mark ")" none
    withRole (some .body) (g .statement))

def whileStatement (g : Rules) : Reading Unit :=
  node .whileStatement none do
    word "while" none
    withRole (some .condition) (parenthesized g)
    withRole (some .body) (g .statement)

def doStatement (g : Rules) : Reading Unit :=
  node .doStatement none do
    word "do" none
    withRole (some .body) (g .statement)
    word "while" none
    withRole (some .condition) (parenthesized g)
    optional (semicolon false)

def tryStatement (g : Rules) : Reading Unit :=
  node .tryStatement none do
    word "try" none
    withRole (some .body) (g (.block false))
    optional (node .catchClause (some .handler) do
      word "catch" none
      optional (do
        mark "(" none
        bracketed do
          withRole (some .parameter) (binding g)
          optional (typeClause g (some .typePart))
        mark ")" none)
      withRole (some .body) (g (.block false)))
    optional (node .finallyClause none do
      word "finally" none
      withRole (some .body) (g (.block false)))

def withStatement (g : Rules) : Reading Unit :=
  node .withStatement none do
    word "with" none
    withRole (some .object) (parenthesized g)
    withRole (some .body) (g .statement)

-- A statement that leaves a loop or goes on with its next round.
def jump (kind : Kind) (w : String) : Reading Unit :=
  node kind none do
    word w none
    if ← statementOver false then pure ()
    else optional (wordNode .statementIdentifier (some .label))
    semicolon false

def returnStatement (g : Rules) : Reading Unit :=
  node .returnStatement none do
    word "return" none
    if ← statementOver false then semicolon false
    else
      (do
        g .expressions
        semicolon true) <|> semicolon false

def throwStatement (g : Rules) : Reading Unit :=
  node .throwStatement none do
    word "throw" none
    g .expressions
    semicolon true

def expressionStatement (g : Rules) : Reading Unit :=
  node .expressionStatement none do
    g .expressions
    semicolon true

def labeledStatement (g : Rules) : Reading Unit :=
  node .labeledStatement none do
    wordNode .statementIdentifier (some .label)
    sign ":" none
    withRole (some .body) (g .statement)

def emptyStatement : Reading Unit := node .emptyStatement none (sign ";" none)

def debuggerStatement : Reading Unit :=
  node .debuggerStatement none do
    word "debugger" none
    semicolon false

-- Statements that only look like what their first word starts.
def labeledOrExpression (g : Rules) : Reading Unit := labeledStatement g <|> expressionStatement g

-- The statements whose first word cannot start anything else.
def reservedStatement (g : Rules) (w : String) : Option (Reading Unit) :=
  match w with
  | "export" => some (exportStatement g)
  | "debugger" => some debuggerStatement
  | "if" => some (ifStatement g)
  | "switch" => some (switchStatement g)
  | "for" => some (forStatement g)
  | "while" => some (whileStatement g)
  | "do" => some (doStatement g)
  | "try" => some (tryStatement g)
  | "with" => some (withStatement g)
  | "break" => some (jump .breakStatement w)
  | "continue" => some (jump .continueStatement w)
  | "return" => some (returnStatement g)
  | "throw" => some (throwStatement g)
  | "var" | "const" | "abstract" | "enum" | "interface" => some (g .declaration)
  | _ => none

def statement (g : Rules) : Reading Unit := statementContext do
  let next ← peek
  if next = some ';' then emptyStatement
  else if next = some '\x7b' then g (.block false)
  else if next = some '@' then exportStatement g <|> g .declaration <|> expressionStatement g
  else
    let w ← peekWord
    match reservedStatement g w with
    | some p => p
    | none =>
      if w = "" || w = "namespace" then labeledOrExpression g
      else if w = "import" then importStatement g <|> g .declaration <|> expressionStatement g
      else g .declaration <|> labeledOrExpression g

def block (g : Rules) (afterValue : Bool) : Reading Unit :=
  node .statementBlock none do
    mark "\x7b" none
    statementContext (many (g .statement))
    mark "\x7d" none
    optional (openEnd afterValue false)

end Likeness.Syntax.Grammar
