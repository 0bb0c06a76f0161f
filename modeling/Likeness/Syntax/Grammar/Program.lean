import Likeness.Syntax.Grammar.Statement

namespace Likeness.Syntax.Grammar

open Reading

-- The table of the rules, with their references to each other left open.
def step (g : Rules) : Rules
  | .expression level => expression g level
  | .expressions => expressions g
  | .typeExpression => typeExpression g
  | .primaryType => primaryType g
  | .typeArguments => typeArguments g
  | .typeParameters => typeParameters g
  | .objectType => objectType g
  | .pattern => pattern g
  | .formalParameters => formalParameters g
  | .callSignature => callSignature g
  | .block afterValue => block g afterValue
  | .statement => statement g
  | .declaration => declaration g
  | .classBody => classBody g
  | .markup => markup g
  | .templateString => templateString g

-- The rules with at most so many references followed in a row.
def rules : Nat → Rules
  | 0, _ => refuse
  | depth + 1, rule => step (rules depth) rule

-- The line that names an interpreter, at the start of a file.
def hashBangLine : Reading Unit := do
  let c ← context
  let s ← state
  if standsAt c.chars ['#', '!'] s.pos then
    take (skipWhile c.chars (· ≠ '\n') s.pos) (.node .hashBangLine none · [])
    settle
  else refuse

-- A whole file.
def program (g : Rules) : Reading Unit :=
  node .program none do
    settle
    optional hashBangLine
    many (g .statement)
    match ← peek with
    | none => pure ()
    | some _ => refuse

-- No rule refers to more than a few others before it reads a character.
def depthFor (size : Nat) : Nat := 32 * (size + 2)

end Likeness.Syntax.Grammar
