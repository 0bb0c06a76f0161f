import Likeness.Similarity.Blend
import Likeness.Syntax.Source
import Likeness.Text.Characters

namespace Likeness.Components

open Syntax Number Similarity

inductive InitialKind where
  -- no value, or one that says so
  | missing
  | string
  | number
  | bool
  | null
  | identifier
  | object
  | array
  | other
deriving DecidableEq

def InitialKind.name : InitialKind → String
  | .missing => "missing"
  | .string => "string"
  | .number => "number"
  | .bool => "bool"
  | .null => "null"
  | .identifier => "identifier"
  | .object => "object"
  | .array => "array"
  | .other => "other"

-- A call that sets up a state with its first value.
structure StateHook where
  initialValue : String
  initialKind : InitialKind
  -- the second name of the pair that the call is bound to
  setter : Option String
deriving DecidableEq

-- A call that sets up an effect.
structure EffectHook where
  -- the names the effect depends on, if it says so
  dependencies : Option (List String)
  -- it returns what undoes it
  hasCleanup : Bool
deriving DecidableEq

-- A call of any other hook.
structure CustomHook where
  name : String
  arguments : List String
deriving DecidableEq

structure Hooks where
  state : List StateHook
  effect : List EffectHook
  custom : List CustomHook
deriving DecidableEq

def Hooks.isEmpty (h : Hooks) : Bool := h.state.isEmpty && h.effect.isEmpty && h.custom.isEmpty

-- A hook is named `use` and something that starts with a capital letter.
def isHookName (name : String) : Bool :=
  match name.toList with
  | 'u' :: 's' :: 'e' :: c :: _ => Text.isUppercase c
  | _ => false

-- The name of what is called, without the object it belongs to.
def calleeName? (s : Source) (call : Tree) : Option String :=
  match call.child? .function with
  | some callee =>
    if callee.hasKind .identifier then some (s.textOf callee)
    else if callee.hasKind .memberExpression then (callee.child? .property).map s.textOf
    else none
  | none => none

def argumentsOf (call : Tree) : List Tree :=
  match call.child? .arguments with
  | some arguments => arguments.parts
  | none => []

-- A call of a hook, with the node that it is a part of.
structure HookCall where
  name : String
  parent : Option Tree
  node : Tree

def hookCall? (s : Source) (p : Spot) : Option HookCall :=
  if p.node.hasKind .callExpression then
    ((calleeName? s p.node).filter isHookName).map fun name => ⟨name, p.parent?, p.node⟩
  else none

namespace StateHook

def initial (s : Source) : List Tree → String × InitialKind
  | [] => ("undefined", .missing)
  | argument :: _ =>
    let value := argument.unwrapParens
    match value.kind? with
    | some .string | some .templateString => (s.valueOrText value, .string)
    | some .number => (s.textOf value, .number)
    | some .trueLiteral | some .falseLiteral => (s.textOf value, .bool)
    | some .nullLiteral => (s.textOf value, .null)
    | some .undefinedWord => (s.textOf value, .missing)
    | some .identifier => (s.textOf value, .identifier)
    | some .object => ("object", .object)
    | some .array => ("array", .array)
    | _ => ("unknown", .other)

-- The second of the elements that an array pattern binds, holes left out.
def setter? (s : Source) (parent : Option Tree) : Option String :=
  match (parent.filter (·.hasKind .variableDeclarator)).bind (·.child? .name) with
  | some pattern =>
    if pattern.hasKind .arrayPattern then
      match pattern.parts[1]? with
      | some t => if t.hasKind .identifier then some (s.textOf t) else none
      | none => none
    else none
  | none => none

def ofCall (s : Source) (call : HookCall) : StateHook :=
  let (value, kind) := initial s (argumentsOf call.node)
  ⟨value, kind, setter? s call.parent⟩

end StateHook

namespace EffectHook

def isFunction (t : Tree) : Bool := t.hasKind .arrowFunction || t.hasKind .functionExpression

-- Whether a function returns something, in one of the statements of its block.
def returnsCleanup (callback : Tree) : Bool :=
  if isFunction callback then
    match callback.child? .body with
    | some body =>
      if body.hasKind .statementBlock then
        body.parts.any fun t => t.hasKind .returnStatement && t.firstPart.isSome
      else isFunction body.unwrapParens
    | none => false
  else false

def dependency (s : Source) (t : Tree) : String :=
  if t.hasKind .identifier || t.hasKind .memberExpression then s.textOf t else "unknown"

def dependenciesOf (s : Source) (t : Tree) : List String :=
  let list := t.unwrapParens
  if list.hasKind .array then list.parts.map (dependency s) else ["unknown"]

def ofCall (s : Source) (call : Tree) : EffectHook :=
  let arguments := argumentsOf call
  ⟨arguments[1]?.map (dependenciesOf s),
    match arguments.head? with
    | some callback => returnsCleanup callback.unwrapParens
    | none => false⟩

end EffectHook

-- The calls of hooks at a node and below it, in source order.
def hookCalls (s : Source) (body : Tree) : List HookCall := body.spots.filterMap (hookCall? s)

def Hooks.all (s : Source) (body : Tree) : Hooks :=
  let named (test : String → Bool) : List HookCall := (hookCalls s body).filter (test ·.name)
  ⟨(named (· == "useState")).map (StateHook.ofCall s),
    (named (· == "useEffect")).map fun call => EffectHook.ofCall s call.node,
    (named (fun name => name != "useState" && name != "useEffect")).map fun call =>
      ⟨call.name, (argumentsOf call.node).map s.valueOrText⟩⟩

section Score

variable {α : Type} [Scalar α]

-- What the name of a setter starts with, if it keeps to a custom.
def setterCustom (setter : String) : Option String :=
  ["set", "update", "toggle"].find? fun start => start.toList.isPrefixOf setter.toList

def StateHook.score (a b : StateHook) : α :=
  let value : α :=
    if a.initialKind ≠ b.initialKind then Scalar.zero
    else if a.initialValue = b.initialValue then Scalar.one
    else Scalar.tenths 6
  match a.setter, b.setter with
  | some x, some y =>
    Scalar.tenths 5 * value +
      Scalar.tenths 5 * Scalar.ofBool (setterCustom x == setterCustom y)
  | _, _ => value

-- Dependencies count only if both effects state them.
def EffectHook.score (a b : EffectHook) : α :=
  let cleanup : α := Scalar.ofBool (a.hasCleanup == b.hasCleanup)
  match a.dependencies, b.dependencies with
  | some x, some y => Scalar.tenths 3 * cleanup + Scalar.tenths 7 * jaccard x y
  | _, _ => cleanup

-- The share of equal arguments at the same places.
def CustomHook.score (a b : CustomHook) : α :=
  let longest := max a.arguments.length b.arguments.length
  if a.name ≠ b.name then Scalar.zero
  else if longest = 0 then Scalar.one
  else
    let equal := (a.arguments.zip b.arguments).filter fun (x, y) => x == y
    Scalar.ofNat equal.length / Scalar.ofNat longest

-- How much each sort of hooks counts.
structure HookWeights (α : Type) where
  state : α
  effect : α
  custom : α

def HookWeights.standard : HookWeights α := ⟨Scalar.tenths 4, Scalar.tenths 4, Scalar.tenths 2⟩

def Hooks.score (w : HookWeights α) (a b : Hooks) : α :=
  blend [(w.state, bestMatch StateHook.score a.state b.state),
    (w.effect, bestMatch EffectHook.score a.effect b.effect),
    (w.custom, bestMatch CustomHook.score a.custom b.custom)]

end Score

end Likeness.Components
