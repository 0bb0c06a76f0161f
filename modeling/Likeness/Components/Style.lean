import Likeness.Similarity.Blend
import Likeness.Similarity.Score
import Likeness.Syntax.Source
import Likeness.Text.Characters

namespace Likeness.Components

open Syntax Number Similarity

-- A component made of another one or of a tag by adding style to it.
structure StyledComponent where
  name : String
  base : String
  css : String
deriving DecidableEq

structure Styles where
  -- the entries of each style attribute, in ascending order of their names
  inline : List (List (String × String))
  -- each class once, where it comes first
  classNames : List String
  styled : List StyledComponent
deriving DecidableEq

-- Adds an entry to entries in ascending order, in the place of one of the same name.
def insertEntry (name value : String) : List (String × String) → List (String × String)
  | [] => [(name, value)]
  | (n, v) :: rest =>
    if name < n then (name, value) :: (n, v) :: rest
    else if name = n then (name, value) :: rest
    else (n, v) :: insertEntry name value rest

namespace StyledComponent

-- What is styled: the property of `styled`, or what `styled` is called with.
def base? (s : Source) (tag : Tree) : Option String :=
  match tag.kind? with
  | some .memberExpression =>
    match tag.child? .object, tag.child? .property with
    | some object, some property =>
      if s.textOf object = "styled" then some (s.textOf property) else none
    | _, _ => none
  | some .callExpression =>
    match tag.child? .function, (tag.child? .arguments).bind (·.firstPart) with
    | some callee, some wrapped =>
      if s.textOf callee = "styled" then some (s.textOf wrapped) else none
    | _, _ => none
  | _ => none

-- The styled component that a declarator binds: `styled` with a template after it.
def ofDeclarator? (s : Source) (declarator : Tree) : Option StyledComponent :=
  match declarator.child? .name, declarator.child? .value with
  | some name, some call =>
    if call.hasKind .callExpression then
      match call.child? .arguments, (call.child? .function).bind (base? s) with
      | some template, some base =>
        if template.hasKind .templateString then
          some ⟨s.textOf name, base, s.templateText template⟩
        else none
      | _, _ => none
    else none
  | _, _ => none

def ofNode? (s : Source) (t : Tree) : Option StyledComponent :=
  if t.hasKind .variableDeclarator then ofDeclarator? s t else none

-- Nodes whose declarations belong to a function.
def isFunction (t : Tree) : Bool :=
  t.hasKind .arrowFunction || t.hasKind .functionDeclaration || t.hasKind .functionExpression
    || t.hasKind .methodDefinition

-- The styled components of a file that are declared outside of functions, in source order.
def ofFile (s : Source) : List StyledComponent :=
  (Tree.visitOpen isFunction [s.tree]).filterMap (ofNode? s)

end StyledComponent

namespace Styles

def entryOf? (s : Source) (t : Tree) : Option (String × String) :=
  if t.hasKind .pair then
    match t.child? .key, t.child? .value with
    | some key, some value => some (s.valueOrText key, s.valueOrText value)
    | _, _ => none
  else none

-- The entries of a style that is given as an object.
def inlineOf? (s : Source) (value : Tree) : Option (List (String × String)) :=
  if value.hasKind .jsxExpression then
    match value.firstPart with
    | some inner =>
      let object := inner.unwrapParens
      if object.hasKind .object then
        some (List.foldl (fun entries (name, value) => insertEntry name value entries) []
          (object.parts.filterMap (entryOf? s)))
      else none
    | none => none
  else none

-- The classes of a class attribute, if it is given as a string.
def classesOf (s : Source) (value : Tree) : List String :=
  let literal := if value.hasKind .jsxExpression then
      value.firstPart.bind fun inner => s.stringValue inner.unwrapParens
    else s.stringValue value
  match literal with
  | some text => Text.words text
  | none => []

-- An attribute with a value.
def attribute? (s : Source) (t : Tree) : Option (String × Tree) :=
  if t.hasKind .jsxAttribute then
    match t.parts with
    | name :: value :: _ => some (s.textOf name, value)
    | _ => none
  else none

def isClassAttribute (name : String) : Bool := name == "className" || name == "class"

-- What a function and all inside of it is styled by.
def all (s : Source) (function : Tree) : Styles :=
  let nodes := function.descendants
  let attributes := nodes.filterMap (attribute? s)
  ⟨(attributes.filter fun a => a.1 == "style").filterMap fun a => inlineOf? s a.2,
    ((attributes.filter fun a => isClassAttribute a.1).flatMap fun a => classesOf s a.2).eraseDups,
    nodes.filterMap (StyledComponent.ofNode? s)⟩

end Styles

section Score

variable {α : Type} [Scalar α]

-- Absent where neither side has an entry.
def inlineScore (as bs : List (List (String × String))) : Option α :=
  let entries (maps : List (List (String × String))) : List String :=
    maps.flatten.map fun (name, value) => name ++ ":" ++ value
  if (entries as).isEmpty && (entries bs).isEmpty then none
  else some (jaccard (entries as) (entries bs))

def classScore (as bs : List String) : Option α :=
  if as.isEmpty && bs.isEmpty then none else some (jaccard as bs)

def compact (css : String) : String := String.ofList (css.toList.filter (!Text.isBlank ·))

-- The mean over all pairs that style the same.
def styledScore (as bs : List StyledComponent) : Option α :=
  if as.isEmpty && bs.isEmpty then none
  else
    let scores : List α := as.flatMap fun a =>
      (bs.filter (·.base == a.base)).map fun b => ofStrings (compact a.css) (compact b.css)
    if scores.isEmpty then some Scalar.zero
    else some (Scalar.sum scores / Scalar.ofNat scores.length)

-- How much each sort of styles counts.
structure StyleWeights (α : Type) where
  inline : α
  classNames : α
  styled : α

def StyleWeights.standard : StyleWeights α := ⟨Scalar.tenths 4, Scalar.tenths 4, Scalar.tenths 2⟩

def Styles.score (w : StyleWeights α) (a b : Styles) : α :=
  if a = b then Scalar.one
  else
    blend [(w.inline, inlineScore a.inline b.inline),
      (w.classNames, classScore a.classNames b.classNames),
      (w.styled, styledScore a.styled b.styled)]

end Score

end Likeness.Components
