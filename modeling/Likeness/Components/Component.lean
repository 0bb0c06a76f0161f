import Likeness.Components.Element
import Likeness.Components.Hook
import Likeness.Components.Style
import Likeness.Files.Path
import Likeness.Functions.Shape

namespace Likeness

open Syntax

namespace Components

-- A property that a component takes out of its first parameter.
structure Property where
  name : String
  -- no default is given
  required : Bool
  standard : Option String
deriving DecidableEq

namespace Property

def make (name : String) (standard : Option String) : Property :=
  ⟨name, standard.isNone, standard⟩

-- The property that an entry of an object pattern takes out; a rest takes out none.
def ofPart? (s : Source) (entry : Tree) : Option Property :=
  match entry.kind? with
  | some .shorthandPropertyIdentifierPattern => some (make (s.textOf entry) none)
  | some .objectAssignmentPattern =>
    (entry.child? .left).map fun name =>
      make (s.textOf name) ((entry.child? .right).map s.valueOrText)
  | some .pairPattern =>
    (entry.child? .key).map fun key =>
      let standard := match entry.child? .value with
        | some value =>
          if value.hasKind .assignmentPattern then (value.child? .right).map s.valueOrText else none
        | none => none
      make (s.valueOrText key) standard
  | _ => none

-- The object pattern that the first parameter is taken apart by.
def pattern? (params : Tree) : Option Tree :=
  let first := if params.hasKind .formalParameters then params.firstPart else some params
  match first with
  | some t =>
    if t.hasKind .objectPattern then some t
    else if t.hasKind .requiredParameter || t.hasKind .optionalParameter then
      (t.child? .pattern).filter (·.hasKind .objectPattern)
    else none
  | none => none

def all (s : Source) (params : Option Tree) : List Property :=
  match params.bind pattern? with
  | some pattern => pattern.parts.filterMap (ofPart? s)
  | none => []

end Property

end Components

-- A function that returns an element, and what is compared of it.
structure Component where
  file : Files.Path
  name : String
  line : Nat
  props : List Components.Property
  element : Components.Element
  hooks : Components.Hooks
  styles : Components.Styles

namespace Component

open Components

def id (c : Component) : String := c.file.text ++ "#" ++ c.name

-- The element that a function returns: its expression, or what the first return in its block gives.
def returned? (f : Function) : Option Tree :=
  match f.body with
  | some body =>
    let value := if body.hasKind .statementBlock then
        ((body.parts.find? (·.hasKind .returnStatement)).bind (·.firstPart)).map Tree.unwrapParens
      else some body.unwrapParens
    value.filter Element.isElement
  | none => none

-- A styled component of the file belongs to a component that has an element of that name and
-- declares no styled component of that name itself.
def addStyled (tags : List String) (styled : List StyledComponent) :
    List StyledComponent → List StyledComponent
  | [] => styled
  | declared :: rest =>
    if !styled.any (·.name == declared.name) && tags.contains declared.name then
      addStyled tags (styled ++ [declared]) rest
    else addStyled tags styled rest

def ofFunction? (s : Source) (file : Files.Path) (declared : List StyledComponent) (f : Function) :
    Option Component :=
  match returned? f, f.body with
  | some returned, some body =>
    let element := Element.ofTree s Element.depthLimit returned
    let styles := Styles.all s f.node
    some ⟨file, f.name, f.line, Property.all s f.params, element, Hooks.all s body,
      { styles with styled := addStyled element.tags styles.styled declared }⟩
  | _, _ => none

-- All components of a file, in source order.
def all (s : Source) (file : Files.Path) : List Component :=
  (Function.all s).filterMap (ofFunction? s file (StyledComponent.ofFile s))

end Component

end Likeness
