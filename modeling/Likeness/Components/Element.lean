import Likeness.Similarity.Blend
import Likeness.Syntax.Source

namespace Likeness.Components

open Syntax Number Similarity

-- An attribute of an element. The value is known only where it is written as a string.
structure Attribute where
  name : String
  value : Option String
deriving DecidableEq

-- An element with the elements directly inside of it. Text and expressions are left out.
inductive Element where
  | mk (tag : String) (attributes : List Attribute) (children : List Element)

namespace Element

def tag : Element → String
  | mk tag _ _ => tag

def attributes : Element → List Attribute
  | mk _ attributes _ => attributes

def children : Element → List Element
  | mk _ _ children => children

mutual

-- The tags of an element and of all elements below it, parents first.
def tags : Element → List String
  | mk tag _ children => tag :: tagsOf children

def tagsOf : List Element → List String
  | [] => []
  | e :: rest => e.tags ++ tagsOf rest

end

-- How many levels of elements below the outermost one are kept.
def depthLimit : Nat := 64

def isElement (t : Tree) : Bool := t.hasKind .jsxElement || t.hasKind .jsxSelfClosingElement

def attributeOf (s : Source) (t : Tree) : Attribute :=
  match t.parts with
  | [] => ⟨"", none⟩
  | [name] => ⟨s.textOf name, none⟩
  | name :: value :: _ => ⟨s.textOf name, s.stringValue value⟩

-- The tag with the name and the attributes.
def openingTag (t : Tree) : Option Tree := if t.hasKind .jsxElement then t.child? .openTag else some t

def tagOf (s : Source) (opening : Option Tree) : String :=
  match opening.bind (·.child? .name) with
  | some name => s.textOf name
  | none => "Fragment"

def attributesOf (s : Source) : Option Tree → List Attribute
  | some opening => (opening.parts.filter (·.hasKind .jsxAttribute)).map (attributeOf s)
  | none => []

-- The elements directly below an element.
def elementsIn (t : Tree) : List Tree :=
  if t.hasKind .jsxElement then t.parts.filter isElement else []

-- The element that a node stands for, with at most so many levels below it.
def ofTree (s : Source) : Nat → Tree → Element
  | 0, t => mk (tagOf s (openingTag t)) (attributesOf s (openingTag t)) []
  | levels + 1, t =>
    mk (tagOf s (openingTag t)) (attributesOf s (openingTag t))
      ((elementsIn t).map (ofTree s levels))

section Score

variable {α : Type} [Scalar α]

-- Four parts for the tag, three for the attributes and three for the elements inside.
def blendElement (attributes children : α) : α :=
  Scalar.tenths 4 + Scalar.tenths 3 * attributes + Scalar.tenths 3 * children

mutual

-- Elements with different tags have nothing in common. Elements inside are paired by place.
def score : Element → Element → α
  | mk tag attributes children, other =>
    if tag ≠ other.tag then Scalar.zero
    else
      let inside : α :=
        if children.isEmpty && other.children.isEmpty then Scalar.one
        else
          Scalar.sum (pairScores children other.children) /
            Scalar.ofNat (max children.length other.children.length)
      blendElement (sharedPart attributes other.attributes) inside

def pairScores : List Element → List Element → List α
  | a :: as, b :: bs => score a b :: pairScores as bs
  | _, _ => []

end

end Score

end Element

end Likeness.Components
