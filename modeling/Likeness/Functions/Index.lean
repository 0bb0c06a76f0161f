import Likeness.Duplicates.Registry
import Likeness.Functions.Shape

namespace Likeness

open Duplicates Number Syntax

-- A function of a file with its shape.
structure ShapedFunction where
  file : Files.Path
  name : String
  line : Nat
  shape : Shape
deriving DecidableEq

namespace ShapedFunction

def digest (f : ShapedFunction) : String := Shape.digest f.shape

def occurrence (f : ShapedFunction) : Occurrence := ⟨f.file, .function f.name, some f.line⟩

-- The functions of a file that have a shape, in source order.
def all (s : Source) (file : Files.Path) (least : Nat) : List ShapedFunction :=
  (Function.all s).filterMap fun f =>
    (Shape.ofFunction? least f).map fun shape => ⟨file, f.name, f.line, shape⟩

end ShapedFunction

-- The first function of each shape, under the digest of the shape.
structure FunctionIndex where
  firstSeen : List (String × ShapedFunction)

namespace FunctionIndex

def empty : FunctionIndex := ⟨[]⟩

def size (index : FunctionIndex) : Nat := index.firstSeen.length

def find? (index : FunctionIndex) (digest : String) : Option ShapedFunction :=
  (index.firstSeen.find? (·.1 == digest)).map (·.2)

-- Adds a function, and says what is found if one of its shape was there before. Functions without
-- a name are passed over.
def insert {α : Type} [Scalar α] (index : FunctionIndex) (f : ShapedFunction) :
    FunctionIndex × Option (Finding α) :=
  if f.name = "" then (index, none)
  else
    let digest := f.digest
    match index.find? digest with
    | none => (⟨index.firstSeen ++ [(digest, f)]⟩, none)
    | some first =>
      (index, some ⟨.functions, digest, .function first.name f.shape, Scalar.one,
        [first.occurrence, f.occurrence]⟩)

-- What is found in functions that are added one after the other.
def findings {α : Type} [Scalar α] (index : FunctionIndex) : List ShapedFunction → List (Finding α)
  | [] => []
  | f :: rest =>
    let (next, found) := index.insert f
    match found with
    | some finding => finding :: next.findings rest
    | none => next.findings rest

end FunctionIndex

end Likeness
