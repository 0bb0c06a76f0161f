import Likeness.Functions.Index
import Likeness.Scan.Memory

namespace Likeness

open Duplicates Number

-- A file as the set of the shapes of its functions.
structure Module where
  file : Files.Path
  -- the digests of the shapes, each once
  bodies : List String
  -- false if the file was not understood; then there are no bodies
  parsed : Bool

namespace Module

def ofFunctions (file : Files.Path) (functions : List ShapedFunction) : Module :=
  ⟨file, (functions.map ShapedFunction.digest).eraseDups, true⟩

def unparsed (file : Files.Path) : Module := ⟨file, [], false⟩

variable {α : Type} [Scalar α]

-- Twice the number of common bodies as a share of the number of bodies of both.
def similarity (a b : Module) : α :=
  let total := a.bodies.length + b.bodies.length
  if !a.parsed || !b.parsed || total == 0 then Scalar.zero
  else
    let shared := (a.bodies.filter b.bodies.contains).length
    Scalar.ofNat (2 * shared) / Scalar.ofNat total

-- A score as a percentage with one place.
def percent (similarity : α) : α :=
  Scalar.round (similarity * Scalar.ofNat 1000) / Scalar.ofNat 10

end Module

-- All pairs of a list, each member with all after it.
def orderedPairs {β : Type} : List β → List (β × β)
  | [] => []
  | a :: rest => rest.map (fun b => (a, b)) ++ orderedPairs rest

namespace Modules

variable {α : Type} [Scalar α]

-- How many pairs are compared between two looks at the memory.
def checkInterval : Nat := 1000

-- What is found for a pair whose percentage is not below the cutoff. The key is made of the names
-- as they are shown, the places are the files as they are.
def finding? (cutoff : α) (pair : Module × Module) : Option (Finding α) :=
  let score : α := Module.similarity pair.1 pair.2
  let percent := Module.percent score
  if Scalar.lt percent cutoff then none
  else
    some ⟨.modules, pairKey pair.1.file.text pair.2.file.text, .module percent, score,
      [⟨pair.1.file, .module, none⟩, ⟨pair.2.file, .module, none⟩]⟩

-- Compares all pairs. If the memory is found exceeded, only the pairs before the first look at it
-- count.
def compare (modules : List Module) (cutoff : α) (guard : Scan.MemoryGuard) :
    List (Finding α) × Option Scan.Exceeded :=
  let pairs := orderedPairs modules
  match guard.check with
  | some exceeded =>
    if checkInterval ≤ pairs.length then
      ((pairs.take (checkInterval - 1)).filterMap (finding? cutoff), some exceeded)
    else (pairs.filterMap (finding? cutoff), none)
  | none => (pairs.filterMap (finding? cutoff), none)

end Modules

end Likeness
