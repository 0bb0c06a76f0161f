import Likeness.Duplicates.Group

namespace Likeness.Duplicates

open Number

variable {α : Type} [Scalar α]

-- All that is said about one group at a time.
structure Finding (α : Type) where
  category : Category
  key : String
  representative : Representative α
  similarity : α
  occurrences : List Occurrence

-- The groups of one category in the order they were first found, and where among them the group of
-- each key stands.
structure Shelf (α : Type) where
  groups : List (Group α)
  places : List (String × Nat)

-- The groups of each category.
structure Registry (α : Type) where
  functions : Shelf α
  modules : Shelf α
  resources : Shelf α
  components : Shelf α

namespace Finding

def firstGroup (f : Finding α) : Group α := .make f.category f.key f.representative f.similarity

def addTo (f : Finding α) (g : Group α) : Group α :=
  (g.observe f.similarity).mergeAll f.occurrences

end Finding

namespace Shelf

def empty : Shelf α := ⟨[], []⟩

-- Where the group of a key stands, if there is one.
def place? (s : Shelf α) (key : String) : Option Nat := s.places.lookup key

-- Where the group of a finding stands, after it is made if it is not there.
def entry (s : Shelf α) (f : Finding α) : Shelf α × Nat :=
  match s.place? f.key with
  | some place => (s, place)
  | none =>
    (⟨s.groups ++ [f.firstGroup], (f.key, s.groups.length) :: s.places⟩, s.groups.length)

-- Adds a finding to the group of its key. Also gives the number of places that are new.
def record (s : Shelf α) (f : Finding α) : Shelf α × Nat :=
  let (shelf, place) := s.entry f
  match shelf.groups[place]? with
  | some g =>
    let merged := f.addTo g
    (⟨shelf.groups.set place merged, shelf.places⟩, merged.size - g.size)
  | none => (shelf, 0)

-- What a report takes of a shelf: its groups with at least two places, the most similar resources
-- first.
def taken (s : Shelf α) (category : Category) : List (Group α) :=
  let kept := s.groups.filter Group.isDuplicate
  if category = .resources then
    kept.mergeSort fun a b => Scalar.totalLe b.similarity a.similarity
  else kept

end Shelf

namespace Registry

def empty : Registry α := ⟨.empty, .empty, .empty, .empty⟩

def shelf (r : Registry α) : Category → Shelf α
  | .functions => r.functions
  | .modules => r.modules
  | .resources => r.resources
  | .components => r.components

def withShelf (r : Registry α) (shelf : Shelf α) : Category → Registry α
  | .functions => { r with functions := shelf }
  | .modules => { r with modules := shelf }
  | .resources => { r with resources := shelf }
  | .components => { r with components := shelf }

-- All groups of a category, whether or not they are shown.
def groups (r : Registry α) (category : Category) : List (Group α) := (r.shelf category).groups

-- Records a finding and counts the places it adds.
def record (r : Registry α) (f : Finding α) : Registry α × Nat :=
  let (shelf, added) := (r.shelf f.category).record f
  (r.withShelf shelf f.category, added)

def recordAll (r : Registry α) (findings : List (Finding α)) : Registry α :=
  findings.foldl (fun r f => (r.record f).1) r

def contains (r : Registry α) (category : Category) (key : String) : Bool :=
  ((r.shelf category).place? key).isSome

-- The groups that are shown: those with at least two places. The most similar resources come
-- first.
def view (r : Registry α) (category : Category) : List (Group α) :=
  let shown := (r.groups category).filter Group.isDuplicate
  match category with
  | .resources => shown.mergeSort fun a b => Scalar.totalLe b.similarity a.similarity
  | _ => shown

end Registry

-- The groups that are reported, by category.
structure Report (α : Type) where
  functions : List (Group α)
  modules : List (Group α)
  resources : List (Group α)
  components : List (Group α)

def Registry.report (r : Registry α) : Report α :=
  ⟨r.functions.taken .functions, r.modules.taken .modules, r.resources.taken .resources,
    r.components.taken .components⟩

namespace Report

def groups (r : Report α) : Category → List (Group α)
  | .functions => r.functions
  | .modules => r.modules
  | .resources => r.resources
  | .components => r.components

def total (r : Report α) : Nat := Category.all.foldl (fun n c => n + (r.groups c).length) 0

def isEmpty (r : Report α) : Bool := r.total == 0

end Report

end Likeness.Duplicates
