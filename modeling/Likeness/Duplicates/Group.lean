import Likeness.Digest.Blake3
import Likeness.Files.Path
import Likeness.Json.Value
import Likeness.Number.Scalar

namespace Likeness.Duplicates

open Number

-- What is found twice.
inductive Category where
  | functions
  | modules
  | resources
  | components
deriving DecidableEq

namespace Category

def all : List Category := [.functions, .modules, .resources, .components]

def name : Category → String
  | .functions => "functions"
  | .modules => "modules"
  | .resources => "resources"
  | .components => "components"

end Category

-- Where in a file something is found.
inductive Locator where
  | function (name : String)
  -- keys with points between them; none for a whole document
  | keyPath (path : String)
  | component (name : String)
  | module
deriving DecidableEq

def Locator.text : Locator → String
  | .function name => s!"function {name}"
  | .keyPath path => if path = "" then "document" else s!"key {path}"
  | .component name => s!"component {name}"
  | .module => "module"

structure Occurrence where
  file : Files.Path
  locator : Locator
  line : Option Nat
deriving DecidableEq

-- Whether two occurrences are in one place. Lines do not count.
def Occurrence.sameSite (a b : Occurrence) : Bool :=
  a.file.steps == b.file.steps && a.locator == b.locator

-- What the members of a group are like.
inductive Representative (α : Type) where
  | function (name : String) (shape : List String)
  | module (percent : α)
  | value (value : Json.Value)
  | component (name : String) (props element : α)

-- Places that were found to be alike.
structure Group (α : Type) where
  category : Category
  key : String
  representative : Representative α
  -- the highest score of any two members
  similarity : α
  -- each place once, in the order they were found
  occurrences : List Occurrence

namespace Group

variable {α : Type} [Scalar α]

def make (category : Category) (key : String) (representative : Representative α)
    (similarity : α) : Group α :=
  ⟨category, key, representative, Scalar.limit similarity, []⟩

def has (g : Group α) (o : Occurrence) : Bool := g.occurrences.any (·.sameSite o)

-- Adds a place unless it is there already.
def merge (g : Group α) (o : Occurrence) : Group α :=
  if g.has o then g else { g with occurrences := g.occurrences ++ [o] }

def mergeAll (g : Group α) (os : List Occurrence) : Group α := os.foldl merge g

def observe (g : Group α) (similarity : α) : Group α :=
  let seen := Scalar.limit similarity
  if Scalar.lt g.similarity seen then { g with similarity := seen } else g

def size (g : Group α) : Nat := g.occurrences.length

def isDuplicate (g : Group α) : Bool := 1 < g.size

-- The files of a group as they are shown, each once.
def files (g : Group α) : List String :=
  let once := (g.occurrences.map (·.file)).foldl
    (fun files file =>
      if files.any (·.steps == file.steps) then files else files ++ [file]) ([] : List Files.Path)
  once.map Files.Path.text

end Group

-- A name for an unordered pair of texts without null characters.
def pairKey (a b : String) : String :=
  let (first, second) := if b < a then (b, a) else (a, b)
  Digest.blake3 (first.toUTF8 ++ ByteArray.mk #[0] ++ second.toUTF8)

end Likeness.Duplicates
