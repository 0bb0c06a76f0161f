import Likeness.Files.Path

namespace Likeness.Files

-- A file with its text, a link, or a directory with its entries in any order. All names are texts,
-- and contents that are no text are not kept.
inductive Entry where
  | file (text : Option String)
  | link (target : String)
  | directory (entries : List (String × Entry))

namespace Entry

def isDirectory : Entry → Bool
  | .directory _ => true
  | _ => false

def lookup (name : String) : List (String × Entry) → Option Entry
  | [] => none
  | (n, e) :: rest => if n = name then some e else lookup name rest

def put (name : String) (entry : Entry) : List (String × Entry) → List (String × Entry)
  | [] => [(name, entry)]
  | (n, e) :: rest => if n = name then (name, entry) :: rest else (n, e) :: put name entry rest

-- Puts an entry at a path below a directory and makes the directories on the way.
def insert (entry : Entry) : List String → Entry → Entry
  | [], _ => entry
  | name :: path, parent =>
    let entries := match parent with
      | .directory entries => entries
      | _ => []
    let child := (lookup name entries).getD (.directory [])
    let child := match path, entry, child with
      -- a directory that is there already keeps its entries
      | [], .directory [], .directory inside => .directory inside
      | _, _, _ => insert entry path child
    .directory (put name child entries)

mutual

-- The same tree with the entries of each directory in the order of their names.
def sorted : Entry → Entry
  | .directory entries =>
    .directory ((sortedEntries entries).mergeSort fun a b => a.1 ≤ b.1)
  | e => e

def sortedEntries : List (String × Entry) → List (String × Entry)
  | [] => []
  | (name, e) :: rest => (name, sorted e) :: sortedEntries rest

end

end Entry

-- Why a path leads nowhere.
inductive Missing where
  | notFound
  | notADirectory
  | tooManyLinks
  | isADirectory
  | notText
deriving DecidableEq

def Missing.message : Missing → String
  | .notFound => "No such file or directory (os error 2)"
  | .notADirectory => "Not a directory (os error 20)"
  | .tooManyLinks => "Too many levels of symbolic links (os error 40)"
  | .isADirectory => "Is a directory (os error 21)"
  | .notText => "stream did not contain valid UTF-8"

-- Where a path leads: the entry, the directories around it from the inside out, and how many more
-- links may be followed.
structure Spot where
  entry : Entry
  outer : List Entry
  links : Nat

-- How many links are followed on a path.
def linkLimit : Nat := 40

-- The steps of a path as it is written: between slashes, without the first one of a path from the
-- root.
def pathSteps (path : String) : List String :=
  match splitSlashes path with
  | "" :: rest => rest
  | steps => steps

namespace Spot

-- Goes on from a spot. Links on the way are followed by `jump`, a last one only if `follow` holds.
def goOn (jump : Bool → List String → Spot → String → Except Missing Spot) (follow : Bool) :
    List String → Spot → Except Missing Spot
  | [], s => .ok s
  | step :: steps, s =>
    match s.entry with
    | .directory entries =>
      if step = "" || step = "." then goOn jump follow steps s
      else if step = ".." then
        match s.outer with
        | parent :: outer => goOn jump follow steps { s with entry := parent, outer }
        | [] => goOn jump follow steps s
      else
        match Entry.lookup step entries with
        | none => .error .notFound
        | some (.link target) =>
          if steps.isEmpty && !follow then .ok ⟨.link target, s.entry :: s.outer, s.links⟩
          else jump follow steps s target
        | some entry => goOn jump follow steps ⟨entry, s.entry :: s.outer, s.links⟩
    | _ => .error .notADirectory

-- Follows a link in the directory of a spot, then the steps after it. The number bounds the links.
def jump : Nat → Bool → List String → Spot → String → Except Missing Spot
  | 0, _, _, _, _ => .error .tooManyLinks
  | links + 1, follow, steps, s, target =>
    let s := { s with links }
    let start := if target.startsWith "/" then
        match s.outer.getLast? with
        | some root => { s with entry := root, outer := [] }
        | none => s
      else s
    goOn (jump links) follow (pathSteps target ++ steps) start

end Spot

-- All files that can be reached, and the directory that relative paths start from.
structure Disk where
  root : Entry
  current : List String

namespace Disk

-- Where a path leads. A last step that is a link is followed only if `follow` holds.
def find (d : Disk) (follow : Bool) (path : String) : Except Missing Spot :=
  if path = "" then .error .notFound
  else
    let steps := if path.startsWith "/" then pathSteps path else d.current ++ pathSteps path
    Spot.goOn (Spot.jump linkLimit) follow steps ⟨d.root, [], linkLimit⟩

def find? (d : Disk) (path : String) : Option Entry :=
  match d.find true path with
  | .ok s => some s.entry
  | .error _ => none

def isFile (d : Disk) (path : String) : Bool :=
  match d.find? path with
  | some (.file _) => true
  | _ => false

def isDirectory (d : Disk) (path : String) : Bool :=
  match d.find? path with
  | some e => e.isDirectory
  | none => false

-- The text of a file.
def readText (d : Disk) (path : String) : Except Missing String :=
  match d.find true path with
  | .error missing => .error missing
  | .ok s => match s.entry with
    | .file (some text) => .ok text
    | .file none => .error .notText
    | _ => .error .isADirectory

end Disk

end Likeness.Files
