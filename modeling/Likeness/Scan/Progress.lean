namespace Likeness.Scan

-- The phases of a scan, in the order they come in.
inductive Phase where
  | walking
  | sources
  | resources
  | modules
  | components
deriving DecidableEq

def Phase.name : Phase → String
  | .walking => "walking"
  | .sources => "sources"
  | .resources => "resources"
  | .modules => "modules"
  | .components => "components"

-- How a scan shows that it goes on. A phase starts with the number of its items, or with zero if
-- that is not known.
inductive Progress where
  | start (phase : Phase) (total : Nat)
  | step (current : Nat) (path : String)
  | finish (phase : Phase)
  | message (text : String)
deriving DecidableEq

namespace Progress

-- A step for each path, counted from a number on.
def steps (first : Nat) : List String → List Progress
  | [] => []
  | path :: rest => .step first path :: steps (first + 1) rest

-- A phase from its start to its end.
def phase (phase : Phase) (total : Nat) (inside : List Progress) : List Progress :=
  .start phase total :: inside ++ [.finish phase]

-- A phase that deals with some files one after the other.
def reading (p : Phase) (files : List String) : List Progress :=
  phase p files.length (steps 1 files)

-- The steps of a comparison of all pairs: after each file, how many pairs have been compared. The
-- number is how many there were before.
def pairSteps (compared : Nat) : List String → List Progress
  | [] => []
  | file :: rest =>
    .step (compared + rest.length) file :: pairSteps (compared + rest.length) rest

end Progress

end Likeness.Scan
