import Likeness.Scan.Progress
import Likeness.Scan.Walk

namespace Likeness.Scan

open Files

-- What a walk comes by, put together.
structure Discovery where
  directories : Nat
  code : List String
  resources : List String
  closed : List Closed

namespace Discovery

def isDirectory : WalkEvent → Bool
  | .directory _ => true
  | _ => false

-- The path of a file of a kind.
def fileOf? (kind : FileKind) : WalkEvent → Option String
  | .file path k => if k = kind then some path else none
  | _ => none

def closedOf? : WalkEvent → Option Closed
  | .closed why => some why
  | _ => none

def ofEvents (events : List WalkEvent) : Discovery :=
  ⟨(events.filter isDirectory).length, events.filterMap (fileOf? .code),
    events.filterMap (fileOf? .resource), events.filterMap closedOf?⟩

-- The events up to where the memory is looked at for the first time: the first directory.
def beforeCheck (events : List WalkEvent) : List WalkEvent := events.takeWhile (!isDirectory ·)

-- What happens when the memory is found exceeded on the way, which is looked at in each directory.
def exceeded? (guard : MemoryGuard) (events : List WalkEvent) : Option Exceeded :=
  if events.any isDirectory then guard.check else none

-- The progress of a walk, with a step for each file.
def progress (root : String) (events : List WalkEvent) : List Progress :=
  Progress.phase .walking 0 (.message s!"Walking {root}" :: Progress.steps 1
    (events.filterMap fun
      | .file path _ => some path
      | _ => none))

end Discovery

end Likeness.Scan
