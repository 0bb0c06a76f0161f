import Likeness.Scan.Run
import Mathlib.Logic.Relation

namespace Likeness.Scan

open Files Settings

-- What has become of a file that is to be read. A file is counted once it was read, and shown under
-- its number after that.
inductive Job where
  | waiting
  | counted (current : Nat)
  | shown

-- Workers that read files beside one another: how many files they have counted together, what has
-- become of each file, and what was shown.
structure Workers where
  counted : Nat
  jobs : List (String × Job)
  progress : List Progress

namespace Workers

def start (files : List String) : Workers := ⟨0, files.map fun file => (file, .waiting), []⟩

-- What one of the workers does next. Between counting a file and showing it, others may count and
-- show theirs.
inductive Step : Workers → Workers → Prop where
  | count (counted : Nat) (before after : List (String × Job)) (file : String)
    (progress : List Progress) :
    Step ⟨counted, before ++ (file, .waiting) :: after, progress⟩
      ⟨counted + 1, before ++ (file, .counted (counted + 1)) :: after, progress⟩
  | tell (counted current : Nat) (before after : List (String × Job)) (file : String)
    (progress : List Progress) :
    Step ⟨counted, before ++ (file, .counted current) :: after, progress⟩
      ⟨counted, before ++ (file, .shown) :: after, progress ++ [.step current file]⟩

-- Whether workers may show some progress from the start until all files are shown.
def MayShow (files : List String) (progress : List Progress) : Prop :=
  ∃ w, Relation.ReflTransGen Step (start files) w ∧ (∀ job ∈ w.jobs, job.2 = .shown) ∧
    w.progress = progress

end Workers

namespace Run

-- Whether a phase in which workers read some files may show some progress: none if it is left out.
def MayShowReading (use : Bool) (p : Phase) (files : List String) (progress : List Progress) :
    Prop :=
  if use then
    ∃ inside, Workers.MayShow files inside ∧ progress = Progress.phase p files.length inside
  else progress = []

end Run

-- Whether a scan of the directory at a path that comes to something may show some progress. Only
-- the workers leave more than one way.
def MayShow (disk : Disk) (c : Config Float) (root : String) (progress : List Progress) : Prop :=
  let events := (walk disk root c.walkOptions).1
  let found := Discovery.ofEvents events
  let material := (Project.read disk root c.categories found).material c
  ∃ sources resources,
    Run.MayShowReading c.categories.needCode .sources (found.code.map (Walk.below root)) sources ∧
    Run.MayShowReading c.categories.resources .resources (found.resources.map (Walk.below root))
      resources ∧
    progress = Discovery.progress root events ++
      (sources ++ resources ++ Run.comparingProgress c material)

end Likeness.Scan
