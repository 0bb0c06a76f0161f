import Likeness.Scan.Findings
import Likeness.Settings.Check

namespace Likeness.Scan

open Duplicates Files Settings

-- What a scan comes to, what it notes, and how it shows that it goes on.
structure Run (α : Type) where
  result : Except Fatal (Duplicates.Report α × Summary)
  notes : List Note
  progress : List Progress

namespace Run

variable {α : Type}

-- A scan that ends before it has begun.
def refused (f : Fatal) : Run α := ⟨.error f, [], []⟩

def skippedNote (s : Skipped) : Note := ⟨.warn, s!"Skipping {s.path}: {s.message}"⟩

def exceededNote (checkpoint : String) (e : Exceeded) : Note := ⟨.error, e.log checkpoint⟩

-- The notes on the documents: those passed over, and values that are too deep.
def documentNotes (c : Config α) (m : Material) : List Note :=
  (Outcome.skipped m.documents).map skippedNote ++
    if c.categories.resources then
      (Resources.warnings (Outcome.kept m.documents)).map fun text => ⟨.warn, text⟩
    else []

-- The progress while the files of a project are read.
def readingProgress (c : Config α) (root : String) (d : Discovery) : List Progress :=
  (if c.categories.needCode then
    Progress.reading .sources (d.code.map (Walk.below root))
  else []) ++
  if c.categories.resources then
    Progress.reading .resources (d.resources.map (Walk.below root))
  else []

-- The progress while the files are compared.
def comparingProgress (c : Config α) (m : Material) : List Progress :=
  let modules := m.modules
  let components := m.components
  (if c.categories.modules then
    Progress.phase .modules (modules.length * (modules.length - 1) / 2)
      (Progress.pairSteps 0 (modules.map (·.file.text)))
  else []) ++
  if c.categories.components then
    Progress.phase .components components.length
      (Progress.steps 1 (components.map Component.id))
  else []

-- A scan whose walk is over.
def compare (c : Config Float) (guard : MemoryGuard) (root : String) (d : Discovery)
    (m : Material) : Run Float :=
  let codeNotes := (Outcome.skipped m.code).map skippedNote
  match m.findings c guard with
  | .error e =>
    let checkpoint := "module comparison"
    ⟨.error (.memoryLimitExceeded checkpoint e), codeNotes ++ [exceededNote checkpoint e], []⟩
  | .ok f =>
    ⟨.ok (f.report, .of root d m f), codeNotes ++ documentNotes c m,
      readingProgress c root d ++ comparingProgress c m⟩

end Run

-- A scan of the directory at a path.
def scan (disk : Disk) (c : Config Float) (guard : MemoryGuard) (root : String) : Run Float :=
  match c.fault? with
  | some fault => .refused (.invalidConfiguration fault.message)
  | none =>
    if (disk.find? root).isNone then .refused (.pathNotFound root)
    else if !disk.isDirectory root then .refused (.notADirectory root)
    else
      let (events, ruleNotes) := walk disk root c.walkOptions
      match Discovery.exceeded? guard events with
      | some e =>
        let checkpoint := "discovery"
        let notes := (Discovery.beforeCheck events).flatMap WalkEvent.notes
        ⟨.error (.memoryLimitExceeded checkpoint e),
          ruleNotes ++ notes ++ [Run.exceededNote checkpoint e], []⟩
      | none =>
        let found := Discovery.ofEvents events
        let material := (Project.read disk root c.categories found).material c
        let run := Run.compare c guard root found material
        ⟨run.result, ruleNotes ++ events.flatMap WalkEvent.notes ++ run.notes,
          Discovery.progress root events ++ run.progress⟩

end Likeness.Scan
