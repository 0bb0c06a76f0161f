import Likeness.Components.Component
import Likeness.Functions.Index
import Likeness.Resources.Document
import Likeness.Resources.Read
import Likeness.Scan.Discovery
import Likeness.Settings.Config

namespace Likeness.Scan

open Files Resources Settings Syntax

-- A file, or why it is passed over.
abbrev Outcome (β : Type) := Except Skipped β

namespace Outcome

-- What was understood.
def kept {β : Type} (outcomes : List (Outcome β)) : List β := outcomes.filterMap Except.toOption

def skipped? {β : Type} : Outcome β → Option Skipped
  | .ok _ => none
  | .error s => some s

-- What was passed over.
def skipped {β : Type} (outcomes : List (Outcome β)) : List Skipped := outcomes.filterMap skipped?

end Outcome

-- A code file that was understood.
structure SourceFile where
  file : Files.Path
  source : Source

-- The files of a project, each kind in the order of the walk.
structure Project where
  code : List (Outcome SourceFile)
  documents : List (Outcome Document)

namespace Project

-- The text of a file, which is reported under another path.
def textOf (d : Disk) (path file : String) : Outcome String :=
  match d.readText path with
  | .ok text => .ok text
  | .error missing => .error (.unreadable file missing.message)

def readSource (d : Disk) (path file : String) : Outcome SourceFile :=
  match textOf d path file with
  | .error s => .error s
  | .ok text =>
    let dialect := (dialectOf path).getD .tsx
    match Source.parse? dialect text with
    | some source => .ok ⟨file, source⟩
    | none => .error (.malformedSource file (malformed dialect text).place)

def readDocument (d : Disk) (path file : String) : Outcome Document :=
  match textOf d path file with
  | .error s => .error s
  | .ok text =>
    match Resources.read file text with
    | .ok value => .ok ⟨file, value⟩
    | .error s => .error s

-- The files that a walk found below a root, as far as they are of use.
def read (d : Disk) (root : String) (use : Toggles) (found : Discovery) : Project :=
  ⟨if use.needCode then
      found.code.map fun path => readSource d path (Walk.below root path)
    else [],
    if use.resources then
      found.resources.map fun path => readDocument d path (Walk.below root path)
    else []⟩

end Project

-- What is compared of a code file.
structure CodeFile where
  file : Files.Path
  functions : List ShapedFunction
  components : List Component

-- What is compared in a scan.
structure Material where
  code : List (Outcome CodeFile)
  documents : List (Outcome Document)

variable {α : Type}

-- What a source file gives under some settings.
def SourceFile.describe (c : Config α) (f : SourceFile) : CodeFile :=
  ⟨f.file, ShapedFunction.all f.source f.file c.minFunctionLines,
    if c.categories.components then Component.all f.source f.file else []⟩

-- What a project gives under some settings.
def Project.material (c : Config α) (p : Project) : Material :=
  ⟨p.code.map (·.map (·.describe c)), p.documents⟩

namespace Material

def functions (m : Material) : List ShapedFunction := (Outcome.kept m.code).flatMap (·.functions)

def components (m : Material) : List Component := (Outcome.kept m.code).flatMap (·.components)

-- All code files as modules, those that were passed over among them.
def modules (m : Material) : List Module :=
  m.code.map fun
    | .ok f => .ofFunctions f.file f.functions
    | .error s => .unparsed s.path

-- What was passed over.
def skipped (m : Material) : List Skipped :=
  Outcome.skipped m.code ++ Outcome.skipped m.documents

end Material

end Likeness.Scan
