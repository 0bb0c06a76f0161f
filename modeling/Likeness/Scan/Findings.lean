import Likeness.Components.Compare
import Likeness.Modules.Module
import Likeness.Scan.Project

namespace Likeness.Scan

open Duplicates Number Resources Settings

variable {α : Type} [Scalar α]

-- What is found in a scan, by what was compared.
structure Findings (α : Type) where
  functions : List (Finding α)
  modules : List (Finding α)
  documents : List (Finding α)
  values : List (Finding α)
  components : List (Finding α)

namespace Findings

def all (f : Findings α) : List (Finding α) :=
  f.functions ++ f.modules ++ f.documents ++ f.values ++ f.components

def report (f : Findings α) : Duplicates.Report α := (Registry.empty.recordAll f.all).report

end Findings

namespace Material

-- What is found among the functions, if they are asked for.
def functionFindings (c : Config α) (m : Material) : List (Finding α) :=
  if c.categories.functions then FunctionIndex.empty.findings m.functions else []

-- What is found among the modules, if they are asked for, and whether the memory was exceeded.
def moduleFindings (c : Config α) (guard : MemoryGuard) (m : Material) :
    List (Finding α) × Option Exceeded :=
  if c.categories.modules then Modules.compare m.modules c.moduleCutoffPercent guard
  else ([], none)

def documentFindings (c : Config α) (m : Material) : List (Finding α) :=
  if c.categories.resources then
    Resources.documentFindings c.resources (Outcome.kept m.documents)
  else []

def valueFindings (c : Config α) (m : Material) : List (Finding α) :=
  if c.categories.resources then Resources.valueFindings c.resources (Outcome.kept m.documents)
  else []

def componentFindings (c : Config α) (m : Material) : List (Finding α) :=
  if c.categories.components then Components.findings c.components m.components else []

-- What is found in all that is compared, unless the memory is exceeded.
def findings (c : Config α) (guard : MemoryGuard) (m : Material) :
    Except Exceeded (Findings α) :=
  match m.moduleFindings c guard with
  | (_, some e) => .error e
  | (modules, none) =>
    .ok ⟨m.functionFindings c, modules, m.documentFindings c, m.valueFindings c,
      m.componentFindings c⟩

end Material

-- What a scan counted.
structure Summary where
  root : String
  directories : Nat
  codeFiles : Nat
  resourceFiles : Nat
  -- functions that have a shape
  functions : Nat
  components : Nat
  similarModules : Nat
  similarDocuments : Nat
  similarValues : Nat
  similarComponents : Nat
  warnings : List Skipped

-- The counts of a scan and what it passed over.
def Summary.of (root : String) (d : Discovery) (m : Material) (f : Findings α) : Summary :=
  ⟨root, d.directories, d.code.length, d.resources.length, m.functions.length,
    m.components.length, f.modules.length, f.documents.length, f.values.length,
    f.components.length, d.closed.map Closed.skipped ++ m.skipped⟩

end Likeness.Scan
