import Likeness.Settings.Config

namespace Likeness.Command

open Settings

-- The forms of a report.
inductive Output where
  | text
  | json
deriving DecidableEq

def Output.name : Output → String
  | .text => "text"
  | .json => "json"

def Output.ofName? (name : String) : Option Output :=
  [Output.text, .json].find? (·.name == name)

-- What holds for all commands.
structure CommonOptions where
  verbose : Nat
  quiet : Bool
  noColor : Bool
  jsonErrors : Bool

-- What a scan is asked to do. Numbers that are not given are those of the settings.
structure ScanOptions where
  path : String
  output : Output
  configFile : Option String
  minFunctionLines : Option Nat
  ioThreads : Option Nat
  memoryLimitMb : Option Nat
  ignorePatterns : List String
  includePackageFiles : Bool
  skipHidden : Bool
  noFunctions : Bool
  noModules : Bool
  noResources : Bool
  noComponents : Bool

-- Which settings are to be shown.
structure ConfigOptions where
  path : String
  configFile : Option String
  -- the standard settings, whatever the files say
  defaults : Bool

inductive Task where
  | scan (o : ScanOptions)
  | config (o : ConfigOptions)

structure Invocation where
  common : CommonOptions
  task : Task

namespace ScanOptions

-- Kinds of duplicates can be left out, but not brought back.
def restrict (o : ScanOptions) (t : Toggles) : Toggles :=
  ⟨t.functions && !o.noFunctions, t.modules && !o.noModules, t.resources && !o.noResources,
    t.components && !o.noComponents⟩

-- The settings as a scan changes them. Patterns are added to those of the settings.
def apply {α : Type} (o : ScanOptions) (c : Config α) : Config α :=
  { c with
    minFunctionLines := o.minFunctionLines.getD c.minFunctionLines
    ioThreads := o.ioThreads.getD c.ioThreads
    memoryLimitMb := o.memoryLimitMb.getD c.memoryLimitMb
    ignorePatterns := c.ignorePatterns ++ o.ignorePatterns
    excludePackageFiles := c.excludePackageFiles && !o.includePackageFiles
    skipHidden := c.skipHidden || o.skipHidden
    categories := o.restrict c.categories }

end ScanOptions

end Likeness.Command
