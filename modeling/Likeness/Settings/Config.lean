import Likeness.Components.Compare
import Likeness.Json.Value
import Likeness.Settings.Decode
import Likeness.Similarity.Options

namespace Likeness.Settings

open Components Similarity

-- Which kinds of duplicates are looked for.
structure Toggles where
  functions : Bool
  modules : Bool
  resources : Bool
  components : Bool
deriving DecidableEq

-- Whether any code file has to be read.
def Toggles.needCode (t : Toggles) : Bool := t.functions || t.modules || t.components

-- All settings of a scan.
structure Config (α : Type) where
  -- the fewest statements of a block that has a shape
  minFunctionLines : Nat
  ioThreads : Nat
  -- the memory ceiling; zero is none
  memoryLimitMb : Nat
  excludePackageFiles : Bool
  ignoreDirs : List String
  ignorePatterns : List String
  skipHidden : Bool
  moduleCutoffPercent : α
  categories : Toggles
  resources : Options α
  components : ComponentOptions α

-- What a walk through a directory leaves out.
structure WalkOptions where
  followSymlinks : Bool
  skipHidden : Bool
  ignoreDirs : List String
  ignorePatterns : List String
  excludePackageFiles : Bool

namespace WalkOptions

def standardDirs : List String := ["node_modules", ".next", "build", "dist", ".git"]

def standard : WalkOptions := ⟨false, false, standardDirs, [], true⟩

end WalkOptions

namespace Config

def standard {α : Type} [Number.Scalar α] : Config α :=
  ⟨3, 4, 2048, true, WalkOptions.standardDirs, [], false,
    Number.Scalar.ofNat 667 / Number.Scalar.ofNat 10, ⟨true, true, true, true⟩, .standard,
    .standard⟩

def walkOptions {α : Type} (c : Config α) : WalkOptions :=
  ⟨false, c.skipHidden, c.ignoreDirs, c.ignorePatterns, c.excludePackageFiles⟩

end Config

def thresholdFields : List (Field (Thresholds Float)) :=
  [field "string" decodeDouble fun t x => { t with string := x },
    field "number" decodeDouble fun t x => { t with number := x },
    field "array" decodeDouble fun t x => { t with array := x },
    field "default" decodeDouble fun t x => { t with default := x }]

def optionFields : List (Field (Options Float)) :=
  [field "compare_strings" decodeBool fun o b => { o with compareStrings := b },
    field "compare_numbers" decodeBool fun o b => { o with compareNumbers := b },
    field "compare_arrays" decodeBool fun o b => { o with compareArrays := b },
    field "compare_objects" decodeBool fun o b => { o with compareObjects := b },
    field "max_depth" (decodeNat "usize") fun o n => { o with maxDepth := n },
    field "structure_weight" decodeDouble fun o x => { o with structureWeight := x },
    field "value_weight" decodeDouble fun o x => { o with valueWeight := x },
    nested "thresholds" (readStructure "Thresholds" thresholdFields) (·.thresholds)
      fun o t => { o with thresholds := t }]

def hookWeightFields : List (Field (HookWeights Float)) :=
  [field "state" decodeDouble fun w x => { w with state := x },
    field "effect" decodeDouble fun w x => { w with effect := x },
    field "custom" decodeDouble fun w x => { w with custom := x }]

def styleWeightFields : List (Field (StyleWeights Float)) :=
  [field "inline" decodeDouble fun w x => { w with inline := x },
    field "class_names" decodeDouble fun w x => { w with classNames := x },
    field "styled" decodeDouble fun w x => { w with styled := x }]

def componentFields : List (Field (ComponentOptions Float)) :=
  [field "threshold" decodeDouble fun o x => { o with threshold := x },
    field "compare_hooks" decodeBool fun o b => { o with compareHooks := b },
    field "compare_styles" decodeBool fun o b => { o with compareStyles := b },
    field "structure_weight" decodeDouble fun o x => { o with structureWeight := x },
    field "hooks_weight" decodeDouble fun o x => { o with hooksWeight := x },
    field "styles_weight" decodeDouble fun o x => { o with stylesWeight := x },
    nested "hook_weights" (readStructure "HookWeights" hookWeightFields) (·.hookWeights)
      fun o w => { o with hookWeights := w },
    nested "style_weights" (readStructure "StyleWeights" styleWeightFields) (·.styleWeights)
      fun o w => { o with styleWeights := w }]

def toggleFields : List (Field Toggles) :=
  [field "functions" decodeBool fun t b => { t with functions := b },
    field "modules" decodeBool fun t b => { t with modules := b },
    field "resources" decodeBool fun t b => { t with resources := b },
    field "components" decodeBool fun t b => { t with components := b }]

def configFields : List (Field (Config Float)) :=
  [field "min_function_lines" (decodeNat "usize") fun c n => { c with minFunctionLines := n },
    field "io_threads" (decodeNat "usize") fun c n => { c with ioThreads := n },
    field "memory_limit_mb" (decodeNat "u64") fun c n => { c with memoryLimitMb := n },
    field "exclude_package_files" decodeBool fun c b => { c with excludePackageFiles := b },
    field "ignore_dirs" (decodeList decodeText) fun c xs => { c with ignoreDirs := xs },
    field "ignore_patterns" (decodeList decodeText) fun c xs => { c with ignorePatterns := xs },
    field "skip_hidden" decodeBool fun c b => { c with skipHidden := b },
    field "module_cutoff_percent" decodeDouble fun c x => { c with moduleCutoffPercent := x },
    nested "categories" (readStructure "CategoryToggles" toggleFields) (·.categories)
      fun c t => { c with categories := t },
    nested "resources" (readStructure "ComparisonOptions" optionFields) (·.resources)
      fun c o => { c with resources := o },
    nested "components" (readStructure "ComponentOptions" componentFields) (·.components)
      fun c o => { c with components := o }]

def readOptions (raw : Raw) : Except Problem (Options Float) :=
  readStructure "ComparisonOptions" optionFields [] raw .standard

def readComponentOptions (raw : Raw) : Except Problem (ComponentOptions Float) :=
  readStructure "ComponentOptions" componentFields [] raw .standard

def readConfig (raw : Raw) : Except Problem (Config Float) :=
  readStructure "Config" configFields [] raw .standard

end Likeness.Settings
