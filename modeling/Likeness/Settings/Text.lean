import Likeness.Settings.Config
import Likeness.Settings.Refusal
import Likeness.Toml.Text

namespace Likeness.Settings

open Components Similarity

def Toggles.fields (t : Toggles) : List (String × Toml.Value) :=
  [("functions", .bool t.functions), ("modules", .bool t.modules),
    ("resources", .bool t.resources), ("components", .bool t.components)]

def thresholdValues (t : Thresholds Float) : List (String × Toml.Value) :=
  [("string", .double t.string), ("number", .double t.number), ("array", .double t.array),
    ("default", .double t.default)]

def optionValues (o : Options Float) : List (String × Toml.Value) :=
  [("compare_strings", .bool o.compareStrings), ("compare_numbers", .bool o.compareNumbers),
    ("compare_arrays", .bool o.compareArrays), ("compare_objects", .bool o.compareObjects),
    ("max_depth", .int o.maxDepth), ("structure_weight", .double o.structureWeight),
    ("value_weight", .double o.valueWeight),
    ("thresholds", .table (thresholdValues o.thresholds))]

def hookWeightValues (w : HookWeights Float) : List (String × Toml.Value) :=
  [("state", .double w.state), ("effect", .double w.effect), ("custom", .double w.custom)]

def styleWeightValues (w : StyleWeights Float) : List (String × Toml.Value) :=
  [("inline", .double w.inline), ("class_names", .double w.classNames),
    ("styled", .double w.styled)]

def componentValues (o : ComponentOptions Float) : List (String × Toml.Value) :=
  [("threshold", .double o.threshold), ("compare_hooks", .bool o.compareHooks),
    ("compare_styles", .bool o.compareStyles), ("structure_weight", .double o.structureWeight),
    ("hooks_weight", .double o.hooksWeight), ("styles_weight", .double o.stylesWeight),
    ("hook_weights", .table (hookWeightValues o.hookWeights)),
    ("style_weights", .table (styleWeightValues o.styleWeights))]

namespace Config

-- All settings as the fields of a document.
def fields (c : Config Float) : List (String × Toml.Value) :=
  [("min_function_lines", .int c.minFunctionLines), ("io_threads", .int c.ioThreads),
    ("memory_limit_mb", .int c.memoryLimitMb),
    ("exclude_package_files", .bool c.excludePackageFiles),
    ("ignore_dirs", .array (c.ignoreDirs.map .string)),
    ("ignore_patterns", .array (c.ignorePatterns.map .string)),
    ("skip_hidden", .bool c.skipHidden), ("module_cutoff_percent", .double c.moduleCutoffPercent),
    ("categories", .table c.categories.fields), ("resources", .table (optionValues c.resources)),
    ("components", .table (componentValues c.components))]

-- The whole numbers among the settings.
def numbers (c : Config Float) : List Nat :=
  [c.minFunctionLines, c.ioThreads, c.memoryLimitMb, c.resources.maxDepth]

-- All settings as the text of a document.
def text (c : Config Float) : Except Refusal String :=
  if c.numbers.all (Toml.isInt ·) then .ok (Toml.write c.fields) else .error .notWritable

end Config

end Likeness.Settings
