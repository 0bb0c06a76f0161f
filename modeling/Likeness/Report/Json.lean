import Likeness.Components.Component
import Likeness.Duplicates.Registry
import Likeness.Functions.Index
import Likeness.Json.Text
import Likeness.Scan.Findings

namespace Likeness.Report

open Duplicates Json Scan

def locatorValue : Locator → Value
  | .function name => .object [("kind", .string "function"), ("value", .string name)]
  | .keyPath path => .object [("kind", .string "key_path"), ("value", .string path)]
  | .component name => .object [("kind", .string "component"), ("value", .string name)]
  | .module => .object [("kind", .string "module")]

-- The line stands only where it is known.
def lineFields : Option Nat → List (String × Value)
  | some line => [("line", .nat line)]
  | none => []

def occurrenceValue (o : Occurrence) : Value :=
  .object ([("file", .string o.file.text), ("locator", locatorValue o.locator)] ++ lineFields o.line)

def representativeValue : Representative Float → Value
  | .function name shape =>
    .object [("type", .string "function"), ("name", .string name), ("shape", .strings shape)]
  | .module percent => .object [("type", .string "module"), ("percent", .double percent)]
  | .value value => .object [("type", .string "value"), ("value", value)]
  | .component name props element =>
    .object [("type", .string "component"), ("name", .string name), ("props", .double props),
      ("jsx", .double element)]

def groupValue (g : Duplicates.Group Float) : Value :=
  .object [("category", .string g.category.name), ("key", .string g.key),
    ("representative", representativeValue g.representative), ("similarity", .double g.similarity),
    ("occurrences", .array (g.occurrences.map occurrenceValue))]

def functionValue (f : ShapedFunction) : Value :=
  .object [("file", .string f.file.text), ("name", .string f.name), ("line", .nat f.line),
    ("shape", .strings f.shape), ("digest", .string f.digest)]

section Components

open Components

def propertyValue (p : Property) : Value :=
  .object [("name", .string p.name), ("required", .bool p.required),
    ("default_value", .ofOption .string p.standard)]

def attributeValue (a : Attribute) : Value :=
  .object [("name", .string a.name), ("value", .ofOption .string a.value)]

mutual

def elementValue : Element → Value
  | .mk tag attributes children =>
    .object [("tag", .string tag), ("attributes", .array (attributes.map attributeValue)),
      ("children", .array (elementValues children))]

def elementValues : List Element → List Value
  | [] => []
  | e :: rest => elementValue e :: elementValues rest

end

def stateValue (h : StateHook) : Value :=
  .object [("initial_value", .string h.initialValue), ("initial_kind", .string h.initialKind.name),
    ("setter", .ofOption .string h.setter)]

def effectValue (h : EffectHook) : Value :=
  .object [("dependencies", .ofOption .strings h.dependencies), ("has_cleanup", .bool h.hasCleanup)]

def customValue (h : CustomHook) : Value :=
  .object [("name", .string h.name), ("arguments", .strings h.arguments)]

def hooksValue (h : Hooks) : Value :=
  .object [("state", .array (h.state.map stateValue)), ("effect", .array (h.effect.map effectValue)),
    ("custom", .array (h.custom.map customValue))]

def styledValue (s : StyledComponent) : Value :=
  .object [("name", .string s.name), ("base", .string s.base), ("css", .string s.css)]

def stylesValue (s : Styles) : Value :=
  let entries (map : List (String × String)) : Value :=
    .object (map.map fun (name, value) => (name, .string value))
  .object [("inline", .array (s.inline.map entries)), ("class_names", .strings s.classNames),
    ("styled", .array (s.styled.map styledValue))]

def componentFields (c : Component) : List (String × Value) :=
  [("file", .string c.file.text), ("name", .string c.name), ("line", .nat c.line),
    ("props", .array (c.props.map propertyValue)), ("jsx", elementValue c.element),
    ("hooks", hooksValue c.hooks), ("styles", stylesValue c.styles)]

end Components

-- A place as the report lists it.
def reportedOccurrence (o : Occurrence) : Value :=
  .object ([("file", .string o.file.text), ("locator", .string o.locator.text)] ++ lineFields o.line)

def reportedGroup (g : Duplicates.Group Float) : Value :=
  .object [("key", .string g.key), ("similarity", .double g.similarity),
    ("representative", representativeValue g.representative),
    ("occurrences", .array (g.occurrences.map reportedOccurrence))]

def warningValue (w : Skipped) : Value :=
  .object [("code", .string w.code), ("path", .string w.path), ("message", .string w.message)]

-- The report of a scan. `time` is when it was made, and `milliseconds` how long the scan took.
def reportValue (time : String) (report : Duplicates.Report Float) (summary : Summary)
    (milliseconds : Nat) (exit : Exit) : Value :=
  .object
    [("generated_at", .string time), ("root", .string summary.root),
      ("duplicates", .object (Category.all.map fun c =>
        (c.name, .array ((report.groups c).map reportedGroup)))),
      ("warnings", .array (summary.warnings.map warningValue)),
      ("summary", .object
        [("directories", .nat summary.directories), ("code_files", .nat summary.codeFiles),
          ("resource_files", .nat summary.resourceFiles), ("functions", .nat summary.functions),
          ("components", .nat summary.components), ("duplicate_groups", .nat report.total),
          ("similar_modules", .nat summary.similarModules),
          ("similar_documents", .nat summary.similarDocuments),
          ("similar_values", .nat summary.similarValues),
          ("similar_components", .nat summary.similarComponents),
          ("warnings", .nat summary.warnings.length), ("scan_duration_ms", .nat milliseconds),
          ("exit_code", .nat exit.number), ("exit_code_name", .string exit.code)])]

-- A fatal error: the code of the exit, and its own code where it has one.
def errorValue (exit : Exit) (errorCode : Option String) (message : String) : Value :=
  let own := match errorCode with
    | some code => [("error_code", .string code)]
    | none => []
  .object ([("code", .string exit.code), ("exit_code", .nat exit.number)] ++ own ++
    [("message", .string message)])

end Likeness.Report
