import Likeness.Files.Path
import Likeness.Syntax.Reading

namespace Likeness.Files

-- The files that are scanned.
inductive FileKind where
  | code
  | resource
deriving DecidableEq

def FileKind.name : FileKind → String
  | .code => "Code"
  | .resource => "Resource"

-- The formats of resource files.
inductive Format where
  | json
  | yaml
deriving DecidableEq

def formatOf (path : String) : Option Format :=
  match extensionOrEmpty path with
  | "json" => some .json
  | "yml" | "yaml" => some .yaml
  | _ => none

-- The dialect a source file is read in.
def dialectOf (path : String) : Option Syntax.Dialect :=
  match smallExtension? path with
  | some "ts" => some .typeScript
  | some "js" | some "jsx" | some "tsx" => some .tsx
  | _ => none

def codeExtensions : List String := ["js", "jsx", "ts", "tsx"]

def resourceExtensions : List String := ["json", "yml", "yaml"]

def kindOf (path : String) : Option FileKind :=
  (smallExtension? path).bind fun extension =>
    if codeExtensions.contains extension then some .code
    else if resourceExtensions.contains extension then some .resource
    else none

end Likeness.Files
