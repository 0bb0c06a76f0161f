import Likeness.Files.Path
import Likeness.Scan.Failure
import Likeness.Settings.Decode
import Likeness.Text.Distance

namespace Likeness.Settings

-- Why settings are refused.
inductive Refusal where
  | unknownKey (key : String) (suggestion : Option String)
  | missingFile (path : String)
  -- a file that is no document
  | malformedFile (path : String)
  -- a file or a setting that is not understood
  | notUnderstood (message : String)
  | outOfRange (message : String)
  -- a whole number that a document cannot hold
  | notWritable

namespace Refusal

def message : Refusal → String
  | .unknownKey key none => "Unknown configuration key " ++ tick key
  | .unknownKey key (some other) =>
    "Unknown configuration key " ++ tick key ++ ", did you mean " ++ tick other ++ "?"
  | .missingFile path => "Configuration file not found: " ++ path
  | .malformedFile path => "Failed to load configuration: TOML parse error in " ++ path
  | .notUnderstood message => "Failed to load configuration: " ++ message
  | .outOfRange message => "Invalid configuration: " ++ message
  | .notWritable =>
    let cause := "out-of-range value for u64 type"
    s!"Failed to render configuration: {cause}: {cause}"

-- The failure of a scan with such settings.
def toFatal : Refusal → Scan.Fatal
  | .outOfRange message => .invalidConfiguration message
  | r => .invalidConfiguration r.message

end Refusal

-- The known name that is closest to one that is not known, if it is close: a third of the bytes may
-- differ, and two characters in any case. Of several the first is taken.
def closest (name : String) (known : List String) : Option String :=
  let distance (other : String) := Text.editDistance name.toList other.toList
  let near := known.filter (distance · ≤ max (name.utf8ByteSize / 3) 2)
  near.foldl (fun best other =>
    match best with
    | none => some other
    | some b => if distance other < distance b then some other else some b) none

-- A leaf as the messages about files and variables show it.
def Leaf.shown : Leaf → String
  | .null => "unit"
  | .bool b => "bool " ++ toString b
  | .unsigned n => "unsigned int " ++ tick (toString n)
  | .signed n => "signed int " ++ tick (toString n)
  | .double x => "float " ++ tick (Number.Layout.plain.write x)
  | .character c => "char " ++ Text.quotedCharacter c
  | .text s => "string " ++ Text.quoted s

def Found.shown : Found → String
  | .leaf l => l.shown
  | .list => "sequence"
  | .table => "map"

def Cause.shown : Cause → String
  | .wrongType found expected => s!"invalid type: found {found.shown}, expected {expected}"
  | .wrongValue found expected => s!"invalid value {found.shown}, expected {expected}"
  | c => c.message

-- Where a setting with some keys was read.
def Origin.shown (current : List String) (path : List String) : Origin → String
  | .given => ""
  | .file name =>
    let key := String.intercalate "." ("default" :: path)
    s!" for key {Text.quoted key} in {Files.seenFrom current name} TOML file"
  | .environment =>
    let key := String.ofList ((String.intercalate "." path).toList.map Char.toUpper)
    s!" for key {Text.quoted key} in \x60DUPECHECK_\x60 environment variable(s)"

-- Why a setting that is not understood is refused, as seen from a directory.
def Problem.refusal (current : List String) (p : Problem) : Refusal :=
  match p.cause with
  | .unknownField name known =>
    .unknownKey (String.intercalate "." (p.path ++ [name])) (closest name known)
  | cause => .notUnderstood (cause.shown ++ p.origin.shown current p.path)

end Likeness.Settings
