import Likeness.Text.Characters

namespace Likeness.Scan

-- How important a note is.
inductive Level where
  | error
  | warn
  | info
  | debug
  | trace
deriving DecidableEq

namespace Level

def name : Level → String
  | .error => "error"
  | .warn => "warn"
  | .info => "info"
  | .debug => "debug"
  | .trace => "trace"

-- How much is shown from a level on.
def rank : Level → Nat
  | .error => 1
  | .warn => 2
  | .info => 3
  | .debug => 4
  | .trace => 5

end Level

-- From which level on notes are kept; none keeps no notes.
abbrev LevelFilter := Option Level

namespace LevelFilter

def all : List LevelFilter :=
  [none, some .error, some .warn, some .info, some .debug, some .trace]

def name : LevelFilter → String
  | none => "off"
  | some level => level.name

def ofName? (name : String) : Option LevelFilter := all.find? (·.name == name)

def admits (f : LevelFilter) (level : Level) : Bool :=
  match f with
  | none => false
  | some last => level.rank ≤ last.rank

-- What is kept if output is to be quiet or verbose.
def ofVerbosity (verbose : Nat) (quiet : Bool) : LevelFilter :=
  if quiet then some .error
  else
    match verbose with
    | 0 => some .info
    | 1 => some .debug
    | _ => some .trace

-- A directive sets a level, for a part of the program or, without a name, for all of it.
structure Directive where
  part : String
  filter : LevelFilter

def ofCapitals? (text : String) : Option LevelFilter :=
  ofName? (String.ofList (text.toList.map Char.toLower))

def Directive.ofText? (text : String) : Option Directive :=
  match (text.splitOn "=").map Text.trim with
  | [""] => none
  | [word] =>
    match ofCapitals? word with
    | some filter => some ⟨"", filter⟩
    | none => some ⟨word, some .trace⟩
  | [part, ""] => some ⟨part, some .trace⟩
  | [part, word] => (ofCapitals? word).map fun filter => ⟨part, filter⟩
  | _ => none

-- What is kept by directives between commas: the last one for the program, or for all. Without any
-- directive only errors are kept.
def ofDirectives (text : String) : LevelFilter :=
  let directives := (text.splitOn ",").filterMap Directive.ofText?
  let last (part : String) : Option Directive := (directives.filter (·.part == part)).getLast?
  if directives.isEmpty then some .error
  else
    match last "dupecheck", last "" with
    | some d, _ => d.filter
    | none, some d => d.filter
    | none, none => none

end LevelFilter

-- A note that a scan makes.
structure Note where
  level : Level
  text : String

-- A note as it is listed, its level in capitals.
def Note.line (n : Note) : String :=
  String.ofList (n.level.name.toList.map Char.toUpper) ++ " " ++ n.text

-- A note as it is printed: the level takes five characters.
def Note.paddedLine (n : Note) : String :=
  let level := n.level.name.toList.map Char.toUpper
  String.ofList (level ++ List.replicate (5 - level.length) ' ') ++ " " ++ n.text

end Likeness.Scan
