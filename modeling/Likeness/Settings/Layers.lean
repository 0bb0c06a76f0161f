import Likeness.Files.Tree
import Likeness.Settings.Check
import Likeness.Settings.Environment
import Likeness.Settings.Refusal
import Likeness.Toml.Reader

namespace Likeness.Settings

mutual

-- The settings in a document. A time stands for a table, so that it is no setting of any kind.
def Raw.ofToml (origin : Origin) : Toml.Value → Raw
  | .bool b => .leaf origin (.bool b)
  | .int n => .leaf origin (.signed n)
  | .double x => .leaf origin (.double x)
  | .string s => .leaf origin (.text s)
  | .time s => .table origin [("$__toml_private_datetime", .leaf origin (.text s))]
  | .array items => .list origin (ofTomlItems origin items)
  | .table fields => .table origin (ofTomlFields origin fields)

def Raw.ofTomlItems (origin : Origin) : List Toml.Value → List Raw
  | [] => []
  | v :: rest => ofToml origin v :: ofTomlItems origin rest

def Raw.ofTomlFields (origin : Origin) : List (String × Toml.Value) → List (String × Raw)
  | [] => []
  | (key, v) :: rest => insert key (ofToml origin v) (ofTomlFields origin rest)

end

-- The files that settings are read from: that of the user, that of the project, and one that was
-- asked for. Later ones lie over earlier ones.
structure Sources where
  user : Option String
  project : Option String
  explicit : Option String

-- The name of a project's file in its directory.
def projectFile : String := "dupecheck.toml"

-- The files for a project, with the one that was asked for.
def Sources.ofProject (user : Option String) (root : String) (explicit : Option String) : Sources :=
  ⟨user, some (Files.join root projectFile), explicit⟩

-- The files that are read. Only the one that was asked for has to be there.
def Sources.paths (s : Sources) (isFile : String → Bool) : Except Refusal (List String) :=
  let found := ([s.user, s.project].filterMap id).filter isFile
  match s.explicit with
  | none => .ok found
  | some path => if isFile path then .ok (found ++ [path]) else .error (.missingFile path)

-- The settings in the text of a file.
def layerOfText (path text : String) : Except Refusal Raw :=
  match Toml.read? text with
  | some fields => .ok (Raw.ofToml (.file path) (.table fields))
  | none => .error (.malformedFile path)

def layerOfFile (d : Files.Disk) (path : String) : Except Refusal Raw :=
  match d.readText path with
  | .ok text => layerOfText path text
  | .error _ => .error (.malformedFile path)

-- All layers in one. What no layer mentions is not mentioned there either.
def joinLayers (layers : List Raw) : Raw := layers.foldl Raw.merge (.table .given [])

-- The settings in some layers over the standard ones.
def Config.ofLayers (current : List String) (layers : List Raw) :
    Except Refusal (Config Float) :=
  match readConfig (joinLayers layers) with
  | .ok c => .ok c
  | .error p => .error (p.refusal current)

-- Refuses settings that no scan can work with.
def Config.checked (c : Config Float) : Except Refusal (Config Float) :=
  match c.fault? with
  | none => .ok c
  | some fault => .error (.outOfRange fault.message)

-- The settings in the files and, over them, in the environment.
def Config.load (d : Files.Disk) (sources : Sources) (environment : List (String × String)) :
    Except Refusal (Config Float) := do
  let paths ← sources.paths d.isFile
  let layers ← paths.mapM (layerOfFile d)
  let config ← ofLayers d.current (layers ++ [Environment.read environment])
  config.checked

end Likeness.Settings
