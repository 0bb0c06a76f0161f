import Likeness.Files.Ignore
import Likeness.Files.Kind
import Likeness.Files.Tree
import Likeness.Scan.Failure
import Likeness.Scan.Log
import Likeness.Settings.Config

namespace Likeness.Scan

open Files
open Settings (WalkOptions)

-- What a walk comes by, in its order.
inductive WalkEvent where
  | directory (path : String)
  | file (path : String) (kind : FileKind)
  | closed (why : Closed)

namespace Walk

-- The files that belong to packages and not to a project.
def packageFiles : List String := ["package.json", "package-lock.json"]

-- Why a place on the walk cannot be entered, in the words of the log.
def missingCause (path : String) (missing : Missing) : String :=
  s!"IO error for operation on {path}: {missing.message}"

def loopCause (path outer : String) : String :=
  s!"File system loop found: {path} points to an ancestor {outer}"

-- The part of a path below a directory; the whole path if it is not below it.
def below (directory path : String) : String :=
  let a := stepsOf directory
  let b := stepsOf path
  if a.fromRoot = b.fromRoot && a.parts.isPrefixOf b.parts then
    String.intercalate "/" (b.parts.drop a.parts.length)
  else path

-- What a walk leaves out, and from where it starts.
structure Rules where
  root : String
  options : WalkOptions
  ignored : IgnoreRules

-- Whether a path is passed over with all that is below it.
def Rules.prunes (r : Rules) (path : String) (isDirectory : Bool) : Bool :=
  (isDirectory && ((nameOf path).map r.options.ignoreDirs.contains).getD false)
    || r.ignored.ignores (below r.root path) isDirectory

def Rules.hides (r : Rules) (name : String) : Bool :=
  r.options.skipHidden && name.startsWith "."

-- What is reported for a file: nothing for files of other kinds.
def Rules.fileEvents (r : Rules) (path : String) : List WalkEvent :=
  let isPackage := r.options.excludePackageFiles
    && ((nameOf path).map packageFiles.contains).getD false
  match kindOf path with
  | some kind => if isPackage then [] else [.file path kind]
  | none => []

-- Where a walk is: the directories around a place from the inside out, the paths of those that are
-- being walked through, and how many more links may be followed.
structure Place where
  outer : List Entry
  ancestors : List String
  links : Nat

-- What a link in a directory leads to, and the place it leads to. A loop is told by the text of the
-- link.
def follow (p : Place) (path target : String) : Except Closed (Entry × Place) :=
  let inside := match p.outer with
    | directory :: outer => Spot.mk directory outer p.links
    | [] => ⟨.directory [], [], p.links⟩
  match Spot.jump p.links true [] inside target with
  | .error missing => .error (.failed path (missingCause path missing))
  | .ok s =>
    match s.entry, p.ancestors.find? (samePath target) with
    | .directory _, some ancestor => .error (.failed path (loopCause path ancestor))
    | e, _ => .ok (e, ⟨s.outer, p.ancestors, s.links⟩)

-- An entry of a directory on a walk, and all that is met in it.
structure Sight where
  name : String
  isClosed : Bool
  events : List WalkEvent

-- Entries come in the order of their names, and those that are closed after all others.
def Sight.before (a b : Sight) : Bool :=
  if a.isClosed then b.isClosed else b.isClosed || a.name ≤ b.name

def arrange (sights : List Sight) : List WalkEvent :=
  (sights.mergeSort Sight.before).flatMap (·.events)

-- How links are met: by name, path and target in a place.
abbrev OnLink := Place → String → String → String → List Sight

mutual

-- What is met in a directory below a path.
def contents (r : Rules) (onLink : OnLink) (path : String) (p : Place) : Entry → List WalkEvent
  | .directory entries =>
    arrange (sights r onLink path
      ⟨.directory entries :: p.outer, path :: p.ancestors, p.links⟩ entries)
  | _ => []

-- The entries of a directory that are not left out.
def sights (r : Rules) (onLink : OnLink) (path : String) (p : Place) :
    List (String × Entry) → List Sight
  | [] => []
  | (name, e) :: rest =>
    let others := sights r onLink path p rest
    let childPath := join path name
    if r.hides name then others
    else
      match e with
      | .link target => onLink p name childPath target ++ others
      | .file _ =>
        if r.prunes childPath false then others
        else ⟨name, false, r.fileEvents childPath⟩ :: others
      | .directory entries =>
        if r.prunes childPath true then others
        else
          ⟨name, false, .directory childPath ::
            contents r onLink childPath p (.directory entries)⟩ :: others

end

-- What is met at a path that is not pruned: a directory before what is in it.
def eventsAt (r : Rules) (onLink : OnLink) (path : String) (p : Place) (e : Entry) :
    List WalkEvent :=
  match e with
  | .directory entries => .directory path :: contents r onLink path p (.directory entries)
  | .file _ => r.fileEvents path
  | .link _ => []

-- Links are passed over, or followed as long as the number allows.
def onLink (r : Rules) : Nat → OnLink
  | 0 => fun _ name path _ =>
    if r.options.followSymlinks then
      [⟨name, true, [.closed (.failed path (missingCause path .tooManyLinks))]⟩]
    else []
  | links + 1 => fun p name path target =>
    if !r.options.followSymlinks then []
    else
      match follow p path target with
      | .error why => [⟨name, true, [.closed why]⟩]
      | .ok (e, p) =>
        if r.prunes path e.isDirectory then []
        else [⟨name, false, eventsAt r (onLink r links) path p e⟩]

-- The path of the root as it is met: its name after what stands before it.
def rootPath (root : String) : String :=
  match nameOf root with
  | none =>
    let s := stepsOf root
    let parent := String.intercalate "/" s.parts.dropLast
    join (if s.fromRoot then "/" ++ parent else parent) root
  | some name =>
    let s := stepsOf root
    let parent := String.intercalate "/" s.parts.dropLast
    join (if s.fromRoot then "/" ++ parent else parent) name

-- A walk from the root. A root that is a link is always entered; it counts as a directory only if
-- links are followed.
def fromRoot (d : Disk) (r : Rules) : List WalkEvent :=
  let path := rootPath r.root
  let links := onLink r linkLimit
  let closedBy (path : String) (missing : Missing) : List WalkEvent :=
    [.closed (.failed path (missingCause path missing))]
  match d.find false r.root with
  | .error missing => closedBy r.root missing
  | .ok s =>
    let place (s : Spot) : Place := ⟨s.outer, [r.root], s.links⟩
    match s.entry with
    | .link target =>
      match d.find true path with
      | .error missing => closedBy path missing
      | .ok s =>
        let isLoop := s.entry.isDirectory && samePath target r.root
        if !r.options.followSymlinks then
          if r.prunes path false then [] else contents r links path (place s) s.entry
        else if isLoop then [.closed (.failed path (loopCause path r.root))]
        else if r.prunes path s.entry.isDirectory then []
        else eventsAt r links path (place s) s.entry
    | .directory entries =>
      if r.prunes path true then []
      else .directory path :: contents r links r.root (place s) (.directory entries)
    | .file _ => if r.prunes path false then [] else r.fileEvents path

-- The rules of the ignore file in the root, then those of the options, and notes on lines that are
-- no rules.
def ignoreRules (d : Disk) (root : String) (o : WalkOptions) : IgnoreRules × List Note :=
  let ignoreFile := join root ".gitignore"
  let refused (causes : List String) : List Note :=
    if causes.isEmpty then []
    else [⟨.warn, s!"Failed to load .gitignore from {ignoreFile}: " ++
      String.intercalate "\n" causes⟩]
  let (fromFile, fileNotes) :=
    if !d.isFile ignoreFile then ([], [])
    else
      match d.readText ignoreFile with
      | .error missing => ([], refused [s!"{ignoreFile}: line 1: {missing.message}"])
      | .ok text =>
        let read := (linesOf (String.ofList (text.toList.dropWhile (· = '\ufeff')))).zipIdx.map
          fun (line, i) => (IgnoreRule.ofLine line, i + 1)
        (read.filterMap fun (rule, _) => rule.toOption.join,
          refused (read.filterMap fun
            | (.error bad, number) => some s!"{ignoreFile}: line {number}: {bad.message}"
            | _ => none))
  let given := o.ignorePatterns.map fun line => (line, IgnoreRule.ofLine line)
  let notes := given.filterMap fun
    | (line, .error bad) => some ⟨.warn, s!"Invalid ignore pattern '{line}': {bad.message}"⟩
    | _ => none
  (⟨root, fromFile ++ given.filterMap fun (_, rule) => rule.toOption.join⟩, fileNotes ++ notes)

end Walk

-- The note on a place that cannot be entered.
def Closed.note : Closed → Note
  | .permissionDenied path => ⟨.warn, s!"Permission denied: {path}"⟩
  | .failed path cause => ⟨.warn, s!"Walker error for {path}: {cause}"⟩

def WalkEvent.notes : WalkEvent → List Note
  | .closed why => [why.note]
  | _ => []

-- A walk through the directory at a path: what is met, and the notes on the rules it follows.
def walk (d : Disk) (root : String) (o : WalkOptions) : List WalkEvent × List Note :=
  let (ignored, notes) := Walk.ignoreRules d root o
  (Walk.fromRoot d ⟨root, o, ignored⟩, notes)

end Likeness.Scan
