import Likeness.Command.Run
import Likeness.Report.Moment

namespace Likeness.Main

open Command Files

-- The text of a file, if it is one.
def readText (path : String) : IO (Option String) := do
  try
    return String.fromUTF8? (← IO.FS.readBinFile path)
  catch _ => return none

-- Whether the text of a file is of use to a scan.
def isOfUse (name : String) : Bool := (kindOf name).isSome || name = ".gitignore"

-- The entries of a directory with all that is below them, but for directories that no scan enters.
partial def readDirectory (closed : List String) (path : String) : IO Entry := do
  try
    let found ← (← IO.FS.realPath path).readDir
    let entries ← found.toList.mapM fun f => do
      let below := join path f.fileName
      match (← f.path.symlinkMetadata).type with
      | .symlink => return (f.fileName, Entry.link "")
      | .dir =>
        if closed.contains f.fileName then return (f.fileName, Entry.directory [])
        else return (f.fileName, ← readDirectory closed below)
      | .file =>
        return (f.fileName, Entry.file (← if isOfUse f.fileName then readText below else pure none))
      | .other => return (f.fileName, Entry.file none)
    return .directory entries
  catch _ => return .directory []

-- Takes steps up out of a path as far as they follow steps down.
def plainSteps (steps : List String) : List String :=
  (steps.foldl (fun taken step =>
    if step = ".." then taken.drop 1 else if step = "" || step = "." then taken else step :: taken)
    []).reverse

def isDirectory (path : String) : IO Bool := do
  try
    return (← (← IO.FS.realPath path).metadata).type == .dir
  catch _ => return false

-- Puts what is at a path into a tree, with the directories on the way to it. If a link leads there,
-- the link is put there and the rest where it leads.
def mount (current : List String) (path : String) (load : String → IO Entry) (tree : Entry) :
    IO Entry := do
  let steps := if path.startsWith "/" then pathSteps path else current ++ pathSteps path
  let mut tree := tree
  for count in List.range steps.length do
    let outer := steps.take count
    if ← isDirectory ("/" ++ String.intercalate "/" outer) then
      tree := Entry.insert (.directory []) (plainSteps outer) tree
  try
    let real := toString (← IO.FS.realPath path)
    let loaded ← load path
    let here := plainSteps steps
    let there := plainSteps (pathSteps real)
    tree := Entry.insert loaded there tree
    return if here = there then tree else Entry.insert (.link real) here tree
  catch _ => return tree

def loadFile (path : String) : IO Entry := do
  if ← isDirectory path then return .directory [] else return .file (← readText path)

def loadTree (closed : List String) (path : String) : IO Entry := do
  if ← isDirectory path then readDirectory closed path else return .file none

-- The variables of the environment.
def environment : IO (List (String × String)) := do
  let text := (← readText "/proc/self/environ").getD ""
  return (text.splitOn "\x00").filterMap fun entry =>
    match entry.splitOn "=" with
    | name :: value :: rest => some (name, String.intercalate "=" (value :: rest))
    | _ => none

-- The bytes of memory in use, of which there are 4096 in a page.
def memoryInUse : IO (Option Nat) := do
  let words := Text.words ((← readText "/proc/self/statm").getD "")
  return (words[1]?.bind String.toNat?).map (· * 4096)

-- What is read of the world for a command: the files with settings, then the tree that is scanned.
def worldFor (w : World) (i : Invocation) : IO World := do
  let (root, explicit) := match i.task with
    | .scan o => (o.path, o.configFile)
    | .config o => (o.path, o.configFile)
  let files := [w.userFile, some (join root Settings.projectFile), explicit].filterMap id
  let mut tree := w.disk.root
  for file in files do
    tree ← mount w.disk.current file loadFile tree
  let w := { w with disk := { w.disk with root := tree } }
  match i.task, w.settings root explicit with
  | .scan _, .ok c =>
    tree ← mount w.disk.current root (loadTree c.ignoreDirs) tree
    return { w with disk := { w.disk with root := tree } }
  | _, _ => return w

def now : IO Report.Moment := do
  let modified := (← (← IO.FS.realPath "/proc/self/stat").metadata).modified
  return ⟨modified.sec.toNat, modified.nsec.toNat⟩

def print (a : Answer) : IO UInt32 := do
  for message in a.messages do
    IO.eprintln message
  IO.print a.output
  (← IO.getStdout).flush
  return a.exitNumber.toUInt32

end Likeness.Main

open Likeness Likeness.Command Likeness.Main

def main (arguments : List String) : IO UInt32 := do
  let current := Files.pathSteps (toString (← IO.currentDir))
  let w : World := ⟨⟨.directory [], current⟩, ← environment, ← memoryInUse⟩
  match w.read arguments with
  | .error u => print (.ofUsage u)
  | .ok i =>
    let started ← IO.monoMsNow
    let w ← worldFor w i
    let r ← pure (i.run w)
    let finished ← IO.monoMsNow
    print (i.answer w ⟨(← now).text, finished - started⟩ r)
