import Likeness.Files.Glob
import Likeness.Files.Path
import Likeness.Text.Characters

namespace Likeness.Files

-- A rule on which paths are ignored.
structure IgnoreRule where
  parts : List Glob.Part
  -- the rule takes paths back in
  isException : Bool
  onlyDirectories : Bool

-- A line that is no rule, and why.
structure BadRule where
  line : String
  fault : Glob.Fault

def BadRule.message (b : BadRule) : String :=
  s!"error parsing glob '{b.line}': {b.fault.message}"

namespace IgnoreRule

def trimEnd (cs : List Char) : List Char := (cs.reverse.dropWhile Text.isBlank).reverse

def endsWith (tail cs : List Char) : Bool := tail.reverse.isPrefixOf cs.reverse

-- The pattern of a line without its signs: whether it is an exception, whether it starts at the
-- root, whether it is for directories only, and the rest.
structure Signs where
  isException : Bool
  fromRoot : Bool
  onlyDirectories : Bool
  body : List Char

-- An exclamation mark, a slash at the start, and a slash at the end, each with its meaning unless a
-- backslash stands before it.
def signs (line : List Char) : Signs :=
  let (isException, fromRoot, body) := match line with
    | '\\' :: '!' :: rest => (false, false, '!' :: rest)
    | '\\' :: '#' :: rest => (false, false, '#' :: rest)
    | '!' :: '/' :: rest => (true, true, rest)
    | '!' :: rest => (true, false, rest)
    | '/' :: rest => (false, true, rest)
    | line => (false, false, line)
  if endsWith ['/'] body then
    let body := body.dropLast
    ⟨isException, fromRoot, true, if endsWith ['\\'] body then body.dropLast else body⟩
  else ⟨isException, fromRoot, false, body⟩

-- A pattern without a slash matches at any depth. One that ends with two stars matches what is in a
-- directory and not the directory.
def wholePattern (s : Signs) : List Char :=
  let body := s.body
  let anywhere := !s.fromRoot && !body.contains '/' && body != ['*', '*']
  let pattern := if anywhere then ['*', '*', '/'] ++ body else body
  if endsWith ['/', '*', '*'] pattern then pattern ++ ['/', '*'] else pattern

-- The rule of a line; empty lines and comments have none.
def ofLine (line : String) : Except BadRule (Option IgnoreRule) :=
  let cs := line.toList
  let cs := if endsWith ['\\', ' '] cs then cs else trimEnd cs
  if cs.isEmpty || cs.head? = some '#' then .ok none
  else
    let signs := signs cs
    match Glob.parse (String.ofList (wholePattern signs)) with
    | .ok parts => .ok (some ⟨parts, signs.isException, signs.onlyDirectories⟩)
    | .error fault => .error ⟨String.ofList cs, fault⟩

end IgnoreRule

-- Rules on the paths below a directory. Later rules win.
structure IgnoreRules where
  root : String
  rules : List IgnoreRule

namespace IgnoreRules

-- A path without some text at its start.
def without (start path : String) : Option String :=
  let a := start.toList
  let b := path.toList
  if a.isPrefixOf b then some (String.ofList (b.drop a.length)) else none

-- The part of a path that the rules are for. What the path has in common with the root is left out,
-- unless the path is a name only.
def relevant (r : IgnoreRules) (path : String) : String :=
  let path := (without "./" path).getD path
  let root := (without "./" r.root).getD r.root
  if samePath root "." || !path.contains '/' then path
  else
    match without root path with
    | some rest => (without "/" rest).getD rest
    | none => path

-- Whether the last rule that applies to a path ignores it.
def ignores (r : IgnoreRules) (path : String) (isDirectory : Bool) : Bool :=
  let path := r.relevant path
  let applies (rule : IgnoreRule) : Bool :=
    (!rule.onlyDirectories || isDirectory) && Glob.isMatch rule.parts path
  match r.rules.reverse.find? applies with
  | some rule => !rule.isException
  | none => false

end IgnoreRules

-- The lines of a text; a carriage return before a break belongs to the break.
def linesOf (text : String) : List String :=
  let lines := (text.splitOn "\n").map fun line =>
    if line.endsWith "\r" then String.ofList line.toList.dropLast else line
  if lines.getLast? = some "" then lines.dropLast else lines

end Likeness.Files
