import Likeness.Number.Layout
import Likeness.Text.Characters
import Likeness.Yaml.Node
import Likeness.Yaml.Plain

namespace Likeness.Yaml

-- The way from the root of a document to a value in it.
inductive Path where
  | root
  | item (parent : Path) (place : Nat)
  | entry (parent : Path) (key : String)
  -- the value of a key that is no scalar
  | unnamed (parent : Path)
  -- what an alias stands for
  | target (parent : Path)

def Path.text : Path → String
  | .root => "."
  | .item parent place => s!"{parent.text}[{place}]"
  | .entry .root key => key
  | .entry parent key => parent.text ++ "." ++ key
  | .unnamed .root => "?"
  | .unnamed parent => parent.text ++ ".?"
  | .target parent => parent.text

-- What is wrong with a value.
inductive ValueFault where
  | duplicateKey (key : Value)
  | emptyTag
  -- a scalar that is not what its tag says
  | notA (text expected : String)
  | tooLarge (n : LargeInteger)

-- Doubles in messages: no sign before an exponent.
def keyLayout : Number.Layout := ⟨some (-5, 16), ".0", "", "inf", "nan"⟩

def doubleKeyText (x : Float) : String :=
  if x.isNaN then ".nan"
  else if x.isFinite then keyLayout.write x
  else if x < 0 then "-.inf"
  else ".inf"

def ValueFault.message : ValueFault → String
  | .duplicateKey key =>
    "duplicate entry " ++ match key with
      | .null => "with null key"
      | .bool b => s!"with key \x60{b}\x60"
      | .int n => s!"with key {n}"
      | .double x => "with key " ++ doubleKeyText x
      | .string s => "with key " ++ Text.quoted s
      | _ => "in YAML map"
  | .emptyTag => "empty YAML tag is not allowed"
  | .notA text expected => s!"invalid value: string {Text.quoted text}, expected {expected}"
  | .tooLarge n =>
    let width := if n.isSigned then "i128" else "u128"
    s!"invalid type: integer \x60{n.value}\x60 as {width}, expected any YAML value"

-- Why a text has no value.
inductive Refusal where
  | broken (why : Broken)
  | badValue (fault : ValueFault) (path : Path) (mark : Mark)
  | tooDeep (mark : Mark)
  | tooManyAliases
  | secondDocument

def Refusal.message : Refusal → String
  | .broken (.malformed fault) => fault.message
  | .broken (.unknownAnchor mark) => "unknown anchor" ++ mark.text
  | .badValue fault path mark =>
    let place := match path.text with
      | "." => ""
      | text => text ++ ": "
    place ++ fault.message ++ mark.text
  | .tooDeep mark => "recursion limit exceeded" ++ mark.text
  | .tooManyAliases => "repetition limit exceeded"
  | .secondDocument =>
    "deserializing from YAML containing more than one document is not supported"

namespace Node

mutual

-- The nodes with anchors, those of collections before those in them.
def anchored : Node → List (Nat × Node)
  | .scalar mark (some anchor) tag text isPlain =>
    [(anchor, .scalar mark (some anchor) tag text isPlain)]
  | .sequence mark anchor tag items =>
    (anchor.toList.map fun n => (n, .sequence mark anchor tag items)) ++ anchoredItems items
  | .mapping mark anchor tag entries =>
    (anchor.toList.map fun n => (n, .mapping mark anchor tag entries)) ++ anchoredEntries entries
  | _ => []

def anchoredItems : List Node → List (Nat × Node)
  | [] => []
  | n :: rest => anchored n ++ anchoredItems rest

def anchoredEntries : List (Node × Node) → List (Nat × Node)
  | [] => []
  | (key, value) :: rest => anchored key ++ anchored value ++ anchoredEntries rest

end

mutual

-- How many pieces a node takes, two for the ends of a collection, and whether it is complete.
def size : Node → Nat × Bool
  | .scalar _ _ _ _ _ | .alias _ _ => (1, true)
  | .sequence _ _ _ items =>
    let (n, whole) := sizeOfItems items
    (n + if whole then 2 else 1, whole)
  | .mapping _ _ _ entries =>
    let (n, whole) := sizeOfEntries entries
    (n + if whole then 2 else 1, whole)
  | .missing _ => (0, false)

def sizeOfItems : List Node → Nat × Bool
  | [] => (0, true)
  | n :: rest =>
    let (first, whole) := size n
    let (others, allWhole) := sizeOfItems rest
    (first + others, whole && allWhole)

def sizeOfEntries : List (Node × Node) → Nat × Bool
  | [] => (0, true)
  | (key, value) :: rest =>
    let (first, whole) := size key
    let (second, alsoWhole) := size value
    let (others, allWhole) := sizeOfEntries rest
    (first + second + others, whole && alsoWhole && allWhole)

end

end Node

-- Values are read with a count of the aliases that were followed.
abbrev Read (α : Type) := StateT Nat (Except Refusal) α

namespace Read

-- What the aliases of a document stand for, and how many of them are followed at most.
structure Targets where
  nodes : List (Nat × Node)
  limit : Nat

-- The node with an anchor; the last one if the number was given twice.
def Targets.find? (t : Targets) (anchor : Nat) : Option Node :=
  (t.nodes.reverse.find? fun (n, _) => n == anchor).map (·.2)

-- A tag of the document's own, without its exclamation mark.
def ownTag? (inTag : Bool) (tag : Option String) : Option String :=
  match tag with
  | some text => match inTag, text.toList with
    | false, '!' :: rest => some (String.ofList rest)
    | _, _ => none
  | none => none

-- A tag is kept without a second exclamation mark.
def keptTag (tag : String) : String :=
  match tag.toList with
  | '!' :: c :: rest => String.ofList (c :: rest)
  | _ => tag

-- A scalar whose tag is one of the standard ones has to be what the tag says.
def scalarValue (inTag : Bool) (tag : Option String) (text : String) (isPlain : Bool) :
    Except ValueFault Value :=
  let plain := (plainValue text).mapError ValueFault.tooLarge
  let orElse (v : Option Value) (expected : String) : Except ValueFault Value :=
    match v with
    | some v => .ok v
    | none => .error (.notA text expected)
  let tag := if inTag then none else tag
  match tag with
  | none => if isPlain then plain else .ok (.string text)
  | some "tag:yaml.org,2002:bool" => orElse ((readBool? text).map .bool) "a boolean"
  | some "tag:yaml.org,2002:int" =>
    match readInt? text with
    | some (.ok n) => .ok (.int n)
    | some (.error large) => .error (.tooLarge large)
    | none => .error (.notA text "an integer")
  | some "tag:yaml.org,2002:float" => orElse ((readDouble? text).map .double) "a float"
  | some "tag:yaml.org,2002:null" =>
    orElse (if isNullWord text then some .null else none) "null"
  | some _ => .ok (.string text)

-- Goes from an alias to what it stands for.
def follow (targets : Targets) (inTag : Bool) (path : Path) (node : Node) :
    Read (Bool × Path × Node) :=
  match node with
  | .alias mark anchor => fun followed =>
    if targets.limit < followed + 1 then .error .tooManyAliases
    else
      match targets.find? anchor with
      | some node => .ok ((false, .target path, node), followed + 1)
      | none => .error (.broken (.unknownAnchor mark))
  | _ => pure (inTag, path, node)

-- A value, under its tag if it has one of its own.
def underTag (inTag : Bool) (tag : Option String) (path : Path) (mark : Mark)
    (read : Bool → Read Value) : Read Value :=
  match ownTag? inTag tag with
  | none => read inTag
  | some "" => throw (.badValue .emptyTag path mark)
  | some own => do return .tagged (keptTag own) (← read true)

def readItems (path : Path) (read : Path → Node → Read Value) (place : Nat) :
    List Node → Read (List Value)
  | [] => pure []
  | node :: rest => do
    let value ← read (.item path place) node
    return value :: (← readItems path read (place + 1) rest)

-- The path of the value under a key.
def valuePath (path : Path) : Node → Path
  | .scalar _ _ _ text _ => .entry path text
  | _ => .unnamed path

-- The entries of a mapping after those that were read, last one first.
def readEntries (path : Path) (mark : Mark) (readKey : Node → Read Value)
    (read : Path → Node → Read Value) (entries : List (Value × Value)) :
    List (Node × Node) → Read (List (Value × Value))
  | [] => pure entries.reverse
  | (keyNode, valueNode) :: rest => do
    let key ← readKey keyNode
    if entries.any fun (other, _) => other.same key then
      throw (.badValue (.duplicateKey key) path mark)
    let value ← read (valuePath path keyNode) valueNode
    readEntries path mark readKey read ((key, value) :: entries) rest

-- The value of a node. Collections may stand in one another as deep as the first number says.
-- `inTag` holds for a node whose tag was read already, and for the keys of such a mapping.
def read (targets : Targets) : Nat → Bool → Path → Node → Read Value
  | depth, inTag, path, node => do
    let (inTag, path, node) ← follow targets inTag path node
    match node, depth with
    | .missing why, _ => throw (.broken why)
    | .alias mark _, _ => throw (.broken (.unknownAnchor mark))
    | .scalar mark _ tag text isPlain, _ =>
      underTag inTag tag path mark fun inTag =>
        match scalarValue inTag tag text isPlain with
        | .ok value => pure value
        | .error fault => throw (.badValue fault path mark)
    | .sequence mark _ tag _, 0 | .mapping mark _ tag _, 0 =>
      underTag inTag tag path mark fun _ => throw (.tooDeep mark)
    | .sequence mark _ tag items, depth + 1 =>
      underTag inTag tag path mark fun _ =>
        return .sequence (← readItems path (read targets depth false) 0 items)
    | .mapping mark _ tag entries, depth + 1 =>
      underTag inTag tag path mark fun inTag =>
        return .mapping (← readEntries path mark (read targets depth inTag path)
          (read targets depth false) [] entries)
termination_by structural depth => depth

end Read

-- How deep collections may stand in one another.
def depthLimit : Nat := 128

-- Why a document breaks off, told only after its values were read.
def Document.value (d : Document) : Except Refusal Value :=
  match d.root with
  | none => .ok .null
  | some root =>
    let targets : Read.Targets := ⟨root.anchored, 100 * root.size.1⟩
    match (Read.read targets depthLimit false .root root).run 0 with
    | .error refusal => .error refusal
    | .ok (value, _) =>
      match d.broken with
      | some why => .error (.broken why)
      | none => if d.isFollowed then .error .secondDocument else .ok value

-- The value of a text, which has to hold one document at most.
def Value.read (text : String) : Except Refusal Value := (Document.ofTokens (tokens text)).value

end Likeness.Yaml
