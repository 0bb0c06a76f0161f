import Likeness.Number.Reader
import Likeness.Settings.Raw
import Likeness.Text.Characters
import Likeness.Toml.Quoted

namespace Likeness.Settings.Environment

open Toml (Reading)

def isSpace (c : Char) : Bool := c = ' ' || c = '\t' || c = '\n' || c = '\x0c' || c = '\r'

def skipSpace (cs : List Char) : List Char := cs.dropWhile isSpace

-- The characters that part the items of lists and tables.
def isSeparator (c : Char) : Bool :=
  c = ',' || c = '\x7b' || c = '\x7d' || c = '[' || c = ']'

-- What a word without quotes stands for.
def wordLeaf (cs : List Char) : Leaf :=
  let double := if cs.contains '.' then Number.readDouble cs else none
  match double, Number.readNat64 cs, Number.readInt64 cs with
  | some x, _, _ => .double x
  | none, some n, _ => .unsigned n
  | none, none, some n => .signed n
  | none, none, none => .text (String.ofList cs)

def readWord (cs : List Char) : Reading Raw :=
  let word := Text.trimChars (cs.takeWhile (!isSeparator ·))
  some (.leaf .environment (wordLeaf word), cs.dropWhile (!isSeparator ·))

def readKey (cs : List Char) : Reading String :=
  match skipSpace cs with
  | '"' :: rest => (Toml.readBasic rest).map fun (key, rest) => (String.ofList key, skipSpace rest)
  | cs =>
    let key := cs.takeWhile Toml.isBareKeyChar
    if key.isEmpty then none else some (String.ofList key, skipSpace (cs.drop key.length))

-- The items of a list up to its end. A comma may stand after the last one.
def readItems (value : List Char → Reading Raw) : Nat → List Char → Reading (List Raw)
  | 0, _ => none
  | fuel + 1, cs =>
    match cs with
    | ']' :: rest => some ([], rest)
    | cs =>
      match value cs with
      | some (v, ',' :: rest) =>
        (readItems value fuel rest).map fun (items, rest) => (v :: items, rest)
      | some (v, ']' :: rest) => some ([v], rest)
      | _ => none

-- The entries of a table up to its end, added to those before them.
def readPairs (value : List Char → Reading Raw) :
    Nat → List (String × Raw) → List Char → Reading (List (String × Raw))
  | 0, _, _ => none
  | fuel + 1, fields, cs =>
    match cs with
    | '\x7d' :: rest => some (fields, rest)
    | cs =>
      match readKey cs with
      | some (key, '=' :: rest) =>
        match value rest with
        | some (v, ',' :: rest) => readPairs value fuel (Raw.insert key v fields) rest
        | some (v, '\x7d' :: rest) => some (Raw.insert key v fields, rest)
        | _ => none
      | _ => none

-- A value and the blanks around it. Values stand in one another at most `depth` deep.
def readValue (size : Nat) : Nat → List Char → Reading Raw
  | 0, _ => none
  | depth + 1, cs =>
    let leaf (l : Leaf) (rest : List Char) : Reading Raw := some (.leaf .environment l, rest)
    let value : Reading Raw := match skipSpace cs with
      | 't' :: 'r' :: 'u' :: 'e' :: rest => leaf (.bool true) rest
      | 'f' :: 'a' :: 'l' :: 's' :: 'e' :: rest => leaf (.bool false) rest
      | '\x7b' :: rest =>
        (readPairs (readValue size depth) size [] rest).map fun (fields, rest) =>
          (.table .environment fields, rest)
      | '[' :: rest =>
        (readItems (readValue size depth) size rest).map fun (items, rest) =>
          (.list .environment items, rest)
      | '"' :: rest => (Toml.readBasic rest).bind fun (s, rest) => leaf (.text (String.ofList s)) rest
      | '\x27' :: c :: '\x27' :: rest => leaf (.character c) rest
      | '\x27' :: _ => none
      | cs => readWord cs
    value.map fun (v, rest) => (v, skipSpace rest)

-- The setting that the text of a variable stands for. A text that is no value as a whole stands for
-- itself.
def ofText (text : String) : Raw :=
  let cs := text.toList
  match readValue (cs.length + 1) (cs.length + 1) cs with
  | some (v, []) => v
  | _ => .leaf .environment (.text text)

-- The pieces of a name: between points and pairs of underscores.
def splitName : List Char → List (List Char)
  | [] => [[]]
  | '_' :: '_' :: rest => [] :: splitName rest
  | c :: rest =>
    if c = '.' then [] :: splitName rest
    else
      match splitName rest with
      | piece :: pieces => (c :: piece) :: pieces
      | [] => [[c]]

-- What the names of entries with settings start with. Capitals count as small letters.
def start : List Char := "dupecheck_".toList

-- The keys that the name of a variable stands for, if it is the name of a setting.
def keysOf (name : String) : Option (List String) :=
  let cs := name.toList.map Char.toLower
  if start.isPrefixOf cs then
    let pieces := splitName (Text.trimChars (cs.drop start.length))
    if pieces.any List.isEmpty then none else some (pieces.map String.ofList)
  else none

-- A setting under some keys.
def nest (value : Raw) : List String → Raw
  | [] => value
  | key :: keys => .table .environment [(key, nest value keys)]

-- The settings in some entries, of which later ones lie over earlier ones.
def read (entries : List (String × String)) : Raw :=
  entries.foldl (fun under (name, text) =>
    match keysOf name with
    | some keys => under.merge (nest (ofText text) keys)
    | none => under) (.table .environment [])

end Likeness.Settings.Environment
