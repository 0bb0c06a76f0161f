import Likeness.Toml.Scalar
import Likeness.Toml.Value

namespace Likeness.Toml

def isBlank (c : Char) : Bool := c = ' ' || c = '\t'

def skipBlanks (cs : List Char) : List Char := cs.dropWhile isBlank

-- A comment up to the end of its line; nothing at other places.
def skipComment : List Char → List Char
  | '#' :: rest => rest.dropWhile isPrintable
  | cs => cs

-- The end of a line after blanks and a comment, or the end of the text.
def readLineEnd (cs : List Char) : Option (List Char) :=
  match skipComment (skipBlanks cs) with
  | [] => some []
  | '\n' :: rest => some rest
  | '\r' :: '\n' :: rest => some rest
  | _ => none

-- Blanks, breaks and comments.
def skipLines : Nat → List Char → List Char
  | 0, cs => cs
  | fuel + 1, cs =>
    match skipComment (skipBlanks cs) with
    | '\n' :: rest => skipLines fuel rest
    | '\r' :: '\n' :: rest => skipLines fuel rest
    | cs => cs

def skipSpace (cs : List Char) : List Char := skipLines (cs.length + 1) cs

-- A key without points: bare or quoted.
def readSimpleKey (cs : List Char) : Reading String :=
  match cs with
  | '"' :: rest => (readBasic rest).map fun (key, rest) => (String.ofList key, rest)
  | '\x27' :: rest => (readLiteral rest).map fun (key, rest) => (String.ofList key, rest)
  | _ =>
    let key := cs.takeWhile isBareKeyChar
    if key.isEmpty then none else some (String.ofList key, cs.drop key.length)

-- How deep values may stand in one another, and how many parts a key may have.
def depthLimit : Nat := 80

-- A dotted key as the path to its last part, and that part.
def readKey : Nat → List Char → Reading (List String × String)
  | 0, _ => none
  | fuel + 1, cs =>
    match readSimpleKey cs with
    | none => none
    | some (key, rest) =>
      match skipBlanks rest with
      | '.' :: more =>
        (readKey fuel (skipBlanks more)).map fun ((path, last), rest) => ((key :: path, last), rest)
      | _ => some (([], key), rest)

-- A key, the sign after it, and its value.
def readPair (value : List Char → Reading Value) (cs : List Char) :
    Reading ((List String × String) × Value) :=
  match readKey (depthLimit - 1) cs with
  | none => none
  | some (key, rest) =>
    match skipBlanks rest with
    | '=' :: rest => (value (skipBlanks rest)).map fun (v, rest) => ((key, v), rest)
    | _ => none

-- The values of an array up to its end; a comma may stand after the last.
def readItems (value : List Char → Reading Value) : Nat → List Char → Reading (List Value)
  | 0, _ => none
  | fuel + 1, cs =>
    match skipSpace cs with
    | ']' :: rest => some ([], rest)
    | cs =>
      match value cs with
      | none => none
      | some (v, rest) =>
        match skipSpace rest with
        | ',' :: rest => (readItems value fuel rest).map fun (items, rest) => (v :: items, rest)
        | ']' :: rest => some ([v], rest)
        | _ => none

-- The pairs of a table on one line up to its end, added to those before them.
def readPairs (value : List Char → Reading Value) : Nat → Table → List Char → Reading Table
  | 0, _, _ => none
  | fuel + 1, t, cs =>
    match readPair value (skipBlanks cs) with
    | none => none
    | some (((path, key), v), rest) =>
      match t.insert path key v, skipBlanks rest with
      | some t, ',' :: rest => readPairs value fuel t rest
      | some t, '\x7d' :: rest => some (t, rest)
      | _, _ => none

-- A value. Arrays and tables stand in one another at most `depth` deep.
def readValue (size : Nat) : Nat → List Char → Reading Value
  | depth, cs =>
    match cs, depth with
    | 't' :: 'r' :: 'u' :: 'e' :: rest, _ => some (.bool true, rest)
    | 'f' :: 'a' :: 'l' :: 's' :: 'e' :: rest, _ => some (.bool false, rest)
    | '"' :: _, _ | '\x27' :: _, _ => (readQuoted cs).map fun (s, rest) => (.string s, rest)
    | '[' :: _, 0 | '\x7b' :: _, 0 => none
    | '[' :: rest, depth + 1 =>
      (readItems (readValue size depth) size rest).map fun (items, rest) => (.array items, rest)
    | '\x7b' :: rest, depth + 1 =>
      match skipBlanks rest with
      | '\x7d' :: rest => some (.table [], rest)
      | rest =>
        (readPairs (readValue size depth) size .empty rest).map fun (t, rest) =>
          (t.item.toValue, rest)
    | _, _ => readNumber cs
termination_by structural depth => depth

-- The document so far, and the path of the table that pairs are added to.
structure Document where
  root : Table
  current : List String

namespace Document

def empty : Document := ⟨.empty, []⟩

-- The header of a table after its first bracket.
def readHeader (d : Document) (cs : List Char) : Reading Document :=
  let name (cs : List Char) := (readKey (depthLimit - 1) (skipBlanks cs)).map fun (key, rest) =>
    (key, skipBlanks rest)
  match cs with
  | '[' :: rest =>
    match name rest with
    | some ((path, key), ']' :: ']' :: rest) =>
      (d.root.openNext path key).map fun root => (⟨root, path ++ [key]⟩, rest)
    | _ => none
  | _ =>
    match name cs with
    | some ((path, key), ']' :: rest) =>
      (d.root.openTable path key).map fun root => (⟨root, path ++ [key]⟩, rest)
    | _ => none

-- Adds a pair to the current table.
def readEntry (d : Document) (cs : List Char) : Reading Document :=
  match readPair (readValue (cs.length + 1) (depthLimit - 1)) cs with
  | none => none
  | some (((path, key), value), rest) =>
    (Table.update false (Table.insert path key value) d.current d.root).map fun root =>
      ({ d with root }, rest)

-- The lines of a document.
def readLines : Nat → Document → List Char → Option Document
  | 0, _, _ => none
  | fuel + 1, d, cs =>
    match skipSpace cs with
    | [] => some d
    | cs =>
      let line := match cs with
        | '[' :: rest => d.readHeader rest
        | _ => d.readEntry cs
      match line with
      | none => none
      | some (d, rest) =>
        match readLineEnd rest with
        | none => none
        | some rest => readLines fuel d rest

end Document

-- The table a text describes, if the text is well formed.
def read? (text : String) : Option (List (String × Value)) :=
  let cs := match text.toList with
    | '\ufeff' :: rest => rest
    | cs => cs
  (Document.readLines (cs.length + 1) .empty cs).map fun d => Item.toFields d.root.fields

end Likeness.Toml
