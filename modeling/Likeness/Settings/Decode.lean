import Likeness.Number.Layout
import Likeness.Settings.Raw
import Likeness.Text.Characters

namespace Likeness.Settings

-- What is found where something else is expected.
inductive Found where
  | leaf (leaf : Leaf)
  | list
  | table

-- Why a setting is not understood.
inductive Cause where
  | wrongType (found : Found) (expected : String)
  | wrongValue (found : Leaf) (expected : String)
  | unknownField (name : String) (known : List String)
  -- a list that is longer than the fields it is read as
  | tooLong (length : Nat)

-- A cause with the keys that lead to it and the origin of the setting.
structure Problem where
  cause : Cause
  path : List String
  origin : Origin

-- Reads a setting under a path.
abbrev Decode (α : Type) := List String → Raw → Except Problem α

def Raw.found : Raw → Found
  | .leaf _ l => .leaf l
  | .list _ _ => .list
  | .table _ _ => .table

def wrongType {α : Type} (expected : String) (path : List String) (raw : Raw) : Except Problem α :=
  .error ⟨.wrongType raw.found expected, path, raw.origin⟩

-- A whole number that is not negative.
def decodeNat (expected : String) : Decode Nat := fun path raw =>
  match raw with
  | .leaf _ (.unsigned n) => .ok n
  | .leaf origin (.signed n) =>
    if n < 0 then .error ⟨.wrongValue (.signed n) expected, path, origin⟩ else .ok n.toNat
  | _ => wrongType expected path raw

def decodeDouble : Decode Float := fun path raw =>
  match raw with
  | .leaf _ (.double x) => .ok x
  | .leaf _ (.unsigned n) => .ok (Json.Number.int n).toDouble
  | .leaf _ (.signed n) => .ok (Json.Number.int n).toDouble
  | _ => wrongType "f64" path raw

def decodeBool : Decode Bool := fun path raw =>
  match raw with
  | .leaf _ (.bool b) => .ok b
  | _ => wrongType "a boolean" path raw

def decodeText : Decode String := fun path raw =>
  match raw with
  | .leaf _ (.text s) => .ok s
  | .leaf _ (.character c) => .ok c.toString
  | _ => wrongType "a string" path raw

def decodeItems {α : Type} (item : Decode α) (path : List String) (place : Nat) :
    List Raw → Except Problem (List α)
  | [] => .ok []
  | raw :: rest =>
    match item (path ++ [toString place]) raw with
    | .ok value =>
      match decodeItems item path (place + 1) rest with
      | .ok values => .ok (value :: values)
      | .error problem => .error problem
    | .error problem => .error problem

def decodeList {α : Type} (item : Decode α) : Decode (List α) := fun path raw =>
  match raw with
  | .list _ items => decodeItems item path 0 items
  | _ => wrongType "a sequence" path raw

-- A field of a structure: its key, and how a setting changes it.
structure Field (σ : Type) where
  name : String
  read : List String → Raw → σ → Except Problem σ

-- A field that is read by itself and put in its place.
def field {σ α : Type} (name : String) (decode : Decode α) (put : σ → α → σ) : Field σ :=
  ⟨name, fun path raw s => (decode path raw).map (put s)⟩

-- A field that is itself a structure.
def nested {σ τ : Type} (name : String) (read : List String → Raw → τ → Except Problem τ)
    (get : σ → τ) (put : σ → τ → σ) : Field σ :=
  ⟨name, fun path raw s => (read path raw (get s)).map (put s)⟩

-- Reads entries one after the other.
def readEntries {σ : Type} (fields : List (Field σ)) (path : List String) :
    List (String × Raw) → σ → Except Problem σ
  | [], s => .ok s
  | (key, raw) :: rest, s =>
    match fields.find? (·.name == key) with
    | none =>
      .error ⟨.unknownField key (fields.map (·.name)), path ++ [key], raw.origin⟩
    | some field =>
      match field.read (path ++ [key]) raw s with
      | .ok s => readEntries fields path rest s
      | .error problem => .error problem

-- Reads the items of a list as the fields in their order. Files may have more items than fields.
def readPositions {σ : Type} (fields : List (Field σ)) (origin : Origin) (length : Nat)
    (path : List String) (place : Nat) : List Raw → σ → Except Problem σ
  | [], s => .ok s
  | raw :: rest, s =>
    match fields with
    | [] =>
      if origin = .given then .error ⟨.tooLong length, path, origin⟩ else .ok s
    | field :: fields =>
      match field.read (path ++ [toString place]) raw s with
      | .ok s => readPositions fields origin length path (place + 1) rest s
      | .error problem => .error problem

-- Reads a structure. What is not mentioned keeps its value.
def readStructure {σ : Type} (name : String) (fields : List (Field σ)) (path : List String)
    (raw : Raw) (s : σ) : Except Problem σ :=
  match raw with
  | .table _ entries => readEntries fields path entries s
  | .list origin items => readPositions fields origin items.length path 0 items s
  | _ => wrongType ("struct " ++ name) path raw

def tick (s : String) : String := "\x60" ++ s ++ "\x60"

-- The alternatives in a message.
def alternatives : List String → String
  | [] => "there are no fields"
  | [a] => "expected " ++ tick a
  | [a, b] => "expected " ++ tick a ++ " or " ++ tick b
  | names => "expected one of " ++ String.intercalate ", " (names.map tick)

def Leaf.plainText : Leaf → String
  | .null => "null"
  | .bool b => "boolean " ++ tick (toString b)
  | .unsigned n => "integer " ++ tick (toString n)
  | .signed n => "integer " ++ tick (toString n)
  | .double x => "floating point " ++ tick (Number.Layout.pointed.write x)
  | .character c => "character " ++ tick c.toString
  | .text s => "string " ++ Text.quoted s

-- The message for settings that were handed over directly.
def Cause.message : Cause → String
  | .wrongType (.leaf leaf) expected => s!"invalid type: {leaf.plainText}, expected {expected}"
  | .wrongType .list expected => s!"invalid type: sequence, expected {expected}"
  | .wrongType .table expected => s!"invalid type: map, expected {expected}"
  | .wrongValue leaf expected => s!"invalid value: {leaf.plainText}, expected {expected}"
  | .unknownField name known => "unknown field " ++ tick name ++ ", " ++ alternatives known
  | .tooLong length => s!"invalid length {length}, expected fewer elements in array"

end Likeness.Settings
