import Likeness.Number.Layout
import Likeness.Toml.Quoted

namespace Likeness.Toml

def writeKey (key : String) : String :=
  if key ≠ "" && key.toList.all isBareKeyChar then key else quote key

mutual

-- A value on the line of its key. An array of several values has a line for each of them.
def Value.text : Value → String
  | .bool b => if b then "true" else "false"
  | .int n => toString n
  | .double x => Number.Layout.pointed.write x
  | .string s => quote s
  | .time s => s
  | .array [] => "[]"
  | .array [v] => "[" ++ v.text ++ "]"
  | .array items => "[\n" ++ String.join (itemLines items) ++ "]"
  | .table fields => "\x7b " ++ String.intercalate ", " (pairTexts fields) ++ " \x7d"

def itemLines : List Value → List String
  | [] => []
  | v :: rest => ("    " ++ v.text ++ ",\n") :: itemLines rest

def pairTexts : List (String × Value) → List String
  | [] => []
  | (key, v) :: rest => (writeKey key ++ " = " ++ v.text) :: pairTexts rest

end

-- The lines of the fields that are no tables.
def valueLines : List (String × Value) → String
  | [] => ""
  | (_, .table _) :: rest => valueLines rest
  | (key, v) :: rest => writeKey key ++ " = " ++ v.text ++ "\n" ++ valueLines rest

def header (path : List String) : String :=
  "\n[" ++ String.intercalate "." (path.map writeKey) ++ "]\n"

-- The tables among some fields, each after a blank line and its header, and after each of them the
-- tables in it.
def tableLines (path : List String) : List (String × Value) → String
  | [] => ""
  | (key, .table fields) :: rest =>
    header (path ++ [key]) ++ valueLines fields ++ tableLines (path ++ [key]) fields
      ++ tableLines path rest
  | _ :: rest => tableLines path rest

-- The text of a document: its values, then its tables.
def write (fields : List (String × Value)) : String := valueLines fields ++ tableLines [] fields

end Likeness.Toml
