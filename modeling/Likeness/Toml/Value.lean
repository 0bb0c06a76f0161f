import Likeness.Number.Word

namespace Likeness.Toml

-- What a document holds. Tables have their keys in the order of the document, each once.
inductive Value where
  | bool (b : Bool)
  | int (n : Int)
  | double (x : Float)
  | string (s : String)
  -- a date, a time of day or both, as it is written
  | time (s : String)
  | array (items : List Value)
  | table (fields : List (String × Value))

-- The integers a document can hold.
def isInt (n : Int) : Bool := -Number.signedLimit ≤ n && n < Number.signedLimit

def isBareKeyChar (c : Char) : Bool := c.isAlphanum || c = '_' || c = '-'

-- A part of a document while it is read. A table is implied until it is named by a header; dotted
-- keys make tables that no header may name.
inductive Item where
  | value (v : Value)
  | table (implied dotted : Bool) (fields : List (String × Item))
  -- the tables of a repeated header, last one first, each with its fields
  | tables (all : List (List (String × Item)))

namespace Item

def find? (key : String) : List (String × Item) → Option Item
  | [] => none
  | (k, item) :: rest => if k = key then some item else find? key rest

-- Puts an item in the place of the one of the same key, or after all others.
def put (key : String) (item : Item) : List (String × Item) → List (String × Item)
  | [] => [(key, item)]
  | (k, old) :: rest => if k = key then (key, item) :: rest else (k, old) :: put key item rest

mutual

def toValue : Item → Value
  | .value v => v
  | .table _ _ fields => .table (toFields fields)
  | .tables all => .array (toTables all).reverse

def toFields : List (String × Item) → List (String × Value)
  | [] => []
  | (key, item) :: rest => (key, toValue item) :: toFields rest

def toTables : List (List (String × Item)) → List Value
  | [] => []
  | fields :: rest => .table (toFields fields) :: toTables rest

end

end Item

-- A table that is being read.
structure Table where
  implied : Bool
  dotted : Bool
  fields : List (String × Item)

namespace Table

def empty : Table := ⟨false, false, []⟩

def item (t : Table) : Item := .table t.implied t.dotted t.fields

def put (t : Table) (key : String) (item : Item) : Table :=
  { t with fields := Item.put key item t.fields }

-- Changes the table at the end of a path. Missing tables on the way are made; a path of dotted keys
-- leads through no table that has a header.
def update (dotted : Bool) (change : Table → Option Table) : List String → Table → Option Table
  | [], t => change t
  | key :: path, t =>
    match Item.find? key t.fields with
    | none =>
      (update dotted change path ⟨true, dotted, []⟩).map fun sub => t.put key sub.item
    | some (.value _) => none
    | some (.table implied wasDotted fields) =>
      if dotted && !implied then none
      else
        (update dotted change path ⟨implied, wasDotted, fields⟩).map fun sub =>
          t.put key sub.item
    | some (.tables []) => none
    | some (.tables (last :: others)) =>
      (update dotted change path ⟨false, false, last⟩).map fun sub =>
        t.put key (.tables (sub.fields :: others))

-- Adds a value under a dotted key. No key is given twice, and dotted keys add only to tables of
-- such keys.
def insert (path : List String) (key : String) (value : Value) : Table → Option Table :=
  update true (fun t =>
    if !path.isEmpty && !t.dotted then none
    else
      match Item.find? key t.fields with
      | some _ => none
      | none => some (t.put key (.value value))) path

-- Opens the table of a header, which may be implied but not given already.
def openTable (path : List String) (key : String) : Table → Option Table :=
  update false (fun t =>
    match Item.find? key t.fields with
    | none => some (t.put key (.table false false []))
    | some (.table true false fields) => some (t.put key (.table false false fields))
    | some _ => none) path

-- Opens one more table of a repeated header.
def openNext (path : List String) (key : String) : Table → Option Table :=
  update false (fun t =>
    match Item.find? key t.fields with
    | none => some (t.put key (.tables [[]]))
    | some (.tables all) => some (t.put key (.tables ([] :: all)))
    | some _ => none) path

end Table

end Likeness.Toml
