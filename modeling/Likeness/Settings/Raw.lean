import Likeness.Json.Value

namespace Likeness.Settings

-- Where a setting comes from.
inductive Origin where
  -- it was handed over directly
  | given
  | file (path : String)
  | environment
deriving DecidableEq

-- A setting that has no parts. Whole numbers are kept apart by the kind they were read as.
inductive Leaf where
  | null
  | bool (b : Bool)
  | unsigned (n : Nat)
  | signed (n : Int)
  | double (x : Float)
  | character (c : Char)
  | text (s : String)

-- A setting before its meaning is known. Tables have their keys in ascending order, each once.
inductive Raw where
  | leaf (origin : Origin) (leaf : Leaf)
  | list (origin : Origin) (items : List Raw)
  | table (origin : Origin) (fields : List (String × Raw))

namespace Raw

def origin : Raw → Origin
  | .leaf origin _ => origin
  | .list origin _ => origin
  | .table origin _ => origin

def lookup (key : String) : List (String × Raw) → Option Raw
  | [] => none
  | (k, v) :: rest => if k = key then some v else lookup key rest

-- Adds a field to fields in ascending order, in the place of one of the same key.
def insert (key : String) (value : Raw) : List (String × Raw) → List (String × Raw)
  | [] => [(key, value)]
  | (k, v) :: rest =>
    if key < k then (key, value) :: (k, v) :: rest
    else if key = k then (key, value) :: rest
    else (k, v) :: insert key value rest

mutual

-- Lays one setting over another: tables are joined key by key, all else is replaced.
def merge : Raw → Raw → Raw
  | .table _ under, .table origin upper =>
    .table origin (List.foldl (fun fields (key, value) => insert key value fields)
      (mergeFields under upper) (upper.filter fun (key, _) => (lookup key under).isNone))
  | _, upper => upper
termination_by structural under => under

-- The fields below, each with what lies over it.
def mergeFields : List (String × Raw) → List (String × Raw) → List (String × Raw)
  | [], _ => []
  | (key, value) :: rest, upper =>
    match lookup key upper with
    | some above => (key, merge value above) :: mergeFields rest upper
    | none => (key, value) :: mergeFields rest upper
termination_by structural under => under

end

mutual

-- The settings in a document.
def ofValue : Json.Value → Raw
  | .null => .leaf .given .null
  | .bool b => .leaf .given (.bool b)
  | .number (.int n) => .leaf .given (if n < 0 then .signed n else .unsigned n.toNat)
  | .number (.double x) => .leaf .given (.double x)
  | .string s => .leaf .given (.text s)
  | .array items => .list .given (ofItems items)
  | .object fields => .table .given (ofFields fields)

def ofItems : List Json.Value → List Raw
  | [] => []
  | v :: rest => ofValue v :: ofItems rest

def ofFields : List (String × Json.Value) → List (String × Raw)
  | [] => []
  | (key, v) :: rest => (key, ofValue v) :: ofFields rest

end

end Raw

end Likeness.Settings
