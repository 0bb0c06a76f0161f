namespace Likeness.Json

-- A number is kept as the integer it was written as, where there is one.
inductive Number where
  | int (n : Int)
  | double (x : Float)

-- A document or a part of one. Documents that are read have the keys of each object in ascending
-- order, each once; documents that are written keep the order they were built in.
inductive Value where
  | null
  | bool (b : Bool)
  | number (n : Number)
  | string (s : String)
  | array (items : List Value)
  | object (fields : List (String × Value))

namespace Number

-- Integers outside the signed words are the unsigned ones.
def toDouble : Number → Float
  | .int n => if n < 0 then -(n.natAbs.toUInt64.toFloat) else n.toNat.toUInt64.toFloat
  | .double x => x

end Number

namespace Value

def nat (n : Nat) : Value := .number (.int n)

def double (x : Float) : Value := .number (.double x)

def ofOption {α : Type} (f : α → Value) : Option α → Value
  | none => .null
  | some a => f a

def strings (xs : List String) : Value := .array (xs.map .string)

end Value

-- The value under a key, in any list of fields.
def lookup (key : String) : List (String × Value) → Option Value
  | [] => none
  | (k, v) :: rest => if k = key then some v else lookup key rest

-- Adds a field to fields in ascending order; a field of the same key is replaced.
def insertField (key : String) (value : Value) : List (String × Value) → List (String × Value)
  | [] => [(key, value)]
  | (k, v) :: rest =>
    if key < k then (key, value) :: (k, v) :: rest
    else if key = k then (key, value) :: rest
    else (k, v) :: insertField key value rest

end Likeness.Json
