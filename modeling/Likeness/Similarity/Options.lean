import Likeness.Json.Value
import Likeness.Number.Scalar

namespace Likeness.Similarity

open Likeness.Number Likeness.Json

inductive Kind where
  | string
  | number
  | bool
  | null
  | array
  | object
deriving DecidableEq

namespace Kind

def ofValue : Value → Kind
  | .string _ => .string
  | .number _ => .number
  | .bool _ => .bool
  | .null => .null
  | .array _ => .array
  | .object _ => .object

def name : Kind → String
  | .string => "string"
  | .number => "number"
  | .bool => "bool"
  | .null => "null"
  | .array => "array"
  | .object => "object"

end Kind

-- From which score on two values of one kind count as duplicates.
structure Thresholds (α : Type) where
  string : α
  number : α
  array : α
  -- for whole documents and all other kinds
  default : α

namespace Thresholds

variable {α : Type}

def standard [Scalar α] : Thresholds α :=
  ⟨Scalar.tenths 8, Scalar.tenths 9, Scalar.tenths 7, Scalar.tenths 8⟩

def ofKind (t : Thresholds α) : Kind → α
  | .string => t.string
  | .number => t.number
  | .array => t.array
  | .bool | .null | .object => t.default

end Thresholds

-- What is compared, how deep, and how the parts of an object score are weighed.
structure Options (α : Type) where
  compareStrings : Bool
  -- numbers with each other and with numeric strings
  compareNumbers : Bool
  compareArrays : Bool
  compareObjects : Bool
  -- the deepest nesting of objects that is scored; below it pairs score 0
  maxDepth : Nat
  -- the weight of the share of common keys
  structureWeight : α
  -- the weight of the mean score under common keys
  valueWeight : α
  thresholds : Thresholds α

def Options.standard {α : Type} [Scalar α] : Options α :=
  ⟨true, true, true, true, 5, Scalar.tenths 4, Scalar.tenths 6, .standard⟩

end Likeness.Similarity
