import Likeness.Json.Text

namespace Likeness.Yaml

-- What a document says. The keys of a mapping may be any values.
inductive Value where
  | null
  | bool (b : Bool)
  | int (n : Int)
  | double (x : Float)
  | string (s : String)
  | sequence (items : List Value)
  | mapping (entries : List (Value × Value))
  | tagged (tag : String) (value : Value)

namespace Value

mutual

-- Whether two values are the same: mappings in any order of their entries. All numbers that are
-- not finite count as one if they are no number at all.
def same : Value → Value → Bool
  | .null, .null => true
  | .bool a, .bool b => a == b
  | .int a, .int b => a == b
  | .double a, .double b => (a.isNaN && b.isNaN) || a == b
  | .string a, .string b => a == b
  | .sequence as, .sequence bs => sameItems as bs
  | .mapping as, .mapping bs => as.length == bs.length && allIn as bs
  | .tagged s a, .tagged t b => s == t && same a b
  | _, _ => false
termination_by structural a => a

def sameItems : List Value → List Value → Bool
  | [], [] => true
  | a :: as, b :: bs => same a b && sameItems as bs
  | _, _ => false
termination_by structural as => as

-- Whether each entry is among the others.
def allIn : List (Value × Value) → List (Value × Value) → Bool
  | [], _ => true
  | (key, value) :: rest, others =>
    others.any (fun (k, v) => same key k && same value v) && allIn rest others
termination_by structural as => as

end

-- The text of a value that is used as a key.
def keyText : Json.Value → String
  | .string s => s
  | v => v.text

mutual

-- The value as a document without tags, whose keys are all texts. A number that is not finite
-- becomes null.
def toJson : Value → Json.Value
  | .null => .null
  | .bool b => .bool b
  | .int n => .number (.int n)
  | .double x => if x.isFinite then .double x else .null
  | .string s => .string s
  | .sequence items => .array (itemsToJson items)
  | .mapping entries => .object (entriesToJson entries [])
  | .tagged _ value => toJson value

def itemsToJson : List Value → List Json.Value
  | [] => []
  | v :: rest => toJson v :: itemsToJson rest

-- Adds entries to the fields of an object, in their order.
def entriesToJson : List (Value × Value) → List (String × Json.Value) → List (String × Json.Value)
  | [], fields => fields
  | (key, value) :: rest, fields =>
    entriesToJson rest (Json.insertField (keyText (toJson key)) (toJson value) fields)

end

end Value

end Likeness.Yaml
