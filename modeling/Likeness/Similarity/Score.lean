import Likeness.Json.Text
import Likeness.Number.Reader
import Likeness.Similarity.Options
import Likeness.Text.Characters
import Likeness.Text.Distance

namespace Likeness.Similarity

open Likeness.Number Likeness.Json

variable {α : Type} [Scalar α]

-- One less the edit distance as a share of the longer text.
def ofStrings (a b : String) : α :=
  if a = b then Scalar.one
  else
    let longest := max a.length b.length
    if longest = 0 then Scalar.one
    else
      let distance := Text.editDistance a.toList b.toList
      Scalar.clamp (Scalar.one - Scalar.ofNat distance / Scalar.ofNat longest)

-- Two numbers below 1 in magnitude are compared by their difference, all others by the difference
-- as a share of the mean magnitude.
def ofNumbers (a b : α) : α :=
  if Scalar.same a b then Scalar.one
  else
    let difference := Scalar.abs (a - b)
    if Scalar.lt (Scalar.abs a) Scalar.one && Scalar.lt (Scalar.abs b) Scalar.one then
      Scalar.clamp (Scalar.one - Scalar.minimum difference Scalar.one)
    else
      let mean := (Scalar.abs a + Scalar.abs b) / Scalar.ofNat 2
      if Scalar.same mean Scalar.zero || !Scalar.isFinite difference then Scalar.zero
      else Scalar.clamp (Scalar.one - difference / mean)

-- The finite number that a number or a numeric string stands for.
def numeric? : Value → Option Float
  | .number n => some n.toDouble
  | .string s =>
    match readDouble (Text.trimChars s.toList) with
    | some x => if x.isFinite then some x else none
    | none => none
  | _ => none

def ofNumeric (a b : Value) : α :=
  match numeric? a, numeric? b with
  | some x, some y => ofNumbers (Scalar.ofDouble x) (Scalar.ofDouble y)
  | _, _ => Scalar.zero

-- The canonical texts of values in ascending order: equal for two lists just when one is a
-- rearrangement of the other.
def sortedTexts (values : List Value) : List String :=
  (values.map Value.text).mergeSort (fun a b => !(b < a : Bool))

def ratio (a b : Nat) : α := Scalar.ofNat a / Scalar.ofNat b

-- The score of two lists from the scores of the pairs at one place, and for each value on the left
-- its best score with any on the right.
def blendArrays (a b : List Value) (placed best : List α) : α :=
  match a.isEmpty, b.isEmpty with
  | true, true => Scalar.one
  | true, false | false, true => Scalar.zero
  | false, false =>
    let longest : α := Scalar.ofNat (max a.length b.length)
    let positional := Scalar.sum placed / longest
    let bestMatch := Scalar.sum best / longest
    let rearranged : α := Scalar.ofBool (sortedTexts a == sortedTexts b)
    Scalar.clamp (Scalar.maximum rearranged
      (Scalar.tenths 5 * positional + Scalar.tenths 3 * bestMatch + Scalar.tenths 2 * rearranged))

-- The score of two objects from the scores under their common keys.
def blendObjects (o : Options α) (sizeA sizeB : Nat) (common : List α) : α :=
  let structural : α := ratio common.length (max sizeA sizeB)
  let value : α :=
    if common.isEmpty then Scalar.zero else Scalar.sum common / Scalar.ofNat common.length
  Scalar.clamp (o.structureWeight * structural + o.valueWeight * value)

mutual

-- The score of two values at a depth of objects. `shared` says that both sides are one and the
-- same value, which spares the comparison of an object with itself.
def scoreAt (o : Options α) (shared : Bool) (depth : Nat) : Value → Value → α
  | .string a, .string b => if o.compareStrings then ofStrings a b else Scalar.zero
  | .number a, .number b =>
    if o.compareNumbers then ofNumeric (.number a) (.number b) else Scalar.zero
  | .number a, .string b =>
    if o.compareNumbers then ofNumeric (.number a) (.string b) else Scalar.zero
  | .string a, .number b =>
    if o.compareNumbers then ofNumeric (.string a) (.number b) else Scalar.zero
  | .array as, .array bs =>
    if o.compareArrays then
      blendArrays as bs (placedScores o shared depth as bs) (bestScores o shared depth 0 as bs)
    else Scalar.zero
  | .object as, .object bs =>
    if !o.compareObjects || o.maxDepth < depth then Scalar.zero
    else if shared || (as.isEmpty && bs.isEmpty) then Scalar.one
    else blendObjects o as.length bs.length (commonScores o shared (depth + 1) as bs)
  | .bool a, .bool b => Scalar.ofBool (a == b)
  | .null, .null => Scalar.one
  | _, _ => Scalar.zero
termination_by structural a => a

-- The scores of the values at one place of both lists.
def placedScores (o : Options α) (shared : Bool) (depth : Nat) : List Value → List Value → List α
  | a :: as, b :: bs => scoreAt o shared depth a b :: placedScores o shared depth as bs
  | _, _ => []
termination_by structural as => as

-- For each value on the left, from place `i` on, its best score with any on the right.
def bestScores (o : Options α) (shared : Bool) (depth i : Nat) : List Value → List Value → List α
  | [], _ => []
  | a :: as, bs =>
    ((bs.zipIdx.map fun (b, j) => scoreAt o (shared && i == j) depth a b).foldl Scalar.maximum
      Scalar.zero) :: bestScores o shared depth (i + 1) as bs
termination_by structural as => as

-- The scores under the keys that both sides have, in the order of the left side.
def commonScores (o : Options α) (shared : Bool) (depth : Nat) :
    List (String × Value) → List (String × Value) → List α
  | [], _ => []
  | (key, a) :: as, bs =>
    match lookup key bs with
    | some b => scoreAt o shared depth a b :: commonScores o shared depth as bs
    | none => commonScores o shared depth as bs
termination_by structural as => as

end

def score (o : Options α) (a b : Value) : α := scoreAt o false 0 a b

-- The score of two whole objects; anything else scores 0.
def objectScore (o : Options α) (shared : Bool) (a b : Value) : α :=
  match a, b with
  | .object as, .object bs => scoreAt o shared 0 (.object as) (.object bs)
  | _, _ => Scalar.zero

-- The score of two lists, whether or not lists are compared inside of values.
def arrayScore (o : Options α) (shared : Bool) (as bs : List Value) : α :=
  blendArrays as bs (placedScores o shared 0 as bs) (bestScores o shared 0 0 as bs)

end Likeness.Similarity
