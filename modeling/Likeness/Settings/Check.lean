import Likeness.Number.Layout
import Likeness.Settings.Config

namespace Likeness.Settings

open Number

variable {α : Type} [Scalar α]

-- Settings that no scan can work with.
inductive OutOfRange (α : Type) where
  | noThreads
  | cutoff (x : α)
  | noDepth
  | threshold (name : String) (x : α)
  | weight (name : String) (x : α)
  | noWeight (group : String)

def OutOfRange.message : OutOfRange Float → String
  | .noThreads => "io_threads must be at least 1"
  | .cutoff x => "module_cutoff_percent must be in (0, 100], got " ++ Layout.plain.write x
  | .noDepth => "resources.max_depth must be at least 1"
  | .threshold name x => name ++ " must be in [0, 1], got " ++ Layout.plain.write x
  | .weight name x => name ++ " must be a non-negative number, got " ++ Layout.plain.write x
  | .noWeight group => group ++ " weights must not all be zero"

def thresholdsOf (c : Config α) : List (String × α) :=
  [("resources.thresholds.string", c.resources.thresholds.string),
    ("resources.thresholds.number", c.resources.thresholds.number),
    ("resources.thresholds.array", c.resources.thresholds.array),
    ("resources.thresholds.default", c.resources.thresholds.default),
    ("components.threshold", c.components.threshold)]

-- The weights that are used together.
def weightsOf (c : Config α) : List (String × List (String × α)) :=
  [("resources", [("structure_weight", c.resources.structureWeight),
      ("value_weight", c.resources.valueWeight)]),
    ("components", [("structure_weight", c.components.structureWeight),
      ("hooks_weight", c.components.hooksWeight), ("styles_weight", c.components.stylesWeight)]),
    ("components.hook_weights", [("state", c.components.hookWeights.state),
      ("effect", c.components.hookWeights.effect), ("custom", c.components.hookWeights.custom)]),
    ("components.style_weights", [("inline", c.components.styleWeights.inline),
      ("class_names", c.components.styleWeights.classNames),
      ("styled", c.components.styleWeights.styled)])]

def isShare (x : α) : Bool := Scalar.le Scalar.zero x && Scalar.le x Scalar.one

def isWeight (x : α) : Bool := Scalar.le Scalar.zero x && Scalar.isFinite x

-- The first weight of a group that is none, or that all of them are zero.
def weightFault? (group : String) (weights : List (String × α)) : Option (OutOfRange α) :=
  match weights.find? (!isWeight ·.2) with
  | some (name, x) => some (.weight (group ++ "." ++ name) x)
  | none =>
    if Scalar.le (Scalar.sum (weights.map (·.2))) Scalar.zero then some (.noWeight group) else none

-- The first setting that is out of range.
def Config.fault? (c : Config α) : Option (OutOfRange α) :=
  let cutoff := c.moduleCutoffPercent
  if c.ioThreads = 0 then some .noThreads
  else if !(Scalar.lt Scalar.zero cutoff && Scalar.le cutoff (Scalar.ofNat 100)) then
    some (.cutoff cutoff)
  else if c.resources.maxDepth = 0 then some .noDepth
  else
    match (thresholdsOf c).find? (!isShare ·.2) with
    | some (name, x) => some (.threshold name x)
    | none => (weightsOf c).findSome? fun (group, weights) => weightFault? group weights

end Likeness.Settings
