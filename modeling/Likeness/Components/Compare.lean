import Likeness.Components.Component
import Likeness.Duplicates.Registry
import Likeness.Modules.Module

namespace Likeness.Components

open Duplicates Number Similarity

variable {α : Type} [Scalar α]

-- From which score on two components are reported, and how their parts are weighed.
structure ComponentOptions (α : Type) where
  threshold : α
  compareHooks : Bool
  compareStyles : Bool
  -- the weight of properties and elements
  structureWeight : α
  hooksWeight : α
  stylesWeight : α
  hookWeights : HookWeights α
  styleWeights : StyleWeights α

def ComponentOptions.standard : ComponentOptions α :=
  ⟨Scalar.tenths 8, true, true, Scalar.tenths 6, Scalar.tenths 2, Scalar.tenths 2, .standard,
    .standard⟩

-- The scores of the parts of two components. Parts that are not compared have none.
structure PartScores (α : Type) where
  props : α
  element : α
  -- the mean of the first two
  structural : α
  hooks : Option α
  styles : Option α
  overall : α

def compare (o : ComponentOptions α) (a b : Component) : PartScores α :=
  let props : α := sharedPart a.props b.props
  let element : α := Element.score a.element b.element
  let structural := Scalar.tenths 5 * props + Scalar.tenths 5 * element
  let hooks := if o.compareHooks then some (Hooks.score o.hookWeights a.hooks b.hooks) else none
  let styles :=
    if o.compareStyles then some (Styles.score o.styleWeights a.styles b.styles) else none
  let overall := blend [(o.structureWeight, some structural), (o.hooksWeight, hooks),
    (o.stylesWeight, styles)]
  ⟨props, element, structural, hooks, styles, Scalar.limit overall⟩

def occurrence (c : Component) : Occurrence := ⟨c.file, .component c.name, some c.line⟩

-- What is found for a pair whose score is not below the threshold.
def finding? (o : ComponentOptions α) (pair : Component × Component) : Option (Finding α) :=
  let scores := compare o pair.1 pair.2
  if Scalar.lt scores.overall o.threshold then none
  else
    some ⟨.components, pairKey pair.1.id pair.2.id,
      .component pair.1.name scores.props scores.element, scores.overall,
      [occurrence pair.1, occurrence pair.2]⟩

-- What is found among all pairs of components.
def findings (o : ComponentOptions α) (components : List Component) : List (Finding α) :=
  (orderedPairs components).filterMap (finding? o)

end Likeness.Components
