import Likeness.Number.Scalar

namespace Likeness.Similarity

open Likeness.Number

variable {α : Type} [Scalar α]

-- The weighted mean of the parts that are present. The weights of absent parts do not count, and
-- where nothing counts the mean is 1.
def blend (parts : List (α × Option α)) : α :=
  let present := parts.filterMap fun (weight, score) => score.map fun s => (weight, s)
  let weighted := Scalar.sum (present.map fun (weight, s) => weight * s)
  let total := Scalar.sum (present.map fun (weight, _) => weight)
  if Scalar.le total Scalar.zero then Scalar.one else weighted / total

-- The number of common members as a share of the number of members of either list. Repeated
-- members count once.
def jaccard {β : Type} [BEq β] (as bs : List β) : α :=
  let as := as.eraseDups
  let bs := bs.eraseDups
  let common := (as.filter bs.contains).length
  let either := as.length + bs.length - common
  if either = 0 then Scalar.one else Scalar.ofNat common / Scalar.ofNat either

-- The members of one list that the other one has too, as a share of the longer list.
def sharedPart {β : Type} [BEq β] (as bs : List β) : α :=
  if as.isEmpty && bs.isEmpty then Scalar.one
  else Scalar.ofNat (as.filter bs.contains).length / Scalar.ofNat (max as.length bs.length)

-- The best scores of the members of one list among the other, as a share of the longer list.
-- Absent for two empty lists.
def bestMatch {β : Type} (score : β → β → α) (as bs : List β) : Option α :=
  let longest := max as.length bs.length
  if longest = 0 then none
  else
    let best (a : β) : α := (bs.map (score a)).foldl Scalar.maximum Scalar.zero
    some (Scalar.sum (as.map best) / Scalar.ofNat longest)

end Likeness.Similarity
