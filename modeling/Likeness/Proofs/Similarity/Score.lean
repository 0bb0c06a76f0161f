import Likeness.Proofs.Similarity.Shares
import Likeness.Proofs.Json.Value

namespace Likeness.Similarity

open Number Json

section Views

variable {α : Type} [Scalar α] (o : Options α) (depth : ℕ)

theorem placedScores_eq (shared : Bool) (as bs : List Value) : placedScores o shared depth as bs =
    (as.zip bs).map fun pair => scoreAt o shared depth pair.1 pair.2 := by
  induction as generalizing bs with
  | nil => rfl
  | cons a as ih =>
    cases bs with
    | nil => rfl
    | cons b bs => rw [placedScores, ih, List.zip_cons_cons, List.map_cons]

-- The best score of a value at a place with any of a list.
def bestScore (shared : Bool) (i : ℕ) (a : Value) (bs : List Value) : α :=
  (bs.zipIdx.map fun pair => scoreAt o (shared && i == pair.2) depth a pair.1).foldl
    Scalar.maximum Scalar.zero

theorem bestScores_eq (shared : Bool) (i : ℕ) (as bs : List Value) :
    bestScores o shared depth i as bs =
      (as.zipIdx i).map fun pair => bestScore o depth shared pair.2 pair.1 bs := by
  induction as generalizing i with
  | nil => rfl
  | cons a as ih =>
    rw [bestScores, ih, List.zipIdx_cons, List.map_cons]
    rfl

-- The values under the keys that both sides have, in the order of the left side.
def commonPairs (as bs : List (String × Value)) : List (Value × Value) :=
  as.filterMap fun field => (lookup field.1 bs).map (field.2, ·)

theorem commonScores_eq (shared : Bool) (as bs : List (String × Value)) :
    commonScores o shared depth as bs =
      (commonPairs as bs).map fun pair => scoreAt o shared depth pair.1 pair.2 := by
  induction as with
  | nil => rfl
  | cons field as ih =>
    obtain ⟨key, a⟩ := field
    rw [commonScores, commonPairs, List.filterMap_cons]
    cases lookup key bs <;> simp only [Option.map_none, Option.map_some] <;> rw [ih] <;> rfl

end Views

theorem mem_of_mem_commonPairs {as bs : List (String × Value)} {pair : Value × Value}
    (h : pair ∈ commonPairs as bs) : ∃ key, (key, pair.1) ∈ as ∧ (key, pair.2) ∈ bs := by
  obtain ⟨field, hfield, hpair⟩ := List.mem_filterMap.mp h
  obtain ⟨b, hb, rfl⟩ := Option.map_eq_some_iff.mp hpair
  exact ⟨field.1, hfield, mem_of_lookup hb⟩

section Shares

variable (o : Options ℚ)

theorem ofNumbers_mem_shares (x y : ℚ) : ofNumbers x y ∈ shares := by
  unfold ofNumbers
  dsimp only
  split
  · exact one_mem_shares
  split
  · exact clamp_mem_shares _
  split
  · exact zero_mem_shares
  · exact clamp_mem_shares _

theorem ofNumeric_mem_shares (a b : Value) : (ofNumeric a b : ℚ) ∈ shares := by
  unfold ofNumeric
  split
  · exact ofNumbers_mem_shares _ _
  · exact zero_mem_shares

theorem blendArrays_mem_shares (as bs : List Value) (placed best : List ℚ) :
    blendArrays as bs placed best ∈ shares := by
  unfold blendArrays
  split
  · exact one_mem_shares
  · exact zero_mem_shares
  · exact zero_mem_shares
  · exact clamp_mem_shares _

theorem scoreAt_mem_shares (shared : Bool) (depth : ℕ) (a b : Value) :
    scoreAt o shared depth a b ∈ shares := by
  have hmaybe {on : Bool} {x : ℚ} (hx : x ∈ shares) :
      (if on then x else Scalar.zero) ∈ shares := by
    split
    · exact hx
    · exact zero_mem_shares
  unfold scoreAt
  split
  · exact hmaybe (ofStrings_mem_shares _ _)
  · exact hmaybe (ofNumeric_mem_shares _ _)
  · exact hmaybe (ofNumeric_mem_shares _ _)
  · exact hmaybe (ofNumeric_mem_shares _ _)
  · exact hmaybe (blendArrays_mem_shares _ _ _ _)
  · split
    · exact zero_mem_shares
    split
    · exact one_mem_shares
    · exact clamp_mem_shares _
  · exact ofBool_mem_shares _
  · exact one_mem_shares
  · exact zero_mem_shares

end Shares

end Likeness.Similarity
