import Likeness.Proofs.Similarity.Score

namespace Likeness.Similarity

open Number Json

-- Options that compare as much and ask for no more, with the same weights.
structure Looser (o' o : Options ℚ) : Prop where
  strings : o.compareStrings = true → o'.compareStrings = true
  numbers : o.compareNumbers = true → o'.compareNumbers = true
  arrays : o.compareArrays = true → o'.compareArrays = true
  objects : o.compareObjects = true → o'.compareObjects = true
  maxDepth : o.maxDepth ≤ o'.maxDepth
  structureWeight_eq : o'.structureWeight = o.structureWeight
  valueWeight_eq : o'.valueWeight = o.valueWeight
  structureWeight_nonneg : 0 ≤ o.structureWeight
  valueWeight_nonneg : 0 ≤ o.valueWeight
  thresholds (kind : Kind) : o'.thresholds.ofKind kind ≤ o.thresholds.ofKind kind

section Arithmetic

variable {β : Type} {f g : β → ℚ}

theorem clamp_mono {x y : ℚ} (h : x ≤ y) : Scalar.clamp x ≤ Scalar.clamp y := by
  rw [Scalar.exact_clamp, Scalar.exact_clamp]
  exact min_le_min_right 1 (max_le_max_right 0 h)

-- What is only scored if it is asked for.
theorem asked_mono {on on' : Bool} (hon : on = true → on' = true) {x y : ℚ} (hxy : x ≤ y)
    (hy : y ∈ shares) :
    (if on = true then x else Scalar.zero) ≤ if on' = true then y else Scalar.zero := by
  split
  · rename_i h
    rwa [if_pos (hon h)]
  · split
    · rw [Scalar.exact_zero]
      exact hy.1
    · exact le_rfl

theorem sum_mono {bs : List β} (h : ∀ b ∈ bs, f b ≤ g b) :
    Scalar.sum (bs.map f) ≤ Scalar.sum (bs.map g) := by
  rw [Scalar.exact_sum, Scalar.exact_sum]
  exact List.sum_le_sum h

theorem foldl_maximum_mono {bs : List β} (h : ∀ b ∈ bs, f b ≤ g b) {x y : ℚ} (hxy : x ≤ y) :
    (bs.map f).foldl Scalar.maximum x ≤ (bs.map g).foldl Scalar.maximum y := by
  induction bs generalizing x y with
  | nil => exact hxy
  | cons b bs ih =>
    obtain ⟨hb, hrest⟩ := List.forall_mem_cons.mp h
    simp only [List.map_cons, List.foldl_cons, Scalar.exact_maximum]
    exact ih hrest (max_le_max hxy hb)

theorem share_mono {x y : ℚ} (h : x ≤ y) (n : ℕ) :
    x / Scalar.ofNat n ≤ y / Scalar.ofNat n :=
  div_le_div_of_nonneg_right h (Nat.cast_nonneg n)

theorem blendArrays_mono (as bs : List Value) {placed placed' best best' : List ℚ}
    (hplaced : Scalar.sum placed ≤ Scalar.sum placed')
    (hbest : Scalar.sum best ≤ Scalar.sum best') :
    blendArrays as bs placed best ≤ blendArrays as bs placed' best' := by
  unfold blendArrays
  split
  · exact le_rfl
  · exact le_rfl
  · exact le_rfl
  · have htenths (n : ℕ) : (0 : ℚ) ≤ Scalar.tenths n := by
      rw [Scalar.exact_tenths]
      positivity
    refine clamp_mono ?_
    simp only [Scalar.exact_maximum]
    refine max_le_max_left _ (add_le_add_left (add_le_add ?_ ?_) _)
    · exact mul_le_mul_of_nonneg_left (share_mono hplaced _) (htenths 5)
    · exact mul_le_mul_of_nonneg_left (share_mono hbest _) (htenths 3)

theorem blendObjects_mono {o o' : Options ℚ} (h : Looser o' o) (m n : ℕ) {bs : List β}
    (hscores : ∀ b ∈ bs, f b ≤ g b) :
    blendObjects o m n (bs.map f) ≤ blendObjects o' m n (bs.map g) := by
  unfold blendObjects
  dsimp only
  rw [h.structureWeight_eq, h.valueWeight_eq, List.length_map, List.length_map, List.isEmpty_map,
    List.isEmpty_map]
  refine clamp_mono (add_le_add_right (mul_le_mul_of_nonneg_left ?_ h.valueWeight_nonneg) _)
  split
  · exact le_rfl
  · exact share_mono (sum_mono hscores) _

end Arithmetic

variable {o o' : Options ℚ}

-- Looser options score every two values at least as high.
theorem scoreAt_mono (h : Looser o' o) (shared : Bool) (depth : ℕ) (a b : Value) :
    scoreAt o shared depth a b ≤ scoreAt o' shared depth a b := by
  induction a using Value.inductionOnParts generalizing shared depth b with
  | null => cases b <;> exact le_rfl
  | bool a => cases b <;> exact le_rfl
  | number m =>
    cases b with
    | number n => exact asked_mono h.numbers le_rfl (ofNumeric_mem_shares _ _)
    | string t => exact asked_mono h.numbers le_rfl (ofNumeric_mem_shares _ _)
    | _ => exact le_rfl
  | string s =>
    cases b with
    | number n => exact asked_mono h.numbers le_rfl (ofNumeric_mem_shares _ _)
    | string t => exact asked_mono h.strings le_rfl (ofStrings_mem_shares _ _)
    | _ => exact le_rfl
  | array as ih =>
    cases b with
    | array bs =>
      refine asked_mono h.arrays (blendArrays_mono as bs ?_ ?_) (blendArrays_mem_shares _ _ _ _)
      · rw [placedScores_eq, placedScores_eq]
        exact sum_mono fun pair hpair => ih _ (List.of_mem_zip hpair).1 shared depth pair.2
      · rw [bestScores_eq, bestScores_eq]
        refine sum_mono fun pair hpair => foldl_maximum_mono (fun other _ => ?_) le_rfl
        exact ih _ (List.fst_mem_of_mem_zipIdx hpair) _ depth other.1
    | _ => exact le_rfl
  | object as ih =>
    cases b with
    | object bs =>
      have hshare := scoreAt_mem_shares o' shared depth (.object as) (.object bs)
      rw [scoreAt]
      split
      · rw [Scalar.exact_zero]
        exact hshare.1
      rename_i hcompared
      have hcompared' : ¬(!o'.compareObjects || o'.maxDepth < depth) = true := by
        simp only [Bool.or_eq_true, Bool.not_eq_true', decide_eq_true_eq, not_or,
          Bool.not_eq_false, not_lt] at hcompared ⊢
        exact ⟨h.objects hcompared.1, hcompared.2.trans h.maxDepth⟩
      rw [scoreAt, if_neg hcompared']
      split
      · exact le_rfl
      · rw [commonScores_eq, commonScores_eq]
        refine blendObjects_mono h _ _ fun pair hpair => ?_
        obtain ⟨key, hkey, -⟩ := mem_of_mem_commonPairs hpair
        exact ih _ hkey shared (depth + 1) pair.2
    | _ => exact le_rfl

theorem objectScore_mono (h : Looser o' o) (shared : Bool) (a b : Value) :
    objectScore o shared a b ≤ objectScore o' shared a b := by
  unfold objectScore
  split
  · exact scoreAt_mono h shared 0 _ _
  · exact le_rfl

end Likeness.Similarity
