import Likeness.Proofs.Similarity.Shares
import Mathlib.Data.Finset.Max

namespace Likeness.Similarity

open Number

-- Parts are given as their weights and their scores.
def weightOf (parts : List (ℚ × ℚ)) : ℚ := (parts.map Prod.fst).sum

def weightedSum (parts : List (ℚ × ℚ)) : ℚ := (parts.map fun part => part.1 * part.2).sum

def mean (parts : List (ℚ × ℚ)) : ℚ :=
  if weightOf parts ≤ 0 then 1 else weightedSum parts / weightOf parts

def present (parts : List (ℚ × Option ℚ)) : List (ℚ × ℚ) :=
  parts.filterMap fun part => part.2.map fun score => (part.1, score)

theorem blend_eq_mean (parts : List (ℚ × Option ℚ)) : blend parts = mean (present parts) := by
  simp only [blend, Scalar.exact_sum, Scalar.exact_le, Scalar.exact_zero, Scalar.exact_one]
  rfl

-- Whether a score lies between the smallest and the largest one of some scores.
def Between (scores : List ℚ) (x : ℚ) : Prop := (∃ s ∈ scores, s ≤ x) ∧ ∃ s ∈ scores, x ≤ s

-- What is within all bounds on some scores lies between the smallest and the largest one.
theorem between_of_forall_mem_Icc {scores : List ℚ} (hne : scores ≠ []) {x : ℚ}
    (h : ∀ lo hi, (∀ s ∈ scores, s ∈ Set.Icc lo hi) → x ∈ Set.Icc lo hi) : Between scores x := by
  have hnonempty : scores.toFinset.Nonempty := List.toFinset_nonempty_iff _ |>.mpr hne
  obtain ⟨lo, hlo, hmin⟩ := scores.toFinset.exists_min_image id hnonempty
  obtain ⟨hi, hhi, hmax⟩ := scores.toFinset.exists_max_image id hnonempty
  simp only [List.mem_toFinset, id] at hlo hmin hhi hmax
  have hx := h lo hi fun s hs => ⟨hmin s hs, hmax s hs⟩
  exact ⟨⟨lo, hlo, hx.1⟩, hi, hhi, hx.2⟩

section Means

variable {parts : List (ℚ × ℚ)}

theorem weightedSum_bounds (hweights : ∀ part ∈ parts, 0 ≤ part.1) {lo hi : ℚ}
    (hscores : ∀ part ∈ parts, part.2 ∈ Set.Icc lo hi) :
    weightOf parts * lo ≤ weightedSum parts ∧ weightedSum parts ≤ weightOf parts * hi := by
  induction parts with
  | nil => simp [weightOf, weightedSum]
  | cons part parts ih =>
    obtain ⟨hweight, hweights⟩ := List.forall_mem_cons.mp hweights
    obtain ⟨hscore, hscores⟩ := List.forall_mem_cons.mp hscores
    obtain ⟨hlo, hhi⟩ := ih hweights hscores
    simp only [weightOf, weightedSum, List.map_cons, List.sum_cons, add_mul] at hlo hhi ⊢
    exact ⟨add_le_add (mul_le_mul_of_nonneg_left hscore.1 hweight) hlo,
      add_le_add (mul_le_mul_of_nonneg_left hscore.2 hweight) hhi⟩

theorem mean_of_weightOf_pos (hpos : 0 < weightOf parts) :
    mean parts = weightedSum parts / weightOf parts := if_neg (not_le.mpr hpos)

theorem mean_of_weightOf_le (h : weightOf parts ≤ 0) : mean parts = 1 := if_pos h

-- As long as some weight is left, all bounds on the scores bound their mean.
theorem mean_mem_Icc (hweights : ∀ part ∈ parts, 0 ≤ part.1) (hpos : 0 < weightOf parts)
    {lo hi : ℚ} (hscores : ∀ part ∈ parts, part.2 ∈ Set.Icc lo hi) :
    mean parts ∈ Set.Icc lo hi := by
  obtain ⟨hlo, hhi⟩ := weightedSum_bounds hweights hscores
  rw [mean_of_weightOf_pos hpos]
  exact ⟨(le_div_iff₀' hpos).mpr hlo, (div_le_iff₀' hpos).mpr hhi⟩

theorem mean_mem_shares (h : ∀ part ∈ parts, 0 ≤ part.1 ∧ part.2 ∈ shares) :
    mean parts ∈ shares := by
  by_cases hpos : 0 < weightOf parts
  · exact mean_mem_Icc (fun part hpart => (h part hpart).1) hpos fun part hpart => (h part hpart).2
  · rw [mean_of_weightOf_le (not_lt.mp hpos)]
    exact ⟨zero_le_one, le_rfl⟩

-- Whatever the weights are, the mean of ones is 1.
theorem mean_eq_one (h : ∀ part ∈ parts, part.2 = 1) : mean parts = 1 := by
  by_cases hpos : 0 < weightOf parts
  · have hsum : weightedSum parts = weightOf parts := by
      rw [weightedSum, weightOf, List.map_congr_left fun part hpart => ?_]
      rw [h part hpart, mul_one]
    rw [mean_of_weightOf_pos hpos, hsum, div_self hpos.ne']
  · exact mean_of_weightOf_le (not_lt.mp hpos)

theorem between_mean (hweights : ∀ part ∈ parts, 0 ≤ part.1) (hpos : 0 < weightOf parts) :
    Between (parts.map Prod.snd) (mean parts) := by
  refine between_of_forall_mem_Icc (fun hnil => ?_) fun lo hi hscores => ?_
  · rw [List.map_eq_nil_iff.mp hnil] at hpos
    exact lt_irrefl _ hpos
  · exact mean_mem_Icc hweights hpos fun part hpart => hscores _ (List.mem_map_of_mem hpart)

theorem blend_mem_shares {parts : List (ℚ × Option ℚ)} (hweights : ∀ part ∈ parts, 0 ≤ part.1)
    (hscores : ∀ part ∈ parts, ∀ x, part.2 = some x → x ∈ shares) : blend parts ∈ shares := by
  have hpresent : ∀ part ∈ present parts, 0 ≤ part.1 ∧ part.2 ∈ shares := by
    intro part hpart
    obtain ⟨whole, hwhole, hmap⟩ := List.mem_filterMap.mp hpart
    obtain ⟨x, hx, rfl⟩ := Option.map_eq_some_iff.mp hmap
    exact ⟨hweights whole hwhole, hscores whole hwhole x hx⟩
  rw [blend_eq_mean]
  exact mean_mem_shares hpresent

theorem blend_eq_one {parts : List (ℚ × Option ℚ)}
    (h : ∀ part ∈ parts, ∀ x, part.2 = some x → x = 1) : blend parts = 1 := by
  rw [blend_eq_mean]
  refine mean_eq_one fun part hpart => ?_
  obtain ⟨whole, hwhole, hmap⟩ := List.mem_filterMap.mp hpart
  obtain ⟨x, hx, rfl⟩ := Option.map_eq_some_iff.mp hmap
  exact h whole hwhole x hx

-- What a score is that weighs some parts up. Where all that is left weighs nothing it is 1, which
-- is between the scores only if it is one of them.
structure Blends (parts : List (ℚ × ℚ)) (x : ℚ) : Prop where
  eq_mean : 0 < weightOf parts → x = weightedSum parts / weightOf parts
  eq_one : weightOf parts = 0 → x = 1
  between_iff : Between (parts.map Prod.snd) x ↔ 0 < weightOf parts ∨ 1 ∈ parts.map Prod.snd

theorem blends_mean (h : ∀ part ∈ parts, 0 ≤ part.1 ∧ part.2 ∈ shares) :
    Blends parts (mean parts) := by
  have hone (hpos : ¬0 < weightOf parts) : mean parts = 1 := mean_of_weightOf_le (not_lt.mp hpos)
  refine ⟨mean_of_weightOf_pos, fun hzero => mean_of_weightOf_le hzero.le, ?_⟩
  by_cases hpos : 0 < weightOf parts
  · exact iff_of_true (between_mean (fun part hpart => (h part hpart).1) hpos) (.inl hpos)
  · rw [hone hpos, or_iff_right hpos]
    constructor
    · rintro ⟨-, s, hs, hle⟩
      obtain ⟨part, hpart, rfl⟩ := List.mem_map.mp hs
      rwa [← le_antisymm (h part hpart).2.2 hle]
    · exact fun hmem => ⟨⟨1, hmem, le_rfl⟩, 1, hmem, le_rfl⟩

end Means

end Likeness.Similarity
