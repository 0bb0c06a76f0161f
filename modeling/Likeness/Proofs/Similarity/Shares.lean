import Likeness.Proofs.Lists
import Likeness.Proofs.Number.Exact
import Likeness.Similarity.Blend
import Likeness.Similarity.Score
import Mathlib.Data.List.Perm.Subperm
import Mathlib.Tactic.Positivity

namespace Likeness.Similarity

open Number

-- The scores that are shares of a whole, from nothing to all of it.
def shares : Set ℚ := Set.Icc 0 1

section Arithmetic

variable {x y : ℚ}

theorem zero_mem_shares : (Scalar.zero : ℚ) ∈ shares := by simp [shares]

theorem one_mem_shares : (Scalar.one : ℚ) ∈ shares := by simp [shares]

theorem ofBool_mem_shares (b : Bool) : (Scalar.ofBool b : ℚ) ∈ shares := by
  cases b
  · exact zero_mem_shares
  · exact one_mem_shares

theorem clamp_mem_shares (x : ℚ) : Scalar.clamp x ∈ shares := by
  rw [Scalar.exact_clamp]
  exact ⟨le_min (le_max_right x 0) zero_le_one, min_le_right _ 1⟩

theorem limit_mem_shares (x : ℚ) : Scalar.limit x ∈ shares := by
  rw [Scalar.limit_eq_clamp]
  exact clamp_mem_shares x

theorem clamp_of_mem (h : x ∈ shares) : Scalar.clamp x = x := by
  rw [← Scalar.limit_eq_clamp, Scalar.exact_limit x h]

theorem one_sub_mem_shares (h : x ∈ shares) : 1 - x ∈ shares := by
  constructor
  · exact sub_nonneg.mpr h.2
  · exact sub_le_self 1 h.1

theorem max_mem_shares (hx : x ∈ shares) (hy : y ∈ shares) : max x y ∈ shares :=
  ⟨le_max_of_le_left hx.1, max_le hx.2 hy.2⟩

theorem div_mem_shares (hx : 0 ≤ x) (hxy : x ≤ y) : x / y ∈ shares :=
  ⟨div_nonneg hx (hx.trans hxy), div_le_one_of_le₀ hxy (hx.trans hxy)⟩

theorem count_mem_shares {m n : ℕ} (h : m ≤ n) :
    (Scalar.ofNat m / Scalar.ofNat n : ℚ) ∈ shares :=
  div_mem_shares (Nat.cast_nonneg m) (Nat.cast_le.mpr h)

theorem tenths_mem_shares {n : ℕ} (h : n ≤ 10) : (Scalar.tenths n : ℚ) ∈ shares :=
  count_mem_shares h

-- Shares weighed by no more than a whole.
theorem weighted_mem_shares {u v : ℚ} (hu : 0 ≤ u) (hv : 0 ≤ v) (huv : u + v ≤ 1)
    (hx : x ∈ shares) (hy : y ∈ shares) : u * x + v * y ∈ shares := by
  refine ⟨add_nonneg (mul_nonneg hu hx.1) (mul_nonneg hv hy.1), ?_⟩
  calc u * x + v * y
      ≤ u * 1 + v * 1 :=
        add_le_add (mul_le_mul_of_nonneg_left hx.2 hu) (mul_le_mul_of_nonneg_left hy.2 hv)
    _ ≤ 1 := by rwa [mul_one, mul_one]

-- Mixtures of two shares.
theorem mix_one {m n : ℕ} (h : m + n = 10) :
    (Scalar.tenths m * 1 + Scalar.tenths n * 1 : ℚ) = 1 := by
  have hcast : (m + n : ℚ) = 10 := mod_cast h
  change (m / 10 * 1 + n / 10 * 1 : ℚ) = 1
  linarith

theorem mix_mem_shares {m n : ℕ} (h : m + n = 10) (hx : x ∈ shares) (hy : y ∈ shares) :
    Scalar.tenths m * x + Scalar.tenths n * y ∈ shares := by
  have hm : (0 : ℚ) ≤ Scalar.tenths m := (tenths_mem_shares (by omega)).1
  have hn : (0 : ℚ) ≤ Scalar.tenths n := (tenths_mem_shares (by omega)).1
  have hsum := mix_one h
  rw [mul_one, mul_one] at hsum
  exact weighted_mem_shares hm hn hsum.le hx hy

end Arithmetic

section Lists

-- A sum of shares, taken as a share of at least as many.
theorem sum_mem_shares {xs : List ℚ} {n : ℕ} (hxs : ∀ x ∈ xs, x ∈ shares) (hn : xs.length ≤ n) :
    (Scalar.sum xs / Scalar.ofNat n : ℚ) ∈ shares := by
  rw [Scalar.exact_sum]
  refine div_mem_shares (List.sum_nonneg fun x hx => (hxs x hx).1) ?_
  calc xs.sum ≤ xs.length • (1 : ℚ) := List.sum_le_card_nsmul xs 1 fun x hx => (hxs x hx).2
    _ = xs.length := nsmul_one _
    _ ≤ n := Nat.cast_le.mpr hn

theorem foldl_maximum_mem_shares {xs : List ℚ} (hxs : ∀ x ∈ xs, x ∈ shares) :
    ∀ best ∈ shares, xs.foldl Scalar.maximum best ∈ shares := by
  induction xs with
  | nil => exact fun best hbest => hbest
  | cons x xs ih =>
    obtain ⟨hx, hrest⟩ := List.forall_mem_cons.mp hxs
    intro best hbest
    rw [List.foldl_cons, Scalar.exact_maximum]
    exact ih hrest _ (max_mem_shares hbest hx)

theorem le_foldl_maximum {xs : List ℚ} {x best : ℚ} (h : x ∈ xs ∨ x ≤ best) :
    x ≤ xs.foldl Scalar.maximum best := by
  induction xs generalizing best with
  | nil => simpa using h
  | cons y xs ih =>
    rw [List.foldl_cons, Scalar.exact_maximum]
    refine ih ?_
    rcases h with h | h
    · rcases List.mem_cons.mp h with rfl | h
      · exact .inr (le_max_right _ _)
      · exact .inl h
    · exact .inr (le_max_of_le_left h)

section Members

variable {β : Type} [BEq β]

theorem sharedPart_mem_shares (as bs : List β) : (sharedPart as bs : ℚ) ∈ shares := by
  unfold sharedPart
  split
  · exact one_mem_shares
  · exact count_mem_shares ((List.length_filter_le _ _).trans (le_max_left _ _))

variable [LawfulBEq β] {as bs : List β}

-- Without repetitions, the common members of two lists are the same seen from either of them.
theorem filter_contains_perm (has : as.Nodup) (hbs : bs.Nodup) :
    (as.filter bs.contains).Perm (bs.filter as.contains) := by
  refine (List.perm_ext_iff_of_nodup (has.filter _) (hbs.filter _)).mpr fun b => ?_
  simp [and_comm]

theorem sharedPart_comm {α : Type} [Scalar α] (has : as.Nodup) (hbs : bs.Nodup) :
    (sharedPart as bs : α) = sharedPart bs as := by
  unfold sharedPart
  rw [(filter_contains_perm has hbs).length_eq, Nat.max_comm, Bool.and_comm]

theorem jaccard_comm {α : Type} [Scalar α] (as bs : List β) :
    (jaccard as bs : α) = jaccard bs as := by
  have hcommon := filter_contains_perm (nodup_eraseDups as) (nodup_eraseDups bs)
  unfold jaccard
  simp only [hcommon.length_eq, Nat.add_comm as.eraseDups.length]

omit [LawfulBEq β] in
theorem sharedPart_eq_one_iff_length (as bs : List β) : (sharedPart as bs : ℚ) = 1 ↔
    (as.filter bs.contains).length = max as.length bs.length := by
  unfold sharedPart
  split
  · rename_i hempty
    rw [Bool.and_eq_true, List.isEmpty_iff, List.isEmpty_iff] at hempty
    simp [hempty.1, hempty.2]
  · rename_i hne
    have hlongest : ((max as.length bs.length : ℕ) : ℚ) ≠ 0 := by
      rw [Nat.cast_ne_zero, ne_eq, Nat.max_eq_zero_iff]
      simpa using hne
    rw [Scalar.exact_ofNat, Scalar.exact_ofNat, div_eq_one_iff_eq hlongest, Nat.cast_inj]

theorem sharedPart_self (as : List β) : (sharedPart as as : ℚ) = 1 := by
  rw [sharedPart_eq_one_iff_length, max_self, List.length_filter_eq_length_iff]
  simp

theorem jaccard_self (as : List β) : (jaccard as as : ℚ) = 1 := by
  have hall : as.eraseDups.filter as.eraseDups.contains = as.eraseDups := by simp
  unfold jaccard
  simp only [hall, Nat.add_sub_cancel]
  split
  · exact Scalar.exact_one
  · rename_i hne
    exact div_self (Nat.cast_ne_zero.mpr hne)

-- A list without repetitions has all of it in common just with the lists that reorder it.
theorem length_filter_contains_eq_iff (has : as.Nodup) :
    (as.filter bs.contains).length = max as.length bs.length ↔ as.Perm bs := by
  constructor
  · intro hcommon
    have hle := List.length_filter_le bs.contains as
    have hall : (as.filter bs.contains).length = as.length := by omega
    have hsub : as ⊆ bs := by
      intro a ha
      simpa using List.length_filter_eq_length_iff.mp hall a ha
    exact (has.subperm hsub).perm_of_length_le (by omega)
  · intro hperm
    rw [← hperm.length_eq, max_self, List.length_filter_eq_length_iff]
    intro a ha
    simpa using hperm.subset ha

theorem sharedPart_eq_one_iff (has : as.Nodup) :
    (sharedPart as bs : ℚ) = 1 ↔ as.Perm bs := by
  rw [sharedPart_eq_one_iff_length, length_filter_contains_eq_iff has]

-- The common members of two lists are no more than all members of either.
theorem jaccard_mem_shares (as bs : List β) : (jaccard as bs : ℚ) ∈ shares := by
  unfold jaccard
  dsimp only
  split
  · exact one_mem_shares
  · refine count_mem_shares ?_
    have has := List.length_filter_le bs.eraseDups.contains as.eraseDups
    have hbs := List.length_filter_le as.eraseDups.contains bs.eraseDups
    rw [← (filter_contains_perm (nodup_eraseDups as) (nodup_eraseDups bs)).length_eq] at hbs
    omega

end Members

theorem bestMatch_mem_shares {β : Type} {score : β → β → ℚ}
    (hscore : ∀ a b, score a b ∈ shares) {as bs : List β} {x : ℚ}
    (h : bestMatch score as bs = some x) : x ∈ shares := by
  unfold bestMatch at h
  dsimp only at h
  split at h
  · cases h
  · cases h
    refine sum_mem_shares (fun x hx => ?_) (by simp)
    obtain ⟨a, -, rfl⟩ := List.mem_map.mp hx
    refine foldl_maximum_mem_shares (fun y hy => ?_) _ zero_mem_shares
    obtain ⟨b, -, rfl⟩ := List.mem_map.mp hy
    exact hscore a b

theorem bestMatch_eq_none_iff {α β : Type} [Scalar α] (score : β → β → α) (as bs : List β) :
    bestMatch score as bs = none ↔ as = [] ∧ bs = [] := by
  simp [bestMatch, List.length_eq_zero_iff]

end Lists

theorem ofStrings_mem_shares (a b : String) : (ofStrings a b : ℚ) ∈ shares := by
  unfold ofStrings
  dsimp only
  split
  · exact one_mem_shares
  · split
    · exact one_mem_shares
    · exact clamp_mem_shares _

end Likeness.Similarity
