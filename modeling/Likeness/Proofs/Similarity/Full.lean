import Likeness.Proofs.Similarity.Arrays

namespace Likeness.Similarity

open Number Json

section Arithmetic

variable {x y u v : ℚ}

theorem clamp_eq_one_iff : Scalar.clamp x = 1 ↔ 1 ≤ x := by
  rw [Scalar.exact_clamp, min_eq_right_iff, le_max_iff]
  simp

theorem sum_eq_length_iff {xs : List ℚ} (hxs : ∀ x ∈ xs, x ∈ shares) :
    xs.sum = xs.length ↔ ∀ x ∈ xs, x = 1 := by
  induction xs with
  | nil => simp
  | cons x xs ih =>
    obtain ⟨hx, hrest⟩ := List.forall_mem_cons.mp hxs
    have hsum : xs.sum ≤ xs.length := by
      simpa using List.sum_le_card_nsmul xs 1 fun y hy => (hrest y hy).2
    rw [List.forall_mem_cons, ← ih hrest, List.sum_cons, List.length_cons, Nat.cast_add_one]
    constructor
    · intro h
      have hx' := hx.2
      constructor <;> linarith
    · rintro ⟨rfl, h⟩
      rw [h, add_comm]

-- Some shares make up a whole of so many just when they are as many and all of them are whole.
theorem part_eq_one_iff {xs : List ℚ} {n : ℕ} (hn : n ≠ 0) (hxs : ∀ x ∈ xs, x ∈ shares)
    (hlength : xs.length ≤ n) : part xs n = 1 ↔ xs.length = n ∧ ∀ x ∈ xs, x = 1 := by
  have hsum : xs.sum ≤ xs.length := by
    simpa using List.sum_le_card_nsmul xs 1 fun x hx => (hxs x hx).2
  rw [part, div_eq_one_iff_eq (Nat.cast_ne_zero.mpr hn), ← sum_eq_length_iff hxs]
  constructor
  · intro h
    have hall : n ≤ xs.length := by exact_mod_cast h ▸ hsum
    have heq := le_antisymm hlength hall
    exact ⟨heq, by rw [h, heq]⟩
  · rintro ⟨heq, h⟩
    rw [h, heq]

-- The mean of some shares is 1 just when all of them are.
theorem mean_eq_one_iff {xs : List ℚ} (hne : xs ≠ []) (hxs : ∀ x ∈ xs, x ∈ shares) :
    xs.sum / xs.length = 1 ↔ ∀ x ∈ xs, x = 1 := by
  have hlength : xs.length ≠ 0 := by simpa using hne
  rw [← part, part_eq_one_iff hlength hxs le_rfl, and_iff_right rfl]

-- A weighted sum of shares is 1 only where all of them are, as no weight is to spare.
theorem eq_one_of_weighted (hu : 0 < u) (hv : 0 < v) (huv : u + v ≤ 1) (hx : x ∈ shares)
    (hy : y ∈ shares) (h : 1 ≤ u * x + v * y) : x = 1 ∧ y = 1 := by
  have hx' := mul_le_mul_of_nonneg_left hx.2 hu.le
  have hy' := mul_le_mul_of_nonneg_left hy.2 hv.le
  constructor
  · refine le_antisymm hx.2 (le_of_mul_le_mul_left ?_ hu)
    linarith
  · refine le_antisymm hy.2 (le_of_mul_le_mul_left ?_ hv)
    linarith

end Arithmetic

-- In a list beside itself each member is there, with which it scores the most.
theorem bestMatch_self {β : Type} {score : β → β → ℚ} (hscore : ∀ a b, score a b ∈ shares)
    (hself : ∀ a, score a a = 1) {bs : List β} {x : ℚ} (h : bestMatch score bs bs = some x) :
    x = 1 := by
  have hbest : ∀ b ∈ bs, (bs.map (score b)).foldl Scalar.maximum Scalar.zero = 1 := by
    intro b hb
    have hall : ∀ y ∈ bs.map (score b), y ∈ shares := List.forall_mem_map.mpr fun c _ => hscore b c
    refine le_antisymm (foldl_maximum_mem_shares hall _ zero_mem_shares).2 (le_foldl_maximum ?_)
    exact .inl (List.mem_map.mpr ⟨b, hb, hself b⟩)
  unfold bestMatch at h
  dsimp only at h
  split at h
  · cases h
  · rename_i hlongest
    cases h
    rw [max_self] at hlongest ⊢
    rw [Scalar.exact_sum, Scalar.exact_ofNat, List.map_congr_left hbest, List.map_const',
      List.sum_replicate, nsmul_one, div_self (Nat.cast_ne_zero.mpr hlongest)]

section Fields

variable {as bs : List (String × Value)}

-- Whether two lists of fields have the same keys.
def SameKeys (as bs : List (String × Value)) : Prop :=
  ∀ key, key ∈ as.map (·.1) ↔ key ∈ bs.map (·.1)

theorem length_commonPairs (as bs : List (String × Value)) :
    (commonPairs as bs).length = (as.filter fun field => field.1 ∈ bs.map (·.1)).length := by
  rw [commonPairs, List.length_filterMap_eq_countP, ← List.countP_eq_length_filter]
  refine List.countP_congr fun field _ => ?_
  rw [Option.isSome_map, decide_eq_true_iff, ← not_iff_not, ← lookup_eq_none_iff]
  simp

theorem length_commonPairs_eq_iff (has : (as.map (·.1)).Nodup) (hbs : (bs.map (·.1)).Nodup) :
    (commonPairs as bs).length = max as.length bs.length ↔ SameKeys as bs := by
  have hcommon : (commonPairs as bs).length =
      ((as.map (·.1)).filter (bs.map (·.1)).contains).length := by
    simp only [length_commonPairs, List.filter_map, List.length_map, Function.comp_def,
      List.contains_eq_mem]
  have hperm : (as.map (·.1)).Perm (bs.map (·.1)) ↔ SameKeys as bs :=
    List.perm_ext_iff_of_nodup has hbs
  rw [hcommon, ← hperm, ← length_filter_contains_eq_iff has, List.length_map, List.length_map]

theorem mem_commonPairs_iff (hbs : (bs.map (·.1)).Nodup) (v w : Value) :
    (v, w) ∈ commonPairs as bs ↔ ∃ key, (key, v) ∈ as ∧ (key, w) ∈ bs := by
  refine ⟨mem_of_mem_commonPairs, ?_⟩
  rintro ⟨key, hv, hw⟩
  refine List.mem_filterMap.mpr ⟨(key, v), hv, ?_⟩
  rw [(lookup_eq_some_iff hbs).mpr hw]
  rfl

end Fields

section Blends

-- The mean of the scores under common keys; 0 where there are none.
def meanValue (common : List ℚ) : ℚ :=
  if common.isEmpty then 0 else part common common.length

-- What two objects score that are not both empty, before anything is cut off.
def objectFormula (o : Options ℚ) (m n : ℕ) (common : List ℚ) : ℚ :=
  o.structureWeight * ((common.length : ℚ) / (max m n : ℕ)) + o.valueWeight * meanValue common

variable {o : Options ℚ} {m n : ℕ} {common : List ℚ}

theorem meanValue_mem_shares (h : ∀ x ∈ common, x ∈ shares) :
    meanValue common ∈ shares := by
  unfold meanValue
  split
  · exact ⟨le_rfl, zero_le_one⟩
  · exact part_mem_shares h le_rfl

theorem blendObjects_eq (o : Options ℚ) (m n : ℕ) (common : List ℚ) :
    blendObjects o m n common = Scalar.clamp (objectFormula o m n common) := by
  unfold blendObjects ratio objectFormula meanValue part
  simp only [Scalar.exact_sum, Scalar.exact_ofNat, Scalar.exact_zero]

theorem blendObjects_eq_one (hweights : 1 ≤ o.structureWeight + o.valueWeight)
    (hne : common ≠ []) (hlength : common.length = max m n) (hcommon : ∀ x ∈ common, x = 1) :
    blendObjects o m n common = 1 := by
  have hlongest : (common.length : ℚ) ≠ 0 := by simpa using hne
  have hmean : meanValue common = 1 := by
    rw [meanValue, if_neg (by simpa using hne), part,
      mean_eq_one_iff hne fun x hx => hcommon x hx ▸ one_mem_shares]
    exact hcommon
  rw [blendObjects_eq, clamp_eq_one_iff, objectFormula, hmean, ← hlength, div_self hlongest,
    mul_one, mul_one]
  exact hweights

theorem of_blendObjects_eq_one (hs : 0 < o.structureWeight) (hv : 0 < o.valueWeight)
    (hweights : o.structureWeight + o.valueWeight ≤ 1) (hmn : 0 < max m n)
    (hcommon : ∀ x ∈ common, x ∈ shares) (hlength : common.length ≤ max m n)
    (h : blendObjects o m n common = 1) : common.length = max m n ∧ ∀ x ∈ common, x = 1 := by
  have hlongest : ((max m n : ℕ) : ℚ) ≠ 0 := Nat.cast_ne_zero.mpr hmn.ne'
  rw [blendObjects_eq, clamp_eq_one_iff] at h
  obtain ⟨hstructure, hvalue⟩ := eq_one_of_weighted hs hv hweights (count_mem_shares hlength)
    (meanValue_mem_shares hcommon) h
  rw [Scalar.exact_ofNat, Scalar.exact_ofNat, div_eq_one_iff_eq hlongest, Nat.cast_inj]
    at hstructure
  have hne : common ≠ [] := by
    rintro rfl
    exact hmn.ne hstructure
  rw [meanValue, if_neg (by simpa using hne), part, mean_eq_one_iff hne hcommon] at hvalue
  exact ⟨hstructure, hvalue⟩

end Blends

end Likeness.Similarity
