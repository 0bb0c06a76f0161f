import Likeness.Proofs.Similarity.Full
import Likeness.Proofs.Similarity.Numbers
import Likeness.Proofs.Similarity.Strings

namespace Likeness.Similarity

open Number Json

-- The score of what stands for two numbers is the only one that is cut off, and at 0 alone.
def numericFormula (a b : Value) : ℚ :=
  match numeric? a, numeric? b with
  | some x, some y => max (1 - gap (Scalar.ofDouble x) (Scalar.ofDouble y)) 0
  | _, _ => 0

theorem ofNumeric_eq (a b : Value) : (ofNumeric a b : ℚ) = numericFormula a b := by
  unfold ofNumeric numericFormula
  cases numeric? a with
  | none => exact Scalar.exact_zero
  | some x =>
    cases numeric? b with
    | none => exact Scalar.exact_zero
    | some y => exact ofNumbers_eq _ _

-- What scores are by the formulas, none of them cut off but those of numbers. A way to score gives
-- a score to each call: to two values at a depth, which may be one and the same value.
structure ByFormula (o : Options ℚ) (s : Bool → ℕ → Value → Value → ℚ) : Prop where
  null (shared : Bool) (depth : ℕ) : s shared depth .null .null = 1
  bool (shared : Bool) (depth : ℕ) (a b : Bool) :
    s shared depth (.bool a) (.bool b) = if a = b then 1 else 0
  string (shared : Bool) (depth : ℕ) (a b : String) :
    s shared depth (.string a) (.string b) = if o.compareStrings then stringFormula a b else 0
  -- a number and whatever else
  number (shared : Bool) (depth : ℕ) {a b : Value}
    (h : Kind.ofValue a = .number ∨ Kind.ofValue b = .number) :
    s shared depth a b = if o.compareNumbers then numericFormula a b else 0
  array (shared : Bool) (depth : ℕ) (as bs : List Value) :
    s shared depth (.array as) (.array bs) =
      if !o.compareArrays then 0
      else if as.isEmpty && bs.isEmpty then 1
      else if as.isEmpty || bs.isEmpty then 0
      else arrayFormula (rearranged as bs)
        (part ((as.zip bs).map fun pair => s shared depth pair.1 pair.2)
          (max as.length bs.length))
        (part (as.zipIdx.map fun left => (bs.zipIdx.map fun right =>
          s (shared && left.2 == right.2) depth left.1 right.1).foldl max 0)
          (max as.length bs.length))
  object (shared : Bool) (depth : ℕ) (as bs : List (String × Value)) :
    s shared depth (.object as) (.object bs) =
      if !o.compareObjects || o.maxDepth < depth then 0
      else if shared || (as.isEmpty && bs.isEmpty) then 1
      else objectFormula o as.length bs.length
        ((commonPairs as bs).map fun pair => s shared (depth + 1) pair.1 pair.2)
  apart (shared : Bool) (depth : ℕ) {a b : Value} (ha : Kind.ofValue a ≠ .number)
    (hb : Kind.ofValue b ≠ .number) (hkind : Kind.ofValue a ≠ Kind.ofValue b) :
    s shared depth a b = 0

section Unique

variable {o : Options ℚ} {s t : Bool → ℕ → Value → Value → ℚ}

theorem ByFormula.eq_of_kind_ne (hs : ByFormula o s) (ht : ByFormula o t) (shared : Bool)
    (depth : ℕ) {a b : Value} (hkind : Kind.ofValue a ≠ Kind.ofValue b) :
    s shared depth a b = t shared depth a b := by
  by_cases hnumber : Kind.ofValue a = .number ∨ Kind.ofValue b = .number
  · rw [hs.number shared depth hnumber, ht.number shared depth hnumber]
  · rw [not_or] at hnumber
    rw [hs.apart shared depth hnumber.1 hnumber.2 hkind,
      ht.apart shared depth hnumber.1 hnumber.2 hkind]

-- The formulas say what each call scores: by the calls for the values in it, down to those without
-- any.
theorem ByFormula.unique (hs : ByFormula o s) (ht : ByFormula o t) : s = t := by
  funext shared depth a b
  induction a using Value.inductionOnParts generalizing shared depth b with
  | null =>
    cases b with
    | null => rw [hs.null, ht.null]
    | _ => exact hs.eq_of_kind_ne ht shared depth (by simp [Kind.ofValue])
  | bool a =>
    cases b with
    | bool b => rw [hs.bool, ht.bool]
    | _ => exact hs.eq_of_kind_ne ht shared depth (by simp [Kind.ofValue])
  | number m => rw [hs.number shared depth (.inl rfl), ht.number shared depth (.inl rfl)]
  | string a =>
    cases b with
    | string b => rw [hs.string, ht.string]
    | _ => exact hs.eq_of_kind_ne ht shared depth (by simp [Kind.ofValue])
  | array as ih =>
    cases b with
    | array bs =>
      have hplaced : ((as.zip bs).map fun pair => s shared depth pair.1 pair.2) =
          (as.zip bs).map fun pair => t shared depth pair.1 pair.2 :=
        List.map_congr_left fun pair hpair =>
          ih pair.1 (List.of_mem_zip hpair).1 shared depth pair.2
      have hbest : (as.zipIdx.map fun left => (bs.zipIdx.map fun right =>
            s (shared && left.2 == right.2) depth left.1 right.1).foldl max 0) =
          as.zipIdx.map fun left => (bs.zipIdx.map fun right =>
            t (shared && left.2 == right.2) depth left.1 right.1).foldl max 0 := by
        apply List.map_congr_left
        intro left hleft
        congr 1
        apply List.map_congr_left
        intro right _
        exact ih left.1 (List.fst_mem_of_mem_zipIdx hleft) _ depth right.1
      rw [hs.array, ht.array, hplaced, hbest]
    | _ => exact hs.eq_of_kind_ne ht shared depth (by simp [Kind.ofValue])
  | object as ih =>
    cases b with
    | object bs =>
      have hcommon : ((commonPairs as bs).map fun pair => s shared (depth + 1) pair.1 pair.2) =
          (commonPairs as bs).map fun pair => t shared (depth + 1) pair.1 pair.2 := by
        apply List.map_congr_left
        intro pair hpair
        obtain ⟨key, hkey, -⟩ := mem_of_mem_commonPairs hpair
        exact ih _ hkey shared (depth + 1) pair.2
      rw [hs.object, ht.object, hcommon]
    | _ => exact hs.eq_of_kind_ne ht shared depth (by simp [Kind.ofValue])

end Unique

section Parts

-- Weights from 0 on that make up no more than a whole.
structure Options.WeighsShares (o : Options ℚ) : Prop where
  structureWeight_nonneg : 0 ≤ o.structureWeight
  valueWeight_nonneg : 0 ≤ o.valueWeight
  sum_le_one : o.structureWeight + o.valueWeight ≤ 1

variable (o : Options ℚ) (shared : Bool) (depth : ℕ)

-- What is weighed up for two lists that are not empty. Each part is a share of something, and so is
-- what they make up, so that nothing is cut off from it.
structure ArrayParts (as bs : List Value) : Prop where
  longest_pos : 0 < max as.length bs.length
  positional_mem : positional o shared depth as bs ∈ shares
  bestMatching_mem : bestMatching o shared depth as bs ∈ shares
  blend_eq : blendArrays as bs (placedScores o shared depth as bs)
      (bestScores o shared depth 0 as bs) = Scalar.clamp (arrayFormula (rearranged as bs)
        (positional o shared depth as bs) (bestMatching o shared depth as bs))
  clamp_eq : Scalar.clamp (arrayFormula (rearranged as bs) (positional o shared depth as bs)
      (bestMatching o shared depth as bs)) = arrayFormula (rearranged as bs)
        (positional o shared depth as bs) (bestMatching o shared depth as bs)

-- What is weighed up for two objects that are not both empty. Where they have keys in common, the
-- mean is that of one score at least.
structure ObjectParts (as bs : List (String × Value)) : Prop where
  longest_pos : 0 < max as.length bs.length
  structural_mem : ((commonScores o shared (depth + 1) as bs).length : ℚ) /
    (max as.length bs.length : ℕ) ∈ shares
  meanValue_mem : meanValue (commonScores o shared (depth + 1) as bs) ∈ shares
  blend_eq : blendObjects o as.length bs.length (commonScores o shared (depth + 1) as bs) =
    Scalar.clamp (objectFormula o as.length bs.length (commonScores o shared (depth + 1) as bs))
  clamp_eq :
    Scalar.clamp (objectFormula o as.length bs.length (commonScores o shared (depth + 1) as bs)) =
      objectFormula o as.length bs.length (commonScores o shared (depth + 1) as bs)

theorem arrayParts {as bs : List Value} (has : as ≠ []) (hbs : bs ≠ []) :
    ArrayParts o shared depth as bs := by
  have hpositional := positional_mem_shares o shared depth as bs
  have hbest := bestMatching_mem_shares o shared depth as bs
  refine ⟨?_, hpositional, hbest, blendArrays_of_ne has hbs _ _, clamp_of_mem ?_⟩
  · exact lt_max_of_lt_left (List.length_pos_iff.mpr has)
  · exact arrayFormula_mem_shares (rearranged_mem_shares as bs) hpositional hbest

variable {o}

theorem objectParts (ho : o.WeighsShares) {as bs : List (String × Value)}
    (hne : as ≠ [] ∨ bs ≠ []) : ObjectParts o shared depth as bs := by
  have hstructural : ((commonScores o shared (depth + 1) as bs).length : ℚ) /
      (max as.length bs.length : ℕ) ∈ shares := by
    have hle := List.length_filter_le (fun field => field.1 ∈ bs.map (·.1)) as
    rw [commonScores_eq, List.length_map, length_commonPairs]
    exact count_mem_shares (hle.trans (le_max_left _ _))
  have hmean : meanValue (commonScores o shared (depth + 1) as bs) ∈ shares := by
    rw [commonScores_eq]
    apply meanValue_mem_shares
    intro x hx
    obtain ⟨pair, -, rfl⟩ := List.mem_map.mp hx
    exact scoreAt_mem_shares o shared _ _ _
  refine ⟨?_, hstructural, hmean, blendObjects_eq o _ _ _, clamp_of_mem ?_⟩
  · rw [lt_max_iff, List.length_pos_iff, List.length_pos_iff]
    exact hne
  · exact weighted_mem_shares ho.structureWeight_nonneg ho.valueWeight_nonneg ho.sum_le_one
      hstructural hmean

end Parts

section Scores

variable {o : Options ℚ}

theorem scoreAt_array_eq (o : Options ℚ) (shared : Bool) (depth : ℕ) (as bs : List Value) :
    scoreAt o shared depth (.array as) (.array bs) =
      if !o.compareArrays then 0
      else if as.isEmpty && bs.isEmpty then 1
      else if as.isEmpty || bs.isEmpty then 0
      else arrayFormula (rearranged as bs) (positional o shared depth as bs)
        (bestMatching o shared depth as bs) := by
  rw [scoreAt]
  by_cases hon : o.compareArrays = true
  · rw [if_pos hon, if_neg (by simpa using hon)]
    by_cases has : as = []
    · subst as
      cases bs <;> simp [blendArrays]
    · by_cases hbs : bs = []
      · subst bs
        cases as <;> simp_all [blendArrays]
      · have hparts := arrayParts o shared depth has hbs
        rw [hparts.blend_eq, hparts.clamp_eq, if_neg (by simp [has]), if_neg (by simp [has, hbs])]
  · rw [if_neg hon, if_pos (by simpa using hon), Scalar.exact_zero]

theorem positional_eq (o : Options ℚ) (shared : Bool) (depth : ℕ) (as bs : List Value) :
    positional o shared depth as bs =
      part ((as.zip bs).map fun pair => scoreAt o shared depth pair.1 pair.2)
        (max as.length bs.length) := by
  rw [positional, placedScores_eq]

theorem bestMatching_eq (o : Options ℚ) (shared : Bool) (depth : ℕ) (as bs : List Value) :
    bestMatching o shared depth as bs =
      part (as.zipIdx.map fun left => (bs.zipIdx.map fun right =>
        scoreAt o (shared && left.2 == right.2) depth left.1 right.1).foldl max 0)
        (max as.length bs.length) := by
  have hmaximum : (Scalar.maximum : ℚ → ℚ → ℚ) = max := by
    funext x y
    exact Scalar.exact_maximum x y
  rw [bestMatching, bestScores_eq]
  simp only [bestScore, hmaximum, Scalar.exact_zero]

theorem scoreAt_object_eq (ho : o.WeighsShares) (shared : Bool) (depth : ℕ)
    (as bs : List (String × Value)) : scoreAt o shared depth (.object as) (.object bs) =
      if !o.compareObjects || o.maxDepth < depth then 0
      else if shared || (as.isEmpty && bs.isEmpty) then 1
      else objectFormula o as.length bs.length (commonScores o shared (depth + 1) as bs) := by
  rw [scoreAt, Scalar.exact_zero, Scalar.exact_one]
  split_ifs with hoff hwhole
  · rfl
  · rfl
  · have hne : as ≠ [] ∨ bs ≠ [] := by
      rw [← not_and_or]
      rintro ⟨rfl, rfl⟩
      simp at hwhole
    have hparts := objectParts shared depth ho hne
    rw [hparts.blend_eq, hparts.clamp_eq]

theorem byFormula_scoreAt (ho : o.WeighsShares) : ByFormula o (scoreAt o) where
  null shared depth := by rw [scoreAt, Scalar.exact_one]
  bool shared depth a b := by
    rw [scoreAt]
    simp [Scalar.ofBool]
  string shared depth a b := by rw [scoreAt, ofStrings_eq, Scalar.exact_zero]
  number shared depth a b h := by
    rw [← ofNumeric_eq]
    cases a <;> cases b <;> simp_all [Kind.ofValue, scoreAt, ofNumeric, numeric?]
  array shared depth as bs := by rw [scoreAt_array_eq, positional_eq, bestMatching_eq]
  object shared depth as bs := by rw [scoreAt_object_eq ho, commonScores_eq]
  apart shared depth a b ha hb hkind := by
    cases a <;> cases b <;> simp_all [Kind.ofValue, scoreAt]

end Scores

-- Scores are those of the formulas and of no other way to score, as long as the weights of objects
-- make up no more than a whole: whatever call there is, each part of its score is a share of
-- something, and only the scores of numbers are cut off.
theorem scoreAt_by_formula {o : Options ℚ} (ho : o.WeighsShares) :
    (∀ s, ByFormula o s ↔ s = scoreAt o) ∧
    (∀ shared depth a b, scoreAt o shared depth a b ∈ shares) ∧
    (∀ shared depth as bs, as ≠ [] → bs ≠ [] → ArrayParts o shared depth as bs) ∧
    (∀ shared depth as bs, as ≠ [] ∨ bs ≠ [] → ObjectParts o shared depth as bs) ∧
    ∀ a b : String, (ofStrings a b : ℚ) = stringFormula a b ∧
      Scalar.clamp (stringFormula a b) = stringFormula a b := by
  refine ⟨fun s => ⟨fun hs => hs.unique (byFormula_scoreAt ho), ?_⟩, scoreAt_mem_shares o,
    fun shared depth as bs => arrayParts o shared depth,
    fun shared depth as bs => objectParts shared depth ho,
    fun a b => ⟨ofStrings_eq a b, clamp_of_mem (stringFormula_mem_shares a b)⟩⟩
  rintro rfl
  exact byFormula_scoreAt ho

theorem scoreAt_by_formula_standard :
    (Options.standard : Options ℚ).WeighsShares ∧
      score (Options.standard : Options ℚ) (.array [.string "ab", .null])
        (.array [.string "b", .null, .bool true]) = 2 / 5 ∧
      ObjectParts .standard false 0 [("k", .string "ab"), ("l", .null)] [("k", .string "b")] ∧
      score (Options.standard : Options ℚ) (.object [("k", .string "ab"), ("l", .null)])
        (.object [("k", .string "b")]) = 1 / 2 := by
  have hweights : (Options.standard : Options ℚ).WeighsShares :=
    ⟨by decide +kernel, by decide +kernel, by decide +kernel⟩
  obtain ⟨hformulas, -, -, hobjects, -⟩ := scoreAt_by_formula hweights
  have harray := ((hformulas _).mpr rfl).array false 0 [.string "ab", .null]
    [.string "b", .null, .bool true]
  refine ⟨hweights, harray.trans ?_, hobjects false 0 _ _ (.inl (List.cons_ne_nil _ _)), ?_⟩
  · decide +kernel
  · decide +kernel

end Likeness.Similarity
