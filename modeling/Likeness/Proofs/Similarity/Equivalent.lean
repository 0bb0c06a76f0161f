import Likeness.Proofs.Similarity.Full
import Likeness.Proofs.Similarity.Numbers
import Likeness.Proofs.Similarity.Strings

namespace Likeness.Similarity

open Number Json

-- Whether two values are the same but for what scores do not tell: how numbers are written, the
-- order of lists and the order of fields. An object deeper than the limit is equivalent to none.
inductive Equivalent (limit : ℕ) : ℕ → Value → Value → Prop where
  | null (depth : ℕ) : Equivalent limit depth .null .null
  | bool (depth : ℕ) (b : Bool) : Equivalent limit depth (.bool b) (.bool b)
  | string (depth : ℕ) (s : String) : Equivalent limit depth (.string s) (.string s)
  -- a number and a number, or a number and a string
  | number {depth : ℕ} {a b : Value} {x y : Float}
    (hnumber : Kind.ofValue a = .number ∨ Kind.ofValue b = .number) (ha : numeric? a = some x)
    (hb : numeric? b = some y) (hxy : (x == y) = true) : Equivalent limit depth a b
  | array {depth : ℕ} {as bs : List Value} (h : (as.map Value.text).Perm (bs.map Value.text)) :
    Equivalent limit depth (.array as) (.array bs)
  | object {depth : ℕ} {as bs : List (String × Value)} (hdepth : depth ≤ limit)
    (hkeys : SameKeys as bs) (hvalues : ∀ key a b, (key, a) ∈ as → (key, b) ∈ bs →
      Equivalent limit (depth + 1) a b) : Equivalent limit depth (.object as) (.object bs)

section Numbers

variable {a b : Value} {x y : Float}

theorem isFinite_of_numeric? (ha : a.Proper) (h : numeric? a = some x) : x.isFinite = true := by
  cases ha with
  | number n hn =>
    cases h
    exact Json.Number.isFinite_toDouble hn
  | string s =>
    rw [numeric?] at h
    split at h
    · rw [Option.ite_none_right_eq_some] at h
      obtain ⟨hfinite, h⟩ := h
      cases h
      exact hfinite
    · cases h
  | _ => cases h

theorem ofNumeric_eq_one_iff (ha : a.Proper) (hb : b.Proper) : (ofNumeric a b : ℚ) = 1 ↔
    ∃ x y, numeric? a = some x ∧ numeric? b = some y ∧ (x == y) = true := by
  unfold ofNumeric
  split
  · rename_i x y hx hy
    have hfinite := isFinite_of_numeric? ha hx
    have hfinite' := isFinite_of_numeric? hb hy
    have hexact (z : Float) : (Scalar.ofDouble z : ℚ) = exactValue z.toModel.unpack := rfl
    rw [ofNumbers_eq_one_iff, hexact, hexact, exactValue_inj hfinite hfinite']
    simp [hx, hy]
  · rename_i hnone
    simp only [Scalar.exact_zero, zero_ne_one, false_iff, not_exists, not_and]
    exact fun x y hx hy => absurd hy (hnone x y hx)

-- What is a number beside a number or beside a string.
theorem scoreAt_number {α : Type} [Scalar α] {o : Options α} (hon : o.compareNumbers = true)
    (shared : Bool) (depth : ℕ) (hnumber : Kind.ofValue a = .number ∨ Kind.ofValue b = .number)
    (ha : numeric? a = some x) (hb : numeric? b = some y) :
    scoreAt o shared depth a b = ofNumeric a b := by
  cases a <;> cases b <;> simp_all [Kind.ofValue, numeric?, scoreAt]

end Numbers

-- Options that leave nothing out.
structure Options.ComparesAll {α : Type} (o : Options α) : Prop where
  strings : o.compareStrings = true
  numbers : o.compareNumbers = true
  arrays : o.compareArrays = true
  objects : o.compareObjects = true

section Scores

variable {o : Options ℚ}

theorem scoreAt_array_eq_one_iff (hall : o.ComparesAll) (depth : ℕ) (as bs : List Value) :
    scoreAt o false depth (.array as) (.array bs) = 1 ↔
      (as.map Value.text).Perm (bs.map Value.text) := by
  rw [scoreAt, if_pos hall.arrays]
  constructor
  · intro hone
    by_contra hperm
    have hle := blendArrays_le hperm (positional_mem_shares o false depth as bs)
      (bestMatching_mem_shares o false depth as bs)
    rw [hone] at hle
    norm_num at hle
  · intro hperm
    exact blendArrays_of_perm hperm _ _

theorem scoreAt_object (hall : o.ComparesAll) {depth : ℕ} (hdepth : depth ≤ o.maxDepth)
    (as bs : List (String × Value)) : scoreAt o false depth (.object as) (.object bs) =
      if as.length = 0 ∧ bs.length = 0 then 1
      else blendObjects o as.length bs.length ((commonPairs as bs).map fun pair =>
        scoreAt o false (depth + 1) pair.1 pair.2) := by
  rw [scoreAt, commonScores_eq, hall.objects, if_neg (by simpa using hdepth), Bool.false_or,
    Scalar.exact_one]
  congr 1
  simp

-- Equivalent values score 1 as long as the weights of objects make up a whole.
theorem scoreAt_eq_one (hall : o.ComparesAll)
    (hweights : 1 ≤ o.structureWeight + o.valueWeight) {depth : ℕ} {a b : Value}
    (h : Equivalent o.maxDepth depth a b) (ha : a.Proper) (hb : b.Proper) :
    scoreAt o false depth a b = 1 := by
  induction h with
  | null => simp [scoreAt]
  | bool depth b => simp [scoreAt, Scalar.ofBool]
  | string depth s => rw [scoreAt, if_pos hall.strings, ofStrings_eq_one_iff]
  | number hnumber hx hy hxy =>
    rw [scoreAt_number hall.numbers _ _ hnumber hx hy, ofNumeric_eq_one_iff ha hb]
    exact ⟨_, _, hx, hy, hxy⟩
  | array hperm => exact (scoreAt_array_eq_one_iff hall _ _ _).mpr hperm
  | @object depth as bs hdepth hkeys _ ih =>
    cases ha with | object _ has hvalues =>
    cases hb with | object _ hbs hvalues' =>
    rw [scoreAt_object hall hdepth]
    split
    · rfl
    rename_i hne
    have hlength := (length_commonPairs_eq_iff has hbs).mpr hkeys
    refine blendObjects_eq_one hweights ?_ (by rwa [List.length_map]) ?_
    · rw [← List.length_pos_iff, List.length_map, hlength]
      omega
    · intro x hx
      obtain ⟨pair, hpair, rfl⟩ := List.mem_map.mp hx
      obtain ⟨key, hv, hw⟩ := mem_of_mem_commonPairs hpair
      exact ih key _ _ hv hw (hvalues _ hv) (hvalues' _ hw)

theorem equivalent_of_number (hall : o.ComparesAll) (depth : ℕ) {a b : Value} (ha : a.Proper)
    (hb : b.Proper) (hnumber : Kind.ofValue a = .number ∨ Kind.ofValue b = .number)
    (h : (if o.compareNumbers then ofNumeric a b else Scalar.zero) = (1 : ℚ)) :
    Equivalent o.maxDepth depth a b := by
  rw [if_pos hall.numbers, ofNumeric_eq_one_iff ha hb] at h
  obtain ⟨x, y, hx, hy, hxy⟩ := h
  exact .number hnumber hx hy hxy

-- Only equivalent values score 1 as long as the weights of objects make up no more than a whole.
theorem equivalent_of_scoreAt_eq_one (hall : o.ComparesAll) (hs : 0 < o.structureWeight)
    (hv : 0 < o.valueWeight) (hweights : o.structureWeight + o.valueWeight ≤ 1) {depth : ℕ}
    {a b : Value} (ha : a.Proper) (hb : b.Proper) (h : scoreAt o false depth a b = 1) :
    Equivalent o.maxDepth depth a b := by
  induction a using Value.inductionOnParts generalizing depth b with
  | null =>
    cases b with
    | null => exact .null _
    | _ => simp [scoreAt] at h
  | bool a =>
    cases b with
    | bool b =>
      cases a <;> cases b <;> simp [scoreAt, Scalar.ofBool] at h
      · exact .bool _ _
      · exact .bool _ _
    | _ => simp [scoreAt] at h
  | number m =>
    cases b with
    | number n => exact equivalent_of_number hall _ ha hb (.inl rfl) h
    | string s => exact equivalent_of_number hall _ ha hb (.inl rfl) h
    | _ => simp [scoreAt] at h
  | string s =>
    cases b with
    | number n => exact equivalent_of_number hall _ ha hb (.inr rfl) h
    | string t =>
      rw [scoreAt, if_pos hall.strings, ofStrings_eq_one_iff] at h
      rw [h]
      exact .string _ _
    | _ => simp [scoreAt] at h
  | array as =>
    cases b with
    | array bs => exact .array ((scoreAt_array_eq_one_iff hall _ _ _).mp h)
    | _ => simp [scoreAt] at h
  | object as ih =>
    cases b with
    | object bs =>
      cases ha with | object _ has hvalues =>
      cases hb with | object _ hbs hvalues' =>
      have hdepth : depth ≤ o.maxDepth := by
        by_contra hdeep
        rw [scoreAt, hall.objects, if_pos (by simpa using hdeep)] at h
        exact zero_ne_one h
      rw [scoreAt_object hall hdepth] at h
      split at h
      · rename_i hempty
        rw [List.length_eq_zero_iff, List.length_eq_zero_iff] at hempty
        rw [hempty.1, hempty.2]
        exact .object hdepth (fun _ => Iff.rfl) (by simp)
      · rename_i hne
        have hle := List.length_filter_le (fun field => field.1 ∈ bs.map (·.1)) as
        rw [← length_commonPairs] at hle
        obtain ⟨hlength, hcommon⟩ := of_blendObjects_eq_one hs hv hweights (by omega)
          (List.forall_mem_map.mpr fun pair _ => scoreAt_mem_shares o false _ _ _)
          (by rw [List.length_map]; exact hle.trans (le_max_left _ _)) h
        rw [List.length_map] at hlength
        refine .object hdepth ((length_commonPairs_eq_iff has hbs).mp hlength) ?_
        intro key v w hv hw
        have hpair := (mem_commonPairs_iff hbs v w).mpr ⟨key, hv, hw⟩
        exact ih _ hv (hvalues _ hv) (hvalues' _ hw)
          (hcommon _ (List.mem_map_of_mem hpair))
    | _ => simp [scoreAt] at h

-- A score of 1 means equivalence, if nothing is left out and both weights of objects count.
theorem score_eq_one_iff (hall : o.ComparesAll) (hs : 0 < o.structureWeight)
    (hv : 0 < o.valueWeight) (hweights : o.structureWeight + o.valueWeight = 1) {a b : Value}
    (ha : a.Proper) (hb : b.Proper) : score o a b = 1 ↔ Equivalent o.maxDepth 0 a b :=
  ⟨equivalent_of_scoreAt_eq_one hall hs hv hweights.le ha hb,
    fun h => scoreAt_eq_one hall hweights.ge h ha hb⟩

-- One price as a text and as a number, and one list in two orders.
def quoted : Value :=
  .object [("price", .string " 1.50"), ("tags", .array [.string "a", .null])]

def listed : Value :=
  .object [("tags", .array [.null, .string "a"]), ("price", .number (.double 1.5))]

theorem score_eq_one_quoted_listed :
    (Options.standard : Options ℚ).ComparesAll ∧ quoted.Proper ∧ listed.Proper ∧
      score (.standard : Options ℚ) quoted listed = 1 := by
  have hall : (Options.standard : Options ℚ).ComparesAll := ⟨rfl, rfl, rfl, rfl⟩
  have hfinite : (Number.double 1.5).IsFinite := by
    rw [Number.IsFinite]
    decide
  have hquoted : quoted.Proper := by simp [quoted]
  have hlisted : listed.Proper := by simpa [listed] using hfinite
  have hprice : numeric? (.string " 1.50") = some 1.5 := by decide +kernel
  refine ⟨hall, hquoted, hlisted, (score_eq_one_iff hall ?_ ?_ ?_ hquoted hlisted).mpr ?_⟩
  · simp [Options.standard]
  · simp [Options.standard]
  · norm_num [Options.standard]
  · refine .object (by decide) ?_ ?_
    · intro key
      simp [or_comm]
    · intro key v w hv hw
      simp only [List.mem_cons, List.not_mem_nil, or_false, Prod.mk.injEq] at hv hw
      rcases hv with ⟨rfl, rfl⟩ | ⟨rfl, rfl⟩
      · obtain rfl : w = .number (.double 1.5) := by simpa using hw
        exact .number (.inr rfl) hprice rfl (by decide)
      · obtain rfl : w = .array [.null, .string "a"] := by simpa using hw
        exact .array (List.Perm.swap _ _ _)

end Scores

mutual

-- How many objects a value nests in one another. Objects in lists do not count.
def objectLevels : Value → ℕ
  | .object fields => fieldLevels fields + 1
  | _ => 0

def fieldLevels : List (String × Value) → ℕ
  | [] => 0
  | (_, v) :: rest => max (objectLevels v) (fieldLevels rest)

end

theorem objectLevels_le_fieldLevels {fields : List (String × Value)} {field : String × Value}
    (h : field ∈ fields) : objectLevels field.2 ≤ fieldLevels fields := by
  induction fields with
  | nil => cases h
  | cons first rest ih =>
    rw [fieldLevels]
    rcases List.mem_cons.mp h with rfl | h
    · exact le_max_left _ _
    · exact (ih h).trans (le_max_right _ _)

theorem equivalent_self {limit depth : ℕ} {v : Value} (hv : v.Proper)
    (hlevels : depth + objectLevels v ≤ limit + 1) : Equivalent limit depth v v := by
  induction v using Value.inductionOnParts generalizing depth with
  | null => exact .null _
  | bool b => exact .bool _ b
  | string s => exact .string _ s
  | number n =>
    have hfinite := isFinite_of_numeric? hv rfl
    exact .number (.inl rfl) rfl rfl ((exactValue_inj hfinite hfinite).mp rfl)
  | array items => exact .array (List.Perm.refl _)
  | object fields ih =>
    cases hv with | object _ hkeys hfields =>
    rw [objectLevels] at hlevels
    refine .object (by omega) (fun _ => Iff.rfl) fun key a b ha hb => ?_
    have hsame := List.inj_on_of_nodup_map hkeys ha hb rfl
    obtain rfl : a = b := (Prod.mk.inj hsame).2
    have hbelow := objectLevels_le_fieldLevels ha
    exact ih _ ha (hfields _ ha) (by omega)

-- A value that is not too deep scores 1 with itself.
theorem score_self {o : Options ℚ} (hall : o.ComparesAll)
    (hweights : 1 ≤ o.structureWeight + o.valueWeight) {v : Value} (hv : v.Proper)
    (hlevels : objectLevels v ≤ o.maxDepth + 1) : score o v v = 1 :=
  scoreAt_eq_one hall hweights (equivalent_self hv (by omega)) hv hv

end Likeness.Similarity
