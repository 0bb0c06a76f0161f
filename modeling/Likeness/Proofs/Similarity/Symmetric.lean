import Likeness.Proofs.Number.Symmetric
import Likeness.Proofs.Similarity.Score
import Likeness.Proofs.Text.Distance
import Mathlib.Data.String.Basic

namespace Likeness

open Json Number

namespace Json

namespace Value

-- Values without any list in them.
inductive ArrayFree : Value → Prop where
  | null : ArrayFree .null
  | bool (b : Bool) : ArrayFree (.bool b)
  | number (n : Number) : ArrayFree (.number n)
  | string (s : String) : ArrayFree (.string s)
  | object (fields : List (String × Value)) (h : ∀ f ∈ fields, ArrayFree f.2) :
    ArrayFree (.object fields)

-- Values of which each object has its keys in ascending order, as those that are read have.
inductive Ascending : Value → Prop where
  | null : Ascending .null
  | bool (b : Bool) : Ascending (.bool b)
  | number (n : Number) : Ascending (.number n)
  | string (s : String) : Ascending (.string s)
  | array (items : List Value) (h : ∀ v ∈ items, Ascending v) : Ascending (.array items)
  | object (fields : List (String × Value)) (hkeys : (fields.map (·.1)).Pairwise (· < ·))
    (h : ∀ f ∈ fields, Ascending f.2) : Ascending (.object fields)

end Value

theorem lookup_cons_of_ne {key k : String} (h : k ≠ key) (v : Value)
    (fields : List (String × Value)) : lookup key ((k, v) :: fields) = lookup key fields :=
  if_neg h

theorem lookup_cons_self (key : String) (v : Value) (fields : List (String × Value)) :
    lookup key ((key, v) :: fields) = some v := if_pos rfl

end Json

namespace Similarity

section Fields

variable {as bs : List (String × Value)} {key : String} {a b : Value}

-- A key that only one side has makes no difference.
theorem commonPairs_cons_left (h : key ∉ bs.map (·.1)) :
    commonPairs ((key, a) :: as) bs = commonPairs as bs := by
  have hnone : lookup key bs = none := lookup_eq_none_iff.mpr h
  simp only [commonPairs, List.filterMap_cons, hnone, Option.map_none]

theorem commonPairs_cons_right (h : key ∉ as.map (·.1)) :
    commonPairs as ((key, b) :: bs) = commonPairs as bs := by
  refine List.filterMap_congr fun field hfield => ?_
  have hne : key ≠ field.1 := by
    rintro rfl
    exact h (List.mem_map_of_mem hfield)
  rw [lookup_cons_of_ne hne]

theorem notMem_of_forall_lt (h : ∀ field ∈ bs, key < field.1) : key ∉ bs.map (·.1) := by
  intro hmem
  obtain ⟨field, hfield, rfl⟩ := List.mem_map.mp hmem
  exact String.lt_irrefl _ (h field hfield)

theorem notMem_of_lt {k : String} (hlt : key < k)
    (hbs : ((k, b) :: bs).Pairwise fun f g => f.1 < g.1) :
    key ∉ ((k, b) :: bs).map (·.1) := by
  apply notMem_of_forall_lt
  intro field hfield
  rcases List.mem_cons.mp hfield with rfl | hfield
  · exact hlt
  · exact String.lt_trans hlt ((List.pairwise_cons.mp hbs).1 field hfield)

theorem commonPairs_cons_cons (h : key ∉ as.map (·.1)) :
    commonPairs ((key, a) :: as) ((key, b) :: bs) = (a, b) :: commonPairs as bs := by
  rw [← commonPairs_cons_right (b := b) h]
  simp only [commonPairs, List.filterMap_cons, lookup_cons_self, Option.map_some]

-- In ascending order, what both sides have in common is met in one order from either side.
theorem commonPairs_swap (has : as.Pairwise fun f g => f.1 < g.1)
    (hbs : bs.Pairwise fun f g => f.1 < g.1) :
    commonPairs bs as = (commonPairs as bs).map Prod.swap := by
  induction as generalizing bs with
  | nil => simp [commonPairs, lookup]
  | cons field as ih =>
    obtain ⟨k, a⟩ := field
    have hrest := (List.pairwise_cons.mp has).2
    induction bs with
    | nil => simp [commonPairs, lookup]
    | cons field bs ih' =>
      obtain ⟨l, b⟩ := field
      have hrest' := (List.pairwise_cons.mp hbs).2
      rcases lt_trichotomy k l with hlt | rfl | hlt
      · rw [commonPairs_cons_left (notMem_of_lt hlt hbs),
          commonPairs_cons_right (notMem_of_lt hlt hbs)]
        exact ih hrest hbs
      · have hk := notMem_of_forall_lt (List.pairwise_cons.mp has).1
        have hk' := notMem_of_forall_lt (List.pairwise_cons.mp hbs).1
        rw [commonPairs_cons_cons hk', commonPairs_cons_cons hk, ih hrest hrest', List.map_cons,
          Prod.swap_prod_mk]
      · rw [commonPairs_cons_left (notMem_of_lt hlt has),
          commonPairs_cons_right (notMem_of_lt hlt has)]
        exact ih' hrest'

end Fields

section Scores

variable {α : Type} [Scalar α] [SymmetricScalar α] (o : Options α)

omit [SymmetricScalar α] in
theorem ofStrings_comm (a b : String) : (ofStrings a b : α) = ofStrings b a := by
  unfold ofStrings
  rw [Text.editDistance_comm, Nat.max_comm]
  simp only [eq_comm]

omit [SymmetricScalar α] in
theorem same_comm (a b : α) : Scalar.same a b = Scalar.same b a := Bool.and_comm _ _

theorem ofNumbers_comm (a b : α) : ofNumbers a b = ofNumbers b a := by
  unfold ofNumbers
  rw [same_comm, SymmetricScalar.abs_sub_comm a b,
    SymmetricScalar.add_comm (Scalar.abs a) (Scalar.abs b),
    Bool.and_comm (Scalar.lt (Scalar.abs a) _)]

theorem ofNumeric_comm (a b : Value) : (ofNumeric a b : α) = ofNumeric b a := by
  unfold ofNumeric
  cases numeric? a <;> cases numeric? b
  · rfl
  · rfl
  · rfl
  · exact ofNumbers_comm _ _

omit [SymmetricScalar α] in
theorem blendObjects_comm (m n : ℕ) (common : List α) :
    blendObjects o m n common = blendObjects o n m common := by
  unfold blendObjects
  rw [Nat.max_comm]

-- Without lists, the score of two values is that of the two in the other order.
theorem scoreAt_comm (depth : ℕ) {a b : Value} (harrays : a.ArrayFree) (ha : a.Ascending)
    (hb : b.Ascending) : scoreAt o false depth a b = scoreAt o false depth b a := by
  induction a using Value.inductionOnParts generalizing depth b with
  | null => cases b <;> simp only [scoreAt]
  | bool a =>
    cases b with
    | bool b => simp only [scoreAt, Bool.beq_comm]
    | _ => simp only [scoreAt]
  | number m =>
    cases b with
    | number n => simp only [scoreAt, ofNumeric_comm (.number m)]
    | string s => simp only [scoreAt, ofNumeric_comm (.number m)]
    | _ => simp only [scoreAt]
  | string s =>
    cases b with
    | number n => simp only [scoreAt, ofNumeric_comm (.string s)]
    | string t => simp only [scoreAt, ofStrings_comm s]
    | _ => simp only [scoreAt]
  | array as => cases harrays
  | object as ih =>
    cases b with
    | object bs =>
      cases harrays with | object _ harrays =>
      cases ha with | object _ has hvalues =>
      cases hb with | object _ hbs hvalues' =>
      have hcommon : commonScores o false (depth + 1) as bs =
          commonScores o false (depth + 1) bs as := by
        rw [commonScores_eq, commonScores_eq,
          commonPairs_swap (List.pairwise_map.mp has) (List.pairwise_map.mp hbs), List.map_map]
        apply List.map_congr_left
        intro pair hpair
        obtain ⟨key, hv, hw⟩ := mem_of_mem_commonPairs hpair
        exact ih _ hv (depth + 1) (harrays _ hv) (hvalues _ hv) (hvalues' _ hw)
      simp only [scoreAt]
      rw [hcommon, blendObjects_comm, Bool.and_comm as.isEmpty]
    | _ => simp only [scoreAt]

-- It is enough that one of the two values is without lists.
theorem scoreAt_comm_of_or (depth : ℕ) {a b : Value} (harrays : a.ArrayFree ∨ b.ArrayFree)
    (ha : a.Ascending) (hb : b.Ascending) :
    scoreAt o false depth a b = scoreAt o false depth b a := by
  rcases harrays with harrays | harrays
  · exact scoreAt_comm o depth harrays ha hb
  · exact (scoreAt_comm o depth harrays hb ha).symm

theorem objectScore_comm {a b : Value} (harrays : a.ArrayFree ∨ b.ArrayFree) (ha : a.Ascending)
    (hb : b.Ascending) : objectScore o false a b = objectScore o false b a := by
  cases a with
  | object as =>
    cases b with
    | object bs => exact scoreAt_comm_of_or o 0 harrays ha hb
    | _ => rfl
  | _ => cases b <;> rfl

end Scores

-- Scores are symmetric where one of the two values has no list in it, whatever the options. The
-- scores of two texts and of two numbers are so for all operands, not-a-number and the infinities
-- among them.
theorem score_symmetric (o : Options Float) :
    (∀ a b : Value, a.Ascending → b.Ascending → a.ArrayFree ∨ b.ArrayFree →
      score o a b = score o b a ∧ objectScore o false a b = objectScore o false b a) ∧
    (∀ s t : String, (ofStrings s t : Float) = ofStrings t s) ∧
    ∀ x y : Float, ofNumbers x y = ofNumbers y x :=
  ⟨fun _ _ ha hb harrays =>
    ⟨scoreAt_comm_of_or o 0 harrays ha hb, objectScore_comm o harrays ha hb⟩,
    ofStrings_comm, ofNumbers_comm⟩

def plainSettings : Value :=
  .object [("name", .string "left"), ("retries", .number (.int 3))]

def listedSettings : Value :=
  .object [("extra", .array [.null]), ("name", .string "lift"), ("retries", .string " 4 ")]

theorem score_symmetric_listed :
    plainSettings.ArrayFree ∧ plainSettings.Ascending ∧ listedSettings.Ascending ∧
      score (.standard : Options Float) plainSettings listedSettings =
        score .standard listedSettings plainSettings ∧
      Scalar.lt (0 : Float) (score .standard plainSettings listedSettings) = true := by
  have harrays : plainSettings.ArrayFree := by
    refine .object _ fun f hf => ?_
    simp only [List.mem_cons, List.not_mem_nil, or_false] at hf
    rcases hf with rfl | rfl
    · exact .string _
    · exact .number _
  have hplain : plainSettings.Ascending := by
    refine .object _ (by decide) fun f hf => ?_
    simp only [List.mem_cons, List.not_mem_nil, or_false] at hf
    rcases hf with rfl | rfl
    · exact .string _
    · exact .number _
  have hlisted : listedSettings.Ascending := by
    refine .object _ (by decide) fun f hf => ?_
    simp only [List.mem_cons, List.not_mem_nil, or_false] at hf
    rcases hf with rfl | rfl | rfl
    · refine .array _ fun v hv => ?_
      rw [List.mem_singleton.mp hv]
      exact .null
    · exact .string _
    · exact .string _
  refine ⟨harrays, hplain, hlisted, ?_, by decide +kernel⟩
  exact ((score_symmetric .standard).1 _ _ hplain hlisted (.inl harrays)).1

end Similarity

end Likeness
