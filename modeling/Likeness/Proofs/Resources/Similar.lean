import Likeness.Proofs.Pairs
import Likeness.Proofs.Resources.Shown

namespace Likeness.Resources

open Duplicates Json Number Similarity

-- A number, and a string that stands for one.
inductive NumberAndText : Value → Value → Prop where
  | left (n : Json.Number) (s : String) (h : (numeric? (.string s)).isSome = true) :
    NumberAndText (.number n) (.string s)
  | right (s : String) (n : Json.Number) (h : (numeric? (.string s)).isSome = true) :
    NumberAndText (.string s) (.number n)

theorem numberAndText_iff (a b : Value) : NumberAndText a b ↔
    Kind.ofValue a = .number ∧ Kind.ofValue b = .string ∧ (numeric? b).isSome = true ∨
      Kind.ofValue a = .string ∧ Kind.ofValue b = .number ∧ (numeric? a).isSome = true := by
  constructor
  · rintro (⟨n, s, h⟩ | ⟨s, n, h⟩)
    · exact .inl ⟨rfl, rfl, h⟩
    · exact .inr ⟨rfl, rfl, h⟩
  · rintro (⟨ha, hb, h⟩ | ⟨ha, hb, h⟩)
    · cases a <;> cases ha
      cases b <;> cases hb
      exact .left _ _ h
    · cases a <;> cases ha
      cases b <;> cases hb
      exact .right _ _ h

variable {α : Type}

-- The scores from which on values are alike: that of their kind, or that of numbers.
inductive Cutoff (o : Options α) : Value → Value → α → Prop where
  | kind {a b : Value} (hkind : Kind.ofValue a = Kind.ofValue b)
    (hobject : Kind.ofValue a = .object → o.compareObjects = true) :
    Cutoff o a b (o.thresholds.ofKind (Kind.ofValue a))
  | number {a b : Value} (hnumbers : o.compareNumbers = true) (h : NumberAndText a b) :
    Cutoff o a b o.thresholds.number

theorem cutoff_iff (o : Options α) (a b : Value) (c : α) : Cutoff o a b c ↔
    (Kind.ofValue a = Kind.ofValue b ∧ (Kind.ofValue a = .object → o.compareObjects = true) ∧
      o.thresholds.ofKind (Kind.ofValue a) = c) ∨
    (o.compareNumbers = true ∧ NumberAndText a b ∧ o.thresholds.number = c) := by
  constructor
  · rintro (⟨hkind, hobject⟩ | ⟨hnumbers, h⟩)
    · exact .inl ⟨hkind, hobject, rfl⟩
    · exact .inr ⟨hnumbers, h, rfl⟩
  · rintro (⟨hkind, hobject, rfl⟩ | ⟨hnumbers, h, rfl⟩)
    · exact .kind hkind hobject
    · exact .number hnumbers h

-- The cutoff of two places is that of their values.
theorem cutoff?_eq_some_iff (o : Options α) (a b : Place) (c : α) :
    cutoff? o a b = some c ↔ Cutoff o a.value b.value c := by
  have hkind (p : Place) : p.kind = Kind.ofValue p.value := rfl
  rw [cutoff_iff, numberAndText_iff]
  have hnumeric (p : Place) : (numeric? p.value).isSome = isNumeric p := rfl
  simp only [cutoff?, hkind, hnumeric]
  generalize Kind.ofValue a.value = k
  generalize Kind.ofValue b.value = l
  cases k <;> cases l <;> cases o.compareObjects <;> cases o.compareNumbers <;> simp

variable [Scalar α]

-- Values without a cutoff score nothing.
theorem score_eq_zero {o : Options α} {a b : Value} (h : ∀ c, ¬Cutoff o a b c) :
    score o a b = Scalar.zero := by
  have hkind (hsame : Kind.ofValue a = Kind.ofValue b) : Kind.ofValue a = .object ∧
      o.compareObjects = false := by
    have hobject := fun hobject => h _ (.kind hsame hobject)
    simpa using hobject
  have hnumber (hon : o.compareNumbers = true) : ¬NumberAndText a b :=
    fun htext => h _ (.number hon htext)
  unfold score scoreAt
  split
  · cases (hkind rfl).1
  · cases (hkind rfl).1
  · split
    · rename_i n s hon
      have hnone : numeric? (.string s) = none := by
        simpa [numberAndText_iff, Kind.ofValue] using hnumber hon
      rw [ofNumeric, hnone]
      rfl
    · rfl
  · split
    · rename_i s n hon
      have hnone : numeric? (.string s) = none := by
        simpa [numberAndText_iff, Kind.ofValue] using hnumber hon
      rw [ofNumeric, hnone]
    · rfl
  · cases (hkind rfl).1
  · rw [if_pos (by simp [(hkind rfl).2])]
  · cases (hkind rfl).1
  · cases (hkind rfl).1
  · rfl

-- Whether two values are alike.
def Similar (o : Options α) (a b : Value) : Prop :=
  ∃ c, Cutoff o a b c ∧ Scalar.le c (score o a b) = true

theorem objectScore_eq_score (o : Options α) {a b : Value} (ha : Kind.ofValue a = .object)
    (hb : Kind.ofValue b = .object) : objectScore o false a b = score o a b := by
  cases a <;> cases ha
  cases b <;> cases hb
  rfl

-- What is found for two values is found by one score, whatever they are.
theorem valueFinding?_eq_some_iff (o : Options α) (a b : Place) (f : Finding α) :
    valueFinding? o a b = some f ↔
      Similar o a.value b.value ∧ finding a b (score o a.value b.value) = f := by
  have hscore {c : α} (hc : cutoff? o a b = some c) :
      (if b.kind = .object then objectScore o false a.value b.value
        else score o a.value b.value) = score o a.value b.value := by
    split
    · rename_i hobject
      rcases (cutoff?_eq_some_iff o a b c).mp hc with ⟨hkind, -⟩ | ⟨-, htext⟩
      · exact objectScore_eq_score o (hkind.trans hobject) hobject
      · change Kind.ofValue b.value = .object at hobject
        rw [numberAndText_iff, hobject] at htext
        simp at htext
    · rfl
  unfold valueFinding?
  cases hc : cutoff? o a b with
  | none =>
    simp only [reduceCtorEq, false_iff, not_and]
    rintro ⟨c, hcutoff, -⟩
    rw [(cutoff?_eq_some_iff o a b c).mpr hcutoff] at hc
    cases hc
  | some c =>
    dsimp only
    rw [hscore hc, Option.ite_none_right_eq_some, Option.some.injEq]
    refine and_congr_left fun _ => ⟨fun h => ⟨c, (cutoff?_eq_some_iff o a b c).mp hc, h⟩, ?_⟩
    rintro ⟨c', hcutoff, hle⟩
    rw [← cutoff?_eq_some_iff, hc, Option.some.injEq] at hcutoff
    rwa [hcutoff]

section Pairs

variable (o : Options α) (ds : List Document)

-- The finding for two places of the catalogue.
def findingAt (pair : Fin (catalogue ds).length × Fin (catalogue ds).length) : Finding α :=
  finding (catalogue ds)[pair.1] (catalogue ds)[pair.2]
    (score o (catalogue ds)[pair.1].value (catalogue ds)[pair.2].value)

-- The places that are found to be alike.
def similarPairs : List (Fin (catalogue ds).length × Fin (catalogue ds).length) :=
  (placePairs (catalogue ds).length).filter fun pair =>
    (valueFinding? o (catalogue ds)[pair.1] (catalogue ds)[pair.2]).isSome

theorem valueFindings_eq_map : valueFindings o ds = (similarPairs o ds).map (findingAt o ds) := by
  rw [valueFindings, findingsAmong_eq, metPairs_eq_map_placePairs, List.filterMap_map,
    similarPairs, ← List.filterMap_eq_map, List.filterMap_filter]
  congr 1
  funext pair
  dsimp only [Function.comp_apply]
  cases hfound : valueFinding? o (catalogue ds)[pair.1] (catalogue ds)[pair.2] with
  | none => rfl
  | some f =>
    rw [← ((valueFinding?_eq_some_iff o _ _ f).mp hfound).2]
    rfl

theorem mem_similarPairs_iff (i j : Fin (catalogue ds).length) : (i, j) ∈ similarPairs o ds ↔
    i < j ∧ Similar o (catalogue ds)[i].value (catalogue ds)[j].value := by
  rw [similarPairs, List.mem_filter, mem_placePairs_iff, Option.isSome_iff_exists]
  simp [valueFinding?_eq_some_iff]

-- The values in documents are gone through in the order they are visited, each with those before
-- it. What is found are exactly the pairs that score as much as they have to; that only values
-- with a cutoff are compared leaves no others out but pairs that score nothing.
theorem valueFindings_exact :
    (∃ pairs : List (Fin (catalogue ds).length × Fin (catalogue ds).length),
      pairs.Pairwise (fun p q => p.2 < q.2 ∨ p.2 = q.2 ∧ p.1 < q.1) ∧
      (∀ i j, (i, j) ∈ pairs ↔
        i < j ∧ Similar o (catalogue ds)[i].value (catalogue ds)[j].value) ∧
      valueFindings o ds = pairs.map (findingAt o ds)) ∧
    (∀ a b : Place, cutoff? o a b = none → score o a.value b.value = Scalar.zero) ∧
    ∀ as bs, objectScore o false (.object as) (.object bs) = score o (.object as) (.object bs) := by
  refine ⟨⟨similarPairs o ds, (pairwise_placePairs _).filter _, mem_similarPairs_iff o ds,
    valueFindings_eq_map o ds⟩, fun a b hnone => score_eq_zero fun c hcutoff => ?_,
    fun as bs => rfl⟩
  rw [← cutoff?_eq_some_iff, hnone] at hcutoff
  cases hcutoff

end Pairs

def numbered : List Document :=
  [⟨"a.json", .object [("a", .number (.int 1)), ("b", .string "1.0")]⟩]

theorem valueFindings_exact_numbered :
    ∃ f ∈ valueFindings (.standard : Options Float) numbered,
      f.occurrences = [⟨"a.json", .keyPath "a", none⟩, ⟨"a.json", .keyPath "b", none⟩] := by
  obtain ⟨⟨pairs, -, hpairs, hfindings⟩, -, -⟩ :=
    valueFindings_exact (.standard : Options Float) numbered
  have hsimilar : Similar (.standard : Options Float) (.number (.int 1)) (.string "1.0") :=
    ⟨_, .number rfl (.left _ _ (by decide +kernel)), by decide +kernel⟩
  have hpair := (hpairs ⟨0, by decide⟩ ⟨1, by decide⟩).mpr ⟨by decide, hsimilar⟩
  rw [hfindings]
  exact ⟨_, List.mem_map_of_mem hpair, rfl⟩

-- Without the comparison of objects there is no cutoff for them, not even where their score would
-- reach it.
def apart : Options Float :=
  { Options.standard with
    compareObjects := false
    thresholds := { Thresholds.standard with default := 0 } }

def emptied : List Document := [⟨"a.json", .object [("a", .object []), ("b", .object [])]⟩]

theorem similar_without_cutoff_emptied :
    (catalogue emptied).map (·.value) = [.object [], .object []] ∧
      Scalar.le (apart.thresholds.ofKind (Kind.ofValue (.object [])))
        (score apart (.object []) (.object [])) = true ∧
      valueFindings apart emptied = [] := by
  refine ⟨rfl, by decide +kernel, ?_⟩
  rw [← List.length_eq_zero_iff]
  decide +kernel

end Likeness.Resources
