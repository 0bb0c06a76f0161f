import Likeness.Proofs.Duplicates.Refinement
import Likeness.Proofs.Resources.Similar
import Likeness.Proofs.Resources.Walk

namespace Likeness

open Duplicates Json Number Similarity

namespace Similarity

variable {α : Type} [Scalar α] [OrderedScalar α]

theorem isNumber_ofStrings (a b : String) : Scalar.isNumber (ofStrings a b : α) = true := by
  unfold ofStrings
  dsimp only
  split
  · exact Scalar.isNumber_one
  split
  · exact Scalar.isNumber_one
  · exact Scalar.isNumber_clamp _

theorem isNumber_ofNumeric (a b : Value) : Scalar.isNumber (ofNumeric a b : α) = true := by
  unfold ofNumeric
  split
  · unfold ofNumbers
    dsimp only
    split
    · exact Scalar.isNumber_one
    split
    · exact Scalar.isNumber_clamp _
    split
    · exact Scalar.isNumber_zero
    · exact Scalar.isNumber_clamp _
  · exact Scalar.isNumber_zero

theorem isNumber_blendArrays (as bs : List Value) (placed best : List α) :
    Scalar.isNumber (blendArrays as bs placed best) = true := by
  unfold blendArrays
  split
  · exact Scalar.isNumber_one
  · exact Scalar.isNumber_zero
  · exact Scalar.isNumber_zero
  · exact Scalar.isNumber_clamp _

-- Whatever the options are, a score is a number.
theorem isNumber_scoreAt (o : Options α) (shared : Bool) (depth : ℕ) (a b : Value) :
    Scalar.isNumber (scoreAt o shared depth a b) = true := by
  have hmaybe {on : Bool} {x : α} (hx : Scalar.isNumber x = true) :
      Scalar.isNumber (if on then x else Scalar.zero) = true := by
    split
    · exact hx
    · exact Scalar.isNumber_zero
  unfold scoreAt
  split
  · exact hmaybe (isNumber_ofStrings _ _)
  · exact hmaybe (isNumber_ofNumeric _ _)
  · exact hmaybe (isNumber_ofNumeric _ _)
  · exact hmaybe (isNumber_ofNumeric _ _)
  · exact hmaybe (isNumber_blendArrays _ _ _ _)
  · split
    · exact Scalar.isNumber_zero
    split
    · exact Scalar.isNumber_one
    · exact Scalar.isNumber_clamp _
  · exact Scalar.isNumber_ofBool _
  · exact Scalar.isNumber_one
  · exact Scalar.isNumber_zero

end Similarity

namespace Resources

-- What is compared with one another: whole documents, or the values in them.
inductive Scope where
  | documents
  | values
deriving DecidableEq

namespace Scope

-- What the texts start with that stand for the values of a scope.
def word : Scope → String
  | .documents => "document"
  | .values => "value"

def places (ds : List Document) : Scope → List Place
  | .documents => ds.map Place.ofDocument
  | .values => catalogue ds

variable {ds : List Document} {s : Scope} {p : Place}

-- A place of a scope has a value as documents have them, and its digest.
theorem of_mem_places (hds : ∀ d ∈ ds, d.value.Proper) (h : p ∈ s.places ds) :
    p.value.Proper ∧ p.digest = valueDigest s.word p.value := by
  cases s with
  | documents =>
    obtain ⟨d, hd, rfl⟩ := List.mem_map.mp h
    exact ⟨hds d hd, rfl⟩
  | values =>
    obtain ⟨d, hd, chain, v, -, -, hfollow, rfl⟩ := (mem_catalogue_iff hds p).mp h
    exact ⟨(hds d hd).follow hfollow, rfl⟩

-- Texts of two scopes differ in their first characters.
theorem word_append_inj {s t : Scope} {a b : String} (h : s.word ++ a = t.word ++ b) :
    s = t ∧ a = b := by
  have hlist : s.word.toList ++ a.toList = t.word.toList ++ b.toList := by
    simpa using congrArg String.toList h
  cases s <;> cases t
  · exact ⟨rfl, String.toList_inj.mp (List.append_cancel_left hlist)⟩
  · exact absurd (List.cons.inj hlist).1 (by decide)
  · exact absurd (List.cons.inj hlist).1 (by decide)
  · exact ⟨rfl, String.toList_inj.mp (List.append_cancel_left hlist)⟩

variable {α : Type} [Scalar α]

def score (o : Options α) : Scope → Value → Value → α
  | .documents, a, b => objectScore o false a b
  | .values, a, b => Similarity.score o a b

-- The scores from which on two values of a scope are alike.
def Cutoff (o : Options α) : Scope → Value → Value → α → Prop
  | .documents, _, _, c => o.compareObjects = true ∧ c = o.thresholds.default
  | .values, a, b, c => Resources.Cutoff o a b c

omit [Scalar α] in
theorem Cutoff.unique {o : Options α} {a b : Value} {c c' : α} (h : s.Cutoff o a b c)
    (h' : s.Cutoff o a b c') : c = c' := by
  cases s with
  | documents => exact h.2.trans h'.2.symm
  | values =>
    have hsome : cutoff? o ⟨a, "", "", ""⟩ ⟨b, "", "", ""⟩ = some c :=
      (cutoff?_eq_some_iff ..).mpr h
    have hsome' : cutoff? o ⟨a, "", "", ""⟩ ⟨b, "", "", ""⟩ = some c' :=
      (cutoff?_eq_some_iff ..).mpr h'
    exact Option.some.inj (hsome.symm.trans hsome')

def Alike (o : Options α) (s : Scope) (a b : Value) : Prop :=
  ∃ c, s.Cutoff o a b c ∧ Scalar.le c (s.score o a b) = true

def findings (o : Options α) (ds : List Document) : Scope → List (Finding α)
  | .documents => documentFindings o ds
  | .values => valueFindings o ds

-- What is found for two places of a scope.
def finding? (o : Options α) : Scope → Place → Place → Option (Finding α)
  | .documents, a, b => if o.compareObjects then documentFinding? o a b else none
  | .values, a, b => valueFinding? o a b

theorem finding?_eq_some_iff (o : Options α) (s : Scope) (a b : Place) (f : Finding α) :
    s.finding? o a b = some f ↔
      s.Alike o a.value b.value ∧ finding a b (s.score o a.value b.value) = f := by
  cases s with
  | documents =>
    simp only [finding?, documentFinding?, Alike, Cutoff, score, Option.ite_none_right_eq_some,
      Option.some.injEq]
    constructor
    · rintro ⟨hobjects, hle, hf⟩
      exact ⟨⟨_, ⟨hobjects, rfl⟩, hle⟩, hf⟩
    · rintro ⟨⟨_, ⟨hobjects, rfl⟩, hle⟩, hf⟩
      exact ⟨hobjects, hle, hf⟩
  | values => exact valueFinding?_eq_some_iff o a b f

theorem isSome_finding?_iff (o : Options α) (s : Scope) (a b : Place) :
    (s.finding? o a b).isSome = true ↔ s.Alike o a.value b.value := by
  rw [Option.isSome_iff_exists]
  simp only [finding?_eq_some_iff, exists_and_left, exists_eq', and_true]

-- Each place of a scope meets those before it.
theorem findings_eq (o : Options α) (ds : List Document) (s : Scope) :
    s.findings o ds =
      (metPairs [] (s.places ds)).filterMap fun pair => s.finding? o pair.1 pair.2 := by
  cases s with
  | documents =>
    simp only [findings, documentFindings, finding?, places]
    by_cases hobjects : o.compareObjects = true
    · simp only [if_pos hobjects, findingsAmong_eq]
    · simp [hobjects]
  | values => exact findingsAmong_eq _ _ _

theorem mem_findings_iff (o : Options α) (ds : List Document) (s : Scope) (f : Finding α) :
    f ∈ s.findings o ds ↔ ∃ a b, [a, b].Sublist (s.places ds) ∧
      s.Alike o a.value b.value ∧ finding a b (s.score o a.value b.value) = f := by
  rw [findings_eq, List.mem_filterMap]
  constructor
  · rintro ⟨⟨a, b⟩, hpair, hfound⟩
    exact ⟨a, b, by simpa [mem_metPairs_iff] using hpair, (finding?_eq_some_iff ..).mp hfound⟩
  · rintro ⟨a, b, hpair, hfound⟩
    exact ⟨(a, b), by simpa [mem_metPairs_iff] using hpair, (finding?_eq_some_iff ..).mpr hfound⟩

theorem category_of_mem_findings {o : Options α} {f : Finding α} (h : f ∈ s.findings o ds) :
    f.category = .resources := by
  obtain ⟨a, b, -, -, rfl⟩ := (mem_findings_iff ..).mp h
  rfl

theorem isNumber_score [OrderedScalar α] (o : Options α) (s : Scope) (a b : Value) :
    Scalar.isNumber (s.score o a b) = true := by
  cases s with
  | documents =>
    cases a with
    | object as =>
      cases b with
      | object bs => exact isNumber_scoreAt _ _ _ _ _
      | _ => exact Scalar.isNumber_zero
    | _ => exact Scalar.isNumber_zero
  | values => exact isNumber_scoreAt _ _ _ _ _

end Scope

section Log

variable {α : Type} [Scalar α] (o : Options α) (ds : List Document)

-- What is recorded for resources: what is found in one scope, then in the other one.
def log : List (Finding α) := documentFindings o ds ++ valueFindings o ds

theorem mem_log_iff (f : Finding α) : f ∈ log o ds ↔ ∃ s : Scope, f ∈ s.findings o ds := by
  rw [log, List.mem_append]
  constructor
  · rintro (h | h)
    · exact ⟨.documents, h⟩
    · exact ⟨.values, h⟩
  · rintro ⟨s, h⟩
    cases s with
    | documents => exact .inl h
    | values => exact .inr h

variable {o ds}

theorem category_of_mem_log {f : Finding α} (h : f ∈ log o ds) : f.category = .resources := by
  obtain ⟨s, hs⟩ := (mem_log_iff o ds f).mp h
  exact Scope.category_of_mem_findings hs

theorem isNumber_of_mem_log [OrderedScalar α] {f : Finding α} (h : f ∈ log o ds) :
    Scalar.isNumber f.similarity = true := by
  obtain ⟨s, hs⟩ := (mem_log_iff o ds f).mp h
  obtain ⟨a, b, -, -, rfl⟩ := (Scope.mem_findings_iff ..).mp hs
  exact Scope.isNumber_score o s _ _

variable {earlier : List (Finding α)} (hearlier : ∀ f ∈ earlier, f.category ≠ .resources)

include hearlier

theorem ofCategory_log :
    ofCategory .resources (earlier ++ documentFindings o ds ++ valueFindings o ds) = log o ds := by
  rw [List.append_assoc]
  exact ofCategory_append hearlier fun f => category_of_mem_log

theorem tells_of_mem_groups [OrderedScalar α] {g : Duplicates.Group α}
    (hg : g ∈ (Registry.empty.recordAll
      (earlier ++ documentFindings o ds ++ valueFindings o ds)).groups .resources) :
    Tells (ofKey g.key (log o ds)) g := by
  have hlog : ofCategory .resources (log o ds) = log o ds :=
    ofCategory_eq_self fun f => category_of_mem_log
  rw [← Registry.groups_ofCategory, ofCategory_log hearlier] at hg
  have hagrees := Registry.agrees_recordAll (log o ds) fun f => isNumber_of_mem_log
  rw [← hlog]
  exact (hagrees.tells .resources g hg).2

end Log

end Resources

end Likeness
