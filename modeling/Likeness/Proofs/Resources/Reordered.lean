import Likeness.Proofs.Duplicates.Cover
import Likeness.Proofs.Duplicates.PairKey
import Likeness.Proofs.Duplicates.Separate
import Likeness.Proofs.Resources.Scope
import Likeness.Proofs.Similarity.Symmetric

namespace Likeness.Resources

open Duplicates Json Number Similarity

-- Values of which the score does not depend on which of two comes first.
structure Symmetric (v : Value) : Prop where
  arrayFree : v.ArrayFree
  ascending : v.Ascending

section Places

variable {fields : List (String × Value)} {v : Value} {p : Place}

theorem Symmetric.of_mem (h : Symmetric (.object fields)) {field : String × Value}
    (hfield : field ∈ fields) : Symmetric field.2 := by
  obtain ⟨harrays, hascending⟩ := h
  cases harrays with | object _ harrays =>
  cases hascending with | object _ _ hvalues =>
  exact ⟨harrays field hfield, hvalues field hfield⟩

theorem Symmetric.of_mem_visitBelow (h : Symmetric v) (file : Files.Path) (path : String)
    (depth : ℕ) (hp : p ∈ (visitBelow file path depth v).filterMap Visit.place?) :
    Symmetric p.value := by
  induction v using Value.inductionOnParts generalizing path depth with
  | object fields ih =>
    rw [visitBelow] at hp
    split at hp
    · cases hp
    · obtain ⟨field, hfield, hplace | hbelow⟩ := (mem_visitFields_iff ..).mp hp
      · rw [hplace]
        exact h.of_mem hfield
      · exact ih field hfield (h.of_mem hfield) _ _ hbelow
  | _ => cases hp

theorem symmetric_of_mem_places {ds : List Document} (hds : ∀ d ∈ ds, Symmetric d.value)
    {s : Scope} (hp : p ∈ s.places ds) : Symmetric p.value := by
  cases s with
  | documents =>
    obtain ⟨d, hd, rfl⟩ := List.mem_map.mp hp
    exact hds d hd
  | values =>
    rw [Scope.places, catalogue_eq, List.mem_flatMap] at hp
    obtain ⟨d, hd, hplace⟩ := hp
    exact (hds d hd).of_mem_visitBelow _ _ _ hplace

theorem Scope.places_perm {ds ds' : List Document} (h : ds.Perm ds') (s : Scope) :
    (s.places ds).Perm (s.places ds') := by
  cases s with
  | documents => exact h.map _
  | values =>
    rw [places, places, catalogue_eq, catalogue_eq]
    exact h.flatMap_right _

end Places

section Scores

variable {α : Type} (o : Options α) {a b : Value}

theorem NumberAndText.symm (h : NumberAndText a b) : NumberAndText b a := by
  cases h with
  | left n s h => exact .right s n h
  | right s n h => exact .left n s h

theorem Cutoff.symm {c : α} (h : Cutoff o a b c) : Cutoff o b a c := by
  cases h with
  | kind hkind hobject =>
    rw [hkind] at hobject ⊢
    exact .kind hkind.symm hobject
  | number hnumbers htext => exact .number hnumbers htext.symm

theorem Scope.Cutoff.symm {s : Scope} {c : α} (h : s.Cutoff o a b c) : s.Cutoff o b a c := by
  cases s with
  | documents => exact h
  | values => exact Resources.Cutoff.symm o h

variable [Scalar α] [SymmetricScalar α]

theorem Scope.score_comm (s : Scope) (ha : Symmetric a) (hb : Symmetric b) :
    s.score o a b = s.score o b a := by
  have hscore := scoreAt_comm o 0 ha.arrayFree ha.ascending hb.ascending
  cases s with
  | documents =>
    cases a <;> cases b <;> try rfl
    exact hscore
  | values => exact hscore

theorem Scope.Alike.symm {s : Scope} (ha : Symmetric a) (hb : Symmetric b)
    (h : s.Alike o a b) : s.Alike o b a := by
  obtain ⟨c, hcutoff, hle⟩ := h
  rw [s.score_comm o ha hb] at hle
  exact ⟨c, hcutoff.symm, hle⟩

end Scores

section Findings

variable {α : Type} [Scalar α] [SymmetricScalar α] (o : Options α) {ds ds' : List Document}
  (hperm : ds.Perm ds') (hds : ∀ d ∈ ds, Symmetric d.value)

include hperm hds

-- As many pairs are found in each scope.
theorem Scope.length_findings_perm (s : Scope) :
    (s.findings o ds).length = (s.findings o ds').length := by
  rw [findings_eq, findings_eq, List.length_filterMap_eq_countP, List.length_filterMap_eq_countP]
  refine countP_metPairs_perm (r := fun a b => (s.finding? o a b).isSome) (places_perm hperm s)
    fun a ha b hb => ?_
  have ha := symmetric_of_mem_places hds ha
  have hb := symmetric_of_mem_places hds hb
  rw [Bool.eq_iff_iff, isSome_finding?_iff, isSome_finding?_iff]
  exact ⟨fun h => h.symm o ha hb, fun h => h.symm o hb ha⟩

-- A finding is there for two places in whichever order they are met.
theorem Scope.findings_covers_perm [OrderedScalar α] (s : Scope) :
    LogCovers (s.findings o ds') (s.findings o ds) := by
  intro f hf
  obtain ⟨a, b, hsublist, halike, rfl⟩ := (mem_findings_iff ..).mp hf
  have ha := symmetric_of_mem_places hds (hsublist.mem (a := a) (by simp))
  have hb := symmetric_of_mem_places hds (hsublist.mem (a := b) (by simp))
  have hnumber : Scalar.isNumber (Scalar.limit (s.score o a.value b.value)) = true :=
    Scalar.isNumber_limit (isNumber_score o s _ _)
  rcases pair_sublist_of_perm (places_perm hperm s) hsublist with hsame | hswapped
  · refine ⟨_, (mem_findings_iff ..).mpr ⟨a, b, hsame, halike, rfl⟩, rfl, rfl, ?_, hnumber⟩
    exact List.Subset.refl _
  · refine ⟨_, (mem_findings_iff ..).mpr ⟨b, a, hswapped, halike.symm o ha hb, rfl⟩, rfl,
      pairKey_comm _ _, ?_, ?_⟩
    · simp [finding]
    · rw [finding, finding, s.score_comm o hb ha]
      exact hnumber

-- What is found and shown does not depend on the order of the documents, as long as no list is in
-- them: the counts are the same, and so are the groups but for the order of their places.
theorem shown_of_perm [OrderedScalar α] {earlier : List (Finding α)}
    (hearlier : ∀ f ∈ earlier, f.category ≠ .resources) :
    let shown (ds : List Document) := (Registry.empty.recordAll
      (earlier ++ documentFindings o ds ++ valueFindings o ds)).view .resources
    (documentFindings o ds).length = (documentFindings o ds').length ∧
      (valueFindings o ds).length = (valueFindings o ds').length ∧
      (∀ g ∈ shown ds, ∃ g' ∈ shown ds', g.Same g') ∧
      ∀ g ∈ shown ds', ∃ g' ∈ shown ds, g.Same g' := by
  intro shown
  have hds' : ∀ d ∈ ds', Symmetric d.value := fun d hd => hds d (hperm.mem_iff.mpr hd)
  have hcovers : LogCovers (log o ds') (log o ds) :=
    (Scope.documents.findings_covers_perm o hperm hds).append
      (Scope.values.findings_covers_perm o hperm hds)
  have hcovers' : LogCovers (log o ds) (log o ds') :=
    (Scope.documents.findings_covers_perm o hperm.symm hds').append
      (Scope.values.findings_covers_perm o hperm.symm hds')
  have hshown (es : List Document) :
      shown es = (Registry.empty.recordAll (log o es)).view .resources := by
    rw [← ofCategory_log hearlier, Registry.view_ofCategory]
  have hn (es : List Document) : ∀ f ∈ log o es, Scalar.isNumber f.similarity = true :=
    fun f => isNumber_of_mem_log
  refine ⟨Scope.documents.length_findings_perm o hperm hds,
    Scope.values.length_findings_perm o hperm hds, ?_, ?_⟩
  · rw [hshown ds, hshown ds']
    exact fun g => Registry.exists_same (hn ds) (hn ds') hcovers hcovers'
  · rw [hshown ds, hshown ds']
    exact fun g => Registry.exists_same (hn ds') (hn ds) hcovers' hcovers

end Findings

def labelled (file : Files.Path) (text : String) : Document := ⟨file, .object [("a", .string text)]⟩

theorem shown_of_perm_labelled :
    let o : Options Float := { Options.standard with compareObjects := false }
    let ds := [labelled "a.json" "labels", labelled "b.json" "labelx"]
    let shown (ds : List Document) := (Registry.empty.recordAll
      ([] ++ documentFindings o ds ++ valueFindings o ds)).view .resources
    ds.Perm ds.reverse ∧ (∀ d ∈ ds, Symmetric d.value) ∧ (shown ds).length = 1 ∧
      ∀ g ∈ shown ds, ∃ g' ∈ shown ds.reverse, g.Same g' := by
  intro o ds shown
  have hperm : ds.Perm ds.reverse := ds.reverse_perm.symm
  have hlabelled (file : Files.Path) (text : String) : Symmetric (labelled file text).value := by
    have hkeys : ["a"].Pairwise (· < ·) := by decide
    refine ⟨.object _ ?_, .object _ hkeys ?_⟩
    · simp [Value.ArrayFree.string]
    · simp [Value.Ascending.string]
  have hds : ∀ d ∈ ds, Symmetric d.value := by
    intro d hd
    rcases List.mem_pair.mp hd with rfl | rfl
    · exact hlabelled _ _
    · exact hlabelled _ _
  have hcount : (shown ds).length = 1 := by
    rw [Registry.length_view]
    decide +kernel
  exact ⟨hperm, hds, hcount, (shown_of_perm o hperm hds (by simp)).2.2.1⟩

end Likeness.Resources
