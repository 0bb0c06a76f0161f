import Likeness.Proofs.Duplicates.View
import Likeness.Proofs.Number.Total
import Likeness.Proofs.Pairs

namespace Likeness

section Sorted

variable {β : Type}

-- Two members of a list without repetitions stand in one order only.
theorem not_pair_sublist_swap {a b : β} {bs : List β} (h : bs.Nodup) (hab : [a, b].Sublist bs) :
    ¬[b, a].Sublist bs := by
  induction bs with
  | nil => simp at hab
  | cons c bs ih =>
    obtain ⟨hc, hbs⟩ := List.nodup_cons.mp h
    rw [pair_sublist_cons_iff] at hab ⊢
    rintro (⟨rfl, ha⟩ | hba)
    · rcases hab with ⟨rfl, -⟩ | hab
      · exact hc ha
      · exact hc (hab.subset (by simp))
    · rcases hab with ⟨rfl, -⟩ | hab
      · exact hc (hba.subset (by simp))
      · exact ih hbs hab hba

-- What is sorted stays in its first order where it counts as equal.
theorem pairwise_mergeSort_stable {le : β → β → Bool}
    (htrans : ∀ a b c, le a b = true → le b c = true → le a c = true)
    (htotal : ∀ a b, (le a b || le b a) = true) {bs : List β} (hnodup : bs.Nodup)
    {r : β → β → Prop} (hr : bs.Pairwise r) :
    (bs.mergeSort le).Pairwise fun a b => le a b = true ∧ (le b a = true → r a b) := by
  rw [List.pairwise_iff_forall_sublist]
  intro a b hab
  have hpair := List.pairwise_iff_forall_sublist.mp (List.pairwise_mergeSort htrans htotal bs) hab
  refine ⟨hpair, fun hback => List.pairwise_iff_forall_sublist.mp hr ?_⟩
  have hsorted : (bs.mergeSort le).Nodup := (List.mergeSort_perm bs le).nodup_iff.mpr hnodup
  rcases pair_sublist_of_perm (List.mergeSort_perm bs le) hab with h | h
  · exact h
  · -- in the other order both would stand in the other order after sorting, too
    have hturned := List.pair_sublist_mergeSort htrans htotal hback h
    exact absurd hturned (not_pair_sublist_swap hsorted hab)

theorem pairwise_idxOf_lt [BEq β] [LawfulBEq β] {bs : List β} (h : bs.Nodup) :
    bs.Pairwise fun a b => bs.idxOf a < bs.idxOf b := by
  rw [List.pairwise_iff_getElem]
  intro i j hi hj hij
  rw [h.idxOf_getElem i hi, h.idxOf_getElem j hj]
  exact hij

end Sorted

namespace Duplicates

open Number

section Report

variable {α : Type} [Scalar α]

-- A report is taken of each shelf just as the shelf is shown.
theorem Registry.groups_report (r : Registry α) (category : Category) :
    r.report.groups category = r.view category := by
  cases category <;> rfl

omit [Scalar α] in
theorem Report.total_eq (r : Report α) : r.total =
    r.functions.length + r.modules.length + r.resources.length + r.components.length := by
  simp [total, Category.all, groups]

-- Whether a group was found before another one.
def FoundBefore (found : List String) (g h : Group α) : Prop :=
  found.idxOf g.key < found.idxOf h.key

theorem Registry.pairwise_groups (log : List (Finding α)) (category : Category) :
    ((empty.recordAll log).groups category).Pairwise
      (FoundBefore (keysOf (ofCategory category log))) := by
  rw [← (follows_recordAll log category).keys_eq]
  exact List.Pairwise.of_map (·.key) (fun _ _ h => h)
    (pairwise_idxOf_lt (nodup_keys log category))

end Report

-- Whether a resource stands before another one: its score is not lower in the order of all doubles,
-- and it was found first where both scores are the same. For numbers, this is the order of numbers
-- but for the two zeros.
structure Precedes (found : List String) (g h : Group Float) : Prop where
  totalLe : Scalar.totalLe h.similarity g.similarity = true
  foundBefore : g.similarity = h.similarity → FoundBefore found g h
  numbers : Scalar.isNumber g.similarity = true → Scalar.isNumber h.similarity = true →
    Scalar.lt h.similarity g.similarity = true ∨ h.similarity = -0 ∧ g.similarity = 0 ∨
      h.similarity = g.similarity

-- The order in which the groups of a category are shown.
def ShownBefore (found : List String) : Category → Group Float → Group Float → Prop
  | .resources => Precedes found
  | _ => FoundBefore found

namespace Registry

theorem pairwise_view (log : List (Finding Float)) (category : Category) :
    ((empty.recordAll log).view category).Pairwise
      (ShownBefore (keysOf (ofCategory category log)) category) := by
  have hfound : (((empty.recordAll log).groups category).filter Group.isDuplicate).Pairwise
      (FoundBefore (keysOf (ofCategory category log))) :=
    (pairwise_groups log category).sublist List.filter_sublist
  cases category with
  | resources =>
    have hnodup : (((empty.recordAll log).groups .resources).filter Group.isDuplicate).Nodup :=
      (List.Nodup.of_map _ (nodup_keys log .resources)).filter _
    have htrans (a b c : Group Float) (hab : Scalar.totalLe b.similarity a.similarity = true)
        (hbc : Scalar.totalLe c.similarity b.similarity = true) :
        Scalar.totalLe c.similarity a.similarity = true := totalLe_trans _ _ _ hbc hab
    refine (pairwise_mergeSort_stable htrans (fun a b => totalLe_total _ _) hnodup
      hfound).imp fun {g h} hgh => ?_
    refine ⟨hgh.1, fun hsame => hgh.2 ?_, fun hg hh => lt_or_of_totalLe hh hg hgh.1⟩
    rw [hsame]
    simpa using totalLe_total h.similarity h.similarity
  | _ => exact hfound

-- What is shown of a category is what a report has of it: each group with two places or more once
-- and nothing else, in the order in which the keys of the groups were found, the most similar
-- resources first. A report has as many groups as its categories have together.
theorem reported_in_order (log : List (Finding Float)) (category : Category) :
    let r := empty.recordAll log
    let found := keysOf (ofCategory category log)
    (r.groups category).map (·.key) = found ∧
      r.report.groups category = r.view category ∧
      ((r.view category).map (·.key)).Nodup ∧
      (∀ g, g ∈ r.view category ↔ g ∈ r.groups category ∧ 2 ≤ g.occurrences.length) ∧
      (r.view category).Pairwise (ShownBefore found category) ∧
      r.report.total = (r.view .functions).length + (r.view .modules).length +
        (r.view .resources).length + (r.view .components).length := by
  intro r found
  refine ⟨(follows_recordAll log category).keys_eq, groups_report r category,
    nodup_keys_view log category, fun g => ?_, pairwise_view log category, Report.total_eq _⟩
  rw [mem_view_iff, Group.isDuplicate, decide_eq_true_iff]
  rfl

def zeros : List (Finding Float) :=
  [⟨.resources, "a", .value .null, -0,
      [⟨"a.json", .keyPath "x", none⟩, ⟨"b.json", .keyPath "x", none⟩]⟩,
    ⟨.resources, "b", .value .null, 0,
      [⟨"a.json", .keyPath "y", none⟩, ⟨"b.json", .keyPath "y", none⟩]⟩]

-- The two zeros are equal scores, and yet they are not shown in the order they were found.
theorem zeros_not_in_order : ¬ ∀ log : List (Finding Float),
    ((empty.recordAll log).view .resources).Pairwise fun g h =>
      Scalar.same g.similarity h.similarity = true →
        FoundBefore (keysOf (ofCategory .resources log)) g h := by
  intro hall
  obtain ⟨g, h, hgroups, hg, hh⟩ : ∃ g h : Group Float,
      (empty.recordAll zeros).groups .resources = [g, h] ∧
        (g.key = "a" ∧ g.similarity = -0 ∧ g.isDuplicate = true) ∧
        (h.key = "b" ∧ h.similarity = 0 ∧ h.isDuplicate = true) :=
    ⟨_, _, rfl, by decide +kernel, by decide +kernel⟩
  have hmem (x : Group Float) (hx : x = g ∨ x = h) (hshown : x.isDuplicate = true) :
      x ∈ (empty.recordAll zeros).view .resources :=
    (mem_view_iff _ _ x).mpr ⟨by simpa [hgroups] using hx, hshown⟩
  have hne : g ≠ h := by
    rintro rfl
    exact absurd (hg.1.symm.trans hh.1) (by decide)
  rcases pair_sublist_or (hmem g (.inl rfl) hg.2.2) (hmem h (.inr rfl) hh.2.2) hne with hgh | hhg
  · have hprecedes := List.pairwise_iff_forall_sublist.mp (pairwise_view zeros .resources) hgh
    have htotal := hprecedes.totalLe
    rw [hg.2.1, hh.2.1] at htotal
    exact absurd htotal (by decide)
  · have hfound := List.pairwise_iff_forall_sublist.mp (hall zeros) hhg
    rw [FoundBefore, hg.2.1, hh.2.1, hg.1, hh.1] at hfound
    exact absurd (hfound (by decide)) (by decide)

end Registry

end Duplicates

end Likeness
