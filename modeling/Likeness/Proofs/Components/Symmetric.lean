import Likeness.Proofs.Components.Elements
import Likeness.Proofs.Components.Shown
import Likeness.Proofs.Duplicates.Cover
import Likeness.Proofs.Duplicates.PairKey
import Likeness.Proofs.Similarity.Symmetric

namespace Likeness

open Duplicates Number Similarity

-- Components that have no property twice, and whose elements have no attribute twice.
structure Component.Unrepeated (c : Component) : Prop where
  props : c.props.Nodup
  element : c.element.Unrepeated

namespace Components

section Styles

theorem inlineScore_comm (as bs : List (List (String × String))) :
    (inlineScore as bs : Option ℚ) = inlineScore bs as := by
  simp only [inlineScore, jaccard_comm, Bool.and_comm]

theorem classScore_comm (as bs : List String) :
    (classScore as bs : Option ℚ) = classScore bs as := by
  simp only [classScore, jaccard_comm, Bool.and_comm]

-- How alike two styled components are, if they style the same.
def pairScore? (a b : StyledComponent) : Option ℚ :=
  if b.base == a.base then some (ofStrings (compact a.css) (compact b.css)) else none

theorem pairScore?_comm (a b : StyledComponent) : pairScore? a b = pairScore? b a := by
  rw [pairScore?, pairScore?, ofStrings_comm, BEq.comm]

def styledScores (as bs : List StyledComponent) : List ℚ :=
  as.flatMap fun a => bs.filterMap (pairScore? a)

-- From the other side the same pairs are met in another order.
theorem styledScores_perm (as bs : List StyledComponent) :
    (styledScores as bs).Perm (styledScores bs as) := by
  have hswap (b : StyledComponent) : (fun a => pairScore? a b) = pairScore? b :=
    funext fun a => pairScore?_comm a b
  simpa only [styledScores, hswap] using filterMap_flatMap_perm pairScore? as bs

theorem styledScore_eq (as bs : List StyledComponent) : (styledScore as bs : Option ℚ) =
    if as.isEmpty && bs.isEmpty then none
    else if (styledScores as bs).isEmpty then some 0
    else some ((styledScores as bs).sum / (styledScores as bs).length) := by
  have hscores : (as.flatMap fun a => (bs.filter (·.base == a.base)).map fun b =>
      ofStrings (compact a.css) (compact b.css)) = styledScores as bs := by
    simp only [← List.filterMap_eq_map, List.filterMap_filter, Function.comp_def]
    rfl
  simp only [styledScore, hscores, Scalar.exact_sum, Scalar.exact_zero, Scalar.exact_ofNat]

theorem styledScore_comm (as bs : List StyledComponent) :
    (styledScore as bs : Option ℚ) = styledScore bs as := by
  have hperm := styledScores_perm as bs
  rw [styledScore_eq, styledScore_eq, hperm.isEmpty_eq, hperm.sum_eq, hperm.length_eq,
    Bool.and_comm]

theorem Styles.score_comm (w : StyleWeights ℚ) (a b : Styles) : score w a b = score w b a := by
  simp only [score, inlineScore_comm a.inline, classScore_comm a.classNames,
    styledScore_comm a.styled, eq_comm]

end Styles

section Compared

variable (o : ComponentOptions ℚ) {a b : Component} (ha : a.Unrepeated) (hb : b.Unrepeated)

include ha hb

theorem structural_comm : (compare o a b).structural = (compare o b a).structural := by
  simp only [compare, sharedPart_comm ha.props hb.props, Element.score_comm ha.element hb.element]

-- Whichever of two components comes first, all scores are the same if those of the hooks are.
theorem compare_comm (hhooks : (compare o a b).hooks = (compare o b a).hooks) :
    compare o a b = compare o b a := by
  simp only [compare] at hhooks
  simp only [compare, sharedPart_comm ha.props hb.props, Element.score_comm ha.element hb.element,
    hhooks, Styles.score_comm o.styleWeights a.styles]

theorem compare_comm_without_hooks (h : o.compareHooks = false) :
    compare o a b = compare o b a :=
  compare_comm o ha hb (by simp [compare, h])

end Compared

theorem mem_similar_iff (o : ComponentOptions ℚ) (a b : Component) (cs : List Component) :
    (a, b) ∈ similar o cs ↔
      [a, b].Sublist cs ∧ ¬(compare o a b).overall < o.threshold := by
  rw [similar, List.mem_filter, mem_orderedPairs_iff, Bool.not_eq_true', ← Bool.not_eq_true,
    Scalar.exact_lt]

section Findings

variable {o : ComponentOptions ℚ} (h : o.compareHooks = false) {cs cs' : List Component}
  (hperm : cs.Perm cs') (hcs : ∀ c ∈ cs, c.Unrepeated)

include h hperm hcs

theorem length_findings_perm : (findings o cs).length = (findings o cs').length := by
  simp only [findings_eq, List.length_map, similar, ← List.countP_eq_length_filter]
  refine countP_orderedPairs_perm
    (r := fun a b => !Scalar.lt (compare o a b).overall o.threshold) hperm fun a ha b hb => ?_
  rw [compare_comm_without_hooks o (hcs a ha) (hcs b hb) h]

-- Two components are found to be similar in whichever order they are.
theorem findings_covers_perm : LogCovers (findings o cs') (findings o cs) := by
  intro f hf
  rw [findings_eq] at hf ⊢
  obtain ⟨⟨a, b⟩, hpair, rfl⟩ := List.mem_map.mp hf
  obtain ⟨hsub, hscore⟩ := (mem_similar_iff o a b cs).mp hpair
  -- the two may have changed places, and then their key and their scores are the same still
  rcases pair_sublist_of_perm hperm hsub with hsame | hswapped
  · exact ⟨_, List.mem_map_of_mem ((mem_similar_iff o a b cs').mpr ⟨hsame, hscore⟩), rfl, rfl,
      List.Subset.refl _, (Scalar.exact_le _ _).mpr le_rfl⟩
  · have hcompare := compare_comm_without_hooks o (hcs a (hsub.mem (by simp)))
      (hcs b (hsub.mem (by simp))) h
    rw [hcompare] at hscore
    refine ⟨_, List.mem_map_of_mem ((mem_similar_iff o b a cs').mpr ⟨hswapped, hscore⟩), rfl,
      pairKey_comm _ _, by simp [pairFinding], ?_⟩
    rw [pairFinding, pairFinding, hcompare]
    exact (Scalar.exact_le _ _).mpr le_rfl

end Findings

-- Nothing but the scores of hooks depends on which of two components comes first, and the overall
-- score by way of them. Without hooks, what is found among components does not depend on their
-- order: as many pairs are similar, and the groups that are shown say the same.
theorem directed_by_hooks_alone (o : ComponentOptions ℚ) :
    (∀ a b : Component, a.Unrepeated → b.Unrepeated →
      let s := compare o a b
      let t := compare o b a
      s.props = t.props ∧ s.element = t.element ∧ s.structural = t.structural ∧
        s.styles = t.styles ∧ (o.compareHooks = false → s.overall = t.overall)) ∧
      (o.compareHooks = false → ∀ (earlier : List (Finding ℚ)) (cs cs' : List Component),
        cs.Perm cs' → (∀ c ∈ cs, c.Unrepeated) →
        let shown (cs : List Component) :=
          (Registry.empty.recordAll (earlier ++ findings o cs)).view .components
        (findings o cs).length = (findings o cs').length ∧
          (∀ g ∈ shown cs, ∃ g' ∈ shown cs', g.Same g') ∧
          ∀ g ∈ shown cs', ∃ g' ∈ shown cs, g.Same g') := by
  constructor
  · intro a b ha hb s t
    have hstyles : s.styles = t.styles := by
      simp only [s, t, compare, Styles.score_comm o.styleWeights a.styles]
    exact ⟨sharedPart_comm ha.props hb.props, Element.score_comm ha.element hb.element,
      structural_comm o ha hb, hstyles,
      fun h => congrArg PartScores.overall (compare_comm_without_hooks o ha hb h)⟩
  · intro h earlier cs cs' hperm hcs shown
    have hcs' : ∀ c ∈ cs', c.Unrepeated := fun c hc => hcs c (hperm.mem_iff.mpr hc)
    have hn (log : List (Finding ℚ)) : ∀ f ∈ log, Scalar.isNumber f.similarity = true :=
      fun f _ => Scalar.exact_isNumber _
    -- earlier findings may share keys with these, but they are the same on both sides
    have hearlier : LogCovers earlier earlier := LogCovers.refl (hn earlier)
    have hcovers := hearlier.append (findings_covers_perm h hperm hcs)
    have hcovers' := hearlier.append (findings_covers_perm h hperm.symm hcs')
    exact ⟨length_findings_perm h hperm hcs,
      fun g => Registry.exists_same (hn _) (hn _) hcovers hcovers',
      fun g => Registry.exists_same (hn _) (hn _) hcovers' hcovers⟩

-- Two components with the same attributes in two orders. One has a hook more than the other.
def toggle (name : String) (attributes : List Attribute) (states : List StateHook) : Component :=
  ⟨"a.tsx", name, 1, [.make "on" none], .mk "p" attributes [], ⟨states, [], []⟩, ⟨[], [], []⟩⟩

theorem directed_by_hooks_alone_toggle :
    let o : ComponentOptions ℚ := { ComponentOptions.standard with compareHooks := false }
    let a := toggle "A" [⟨"id", none⟩, ⟨"lang", none⟩] [⟨"0", .number, none⟩]
    let b := toggle "B" [⟨"lang", none⟩, ⟨"id", none⟩] [⟨"0", .number, none⟩, ⟨"1", .number, none⟩]
    let shown (cs : List Component) :=
      (Registry.empty.recordAll ([] ++ findings o cs)).view .components
    a.Unrepeated ∧ b.Unrepeated ∧ (shown [a, b]).length = 1 ∧
      (compare o a b).overall = (compare o b a).overall ∧
      (∀ g ∈ shown [a, b], ∃ g' ∈ shown [b, a], g.Same g') ∧
      (compare .standard a b).hooks = some (1 / 2 : ℚ) ∧
      (compare .standard b a).hooks = some (4 / 5 : ℚ) ∧
      ((compare .standard a b).overall : ℚ) ≠ (compare .standard b a).overall := by
  intro o a b shown
  have ha : a.Unrepeated := ⟨by decide, .intro (by decide) (by simp [a, toggle, Element.children])⟩
  have hb : b.Unrepeated := ⟨by decide, .intro (by decide) (by simp [b, toggle, Element.children])⟩
  have hcs : ∀ c ∈ [a, b], c.Unrepeated :=
    List.forall_mem_cons.mpr ⟨ha, List.forall_mem_singleton.mpr hb⟩
  obtain ⟨hscores, hshown⟩ := directed_by_hooks_alone o
  exact ⟨ha, hb, by decide +kernel, (hscores a b ha hb).2.2.2.2 rfl,
    (hshown rfl [] [a, b] [b, a] (.swap b a []) hcs).2.1, by decide +kernel, by decide +kernel,
    by decide +kernel⟩

end Components

end Likeness
