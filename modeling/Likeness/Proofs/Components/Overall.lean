import Likeness.Proofs.Components.Parts
import Likeness.Proofs.Settings.Range

namespace Likeness.Components

open Number Similarity Settings

-- A sort of hooks takes part if either side has one.
def matchPart {β : Type} (weight : ℚ) (score : β → β → ℚ) (as bs : List β) : List (ℚ × ℚ) :=
  if as.isEmpty && bs.isEmpty then [] else [(weight, (bestMatch score as bs).getD 0)]

def hookParts (w : HookWeights ℚ) (a b : Hooks) : List (ℚ × ℚ) :=
  matchPart w.state StateHook.score a.state b.state ++
    matchPart w.effect EffectHook.score a.effect b.effect ++
    matchPart w.custom CustomHook.score a.custom b.custom

-- The scores of two components that are reported besides the overall one.
def PartScores.compared (s : PartScores ℚ) : List ℚ :=
  s.structural :: s.hooks.toList ++ s.styles.toList

-- What is compared of two components under some settings.
def comparedParts (o : ComponentOptions ℚ) (a b : Component) : List (ℚ × ℚ) :=
  (o.structureWeight, (compare o a b).structural) ::
    (if o.compareHooks then [(o.hooksWeight, Hooks.score o.hookWeights a.hooks b.hooks)] else []) ++
    if o.compareStyles then [(o.stylesWeight, Styles.score o.styleWeights a.styles b.styles)]
    else []

theorem map_snd_comparedParts (o : ComponentOptions ℚ) (a b : Component) :
    (comparedParts o a b).map Prod.snd = (compare o a b).compared := by
  cases hhooks : o.compareHooks <;> cases hstyles : o.compareStyles <;>
    simp [comparedParts, PartScores.compared, compare, hhooks, hstyles]

theorem mem_matchPart {β : Type} {weight : ℚ} {score : β → β → ℚ} {as bs : List β}
    (hscore : ∀ a b, score a b ∈ shares) {part : ℚ × ℚ}
    (h : part ∈ matchPart weight score as bs) : part.1 = weight ∧ part.2 ∈ shares := by
  unfold matchPart at h
  split at h
  · cases h
  · rename_i hnone
    obtain ⟨x, hx⟩ : ∃ x, bestMatch score as bs = some x := by
      rw [← Option.ne_none_iff_exists', Ne, bestMatch_eq_none_iff]
      simpa using hnone
    rw [List.mem_singleton] at h
    rw [h, hx]
    exact ⟨rfl, bestMatch_mem_shares hscore hx⟩

theorem present_bestMatch {β : Type} (weight : ℚ) (score : β → β → ℚ) (as bs : List β)
    (rest : List (ℚ × Option ℚ)) :
    present ((weight, bestMatch score as bs) :: rest) =
      matchPart weight score as bs ++ present rest := by
  unfold matchPart
  cases hbest : bestMatch score as bs with
  | none =>
    obtain ⟨rfl, rfl⟩ := (bestMatch_eq_none_iff score as bs).mp hbest
    rfl
  | some x =>
    have hnone : ¬(as.isEmpty && bs.isEmpty) = true := by
      have hne := mt (bestMatch_eq_none_iff score as bs).mpr (by simp [hbest])
      simpa using hne
    rw [if_neg hnone]
    rfl

theorem hooksScore_eq_mean (w : HookWeights ℚ) (a b : Hooks) :
    Hooks.score w a b = mean (hookParts w a b) := by
  rw [Hooks.score, blend_eq_mean, present_bestMatch, present_bestMatch, present_bestMatch,
    hookParts, List.append_assoc]
  congr 3
  exact List.append_nil _

-- Settings in range weigh nothing below zero.
structure Nonnegative (o : ComponentOptions ℚ) : Prop where
  parts : 0 ≤ o.structureWeight ∧ 0 ≤ o.hooksWeight ∧ 0 ≤ o.stylesWeight
  hooks : 0 ≤ o.hookWeights.state ∧ 0 ≤ o.hookWeights.effect ∧ 0 ≤ o.hookWeights.custom
  styles : 0 ≤ o.styleWeights.inline ∧ 0 ≤ o.styleWeights.classNames ∧ 0 ≤ o.styleWeights.styled

theorem nonnegative_of_inRange {c : Config ℚ} (hc : c.InRange) : Nonnegative c.components := by
  have hweights := hc.weights
  simp only [weightsOf, List.forall_mem_cons, isWeight, Bool.and_eq_true, Scalar.exact_le,
    Scalar.exact_zero] at hweights
  refine ⟨?_, ?_, ?_⟩ <;> tauto

-- The overall score of two components before it is cut to the range of scores.
def blended (o : ComponentOptions ℚ) (a b : Component) : ℚ :=
  let s := compare o a b
  blend [(o.structureWeight, some s.structural), (o.hooksWeight, s.hooks),
    (o.stylesWeight, s.styles)]

theorem overall_eq_limit (o : ComponentOptions ℚ) (a b : Component) :
    (compare o a b).overall = Scalar.limit (blended o a b) := rfl

theorem blended_eq_mean (o : ComponentOptions ℚ) (a b : Component) :
    blended o a b = mean (comparedParts o a b) := by
  unfold blended comparedParts
  cases hhooks : o.compareHooks <;> cases hstyles : o.compareStyles <;>
    simp [compare, blend_eq_mean, present, hhooks, hstyles]

theorem structural_mem_shares (o : ComponentOptions ℚ) (a b : Component) :
    (compare o a b).structural ∈ shares :=
  mix_mem_shares rfl (sharedPart_mem_shares _ _) (Element.score_mem_shares _ _)

section Scores

variable {o : ComponentOptions ℚ} (ho : Nonnegative o)

include ho

theorem mem_hookParts {a b : Hooks} {part : ℚ × ℚ} (h : part ∈ hookParts o.hookWeights a b) :
    0 ≤ part.1 ∧ part.2 ∈ shares := by
  obtain ⟨hstate, heffect, hcustom⟩ := ho.hooks
  rw [hookParts, List.mem_append, List.mem_append] at h
  rcases h with (h | h) | h
  · obtain ⟨hweight, hscore⟩ := mem_matchPart StateHook.score_mem_shares h
    exact ⟨hweight ▸ hstate, hscore⟩
  · obtain ⟨hweight, hscore⟩ := mem_matchPart EffectHook.score_mem_shares h
    exact ⟨hweight ▸ heffect, hscore⟩
  · obtain ⟨hweight, hscore⟩ := mem_matchPart CustomHook.score_mem_shares h
    exact ⟨hweight ▸ hcustom, hscore⟩

theorem blends_hooksScore (a b : Hooks) :
    Blends (hookParts o.hookWeights a b) (Hooks.score o.hookWeights a b) := by
  rw [hooksScore_eq_mean]
  exact blends_mean fun part => mem_hookParts ho

theorem hooksScore_mem_shares (a b : Hooks) : Hooks.score o.hookWeights a b ∈ shares := by
  rw [hooksScore_eq_mean]
  exact mean_mem_shares fun part => mem_hookParts ho

theorem stylesScore_mem_shares (a b : Styles) : Styles.score o.styleWeights a b ∈ shares := by
  obtain ⟨hinline, hclasses, hstyled⟩ := ho.styles
  unfold Styles.score
  split
  · exact one_mem_shares
  · refine blend_mem_shares ?_ ?_
    · simp only [List.forall_mem_cons]
      exact ⟨hinline, hclasses, hstyled, by simp⟩
    · simp only [List.forall_mem_cons]
      exact ⟨fun x => inlineScore_mem_shares, fun x => classScore_mem_shares,
        fun x => styledScore_mem_shares, by simp⟩

theorem mem_comparedParts {a b : Component} {part : ℚ × ℚ} (h : part ∈ comparedParts o a b) :
    0 ≤ part.1 ∧ part.2 ∈ shares := by
  obtain ⟨hstructure, hhooks, hstyles⟩ := ho.parts
  rw [comparedParts, List.cons_append, List.mem_cons, List.mem_append] at h
  rcases h with rfl | h | h
  · exact ⟨hstructure, structural_mem_shares o a b⟩
  · split at h
    · rw [List.mem_singleton.mp h]
      exact ⟨hhooks, hooksScore_mem_shares ho _ _⟩
    · cases h
  · split at h
    · rw [List.mem_singleton.mp h]
      exact ⟨hstyles, stylesScore_mem_shares ho _ _⟩
    · cases h

theorem blended_mem_shares (a b : Component) : blended o a b ∈ shares := by
  rw [blended_eq_mean]
  exact mean_mem_shares fun part => mem_comparedParts ho

theorem overall_eq_mean (a b : Component) :
    (compare o a b).overall = mean (comparedParts o a b) := by
  rw [overall_eq_limit, Scalar.exact_limit _ (blended_mem_shares ho a b), blended_eq_mean]

theorem blends_overall (a b : Component) :
    Blends (comparedParts o a b) (compare o a b).overall := by
  rw [overall_eq_mean ho]
  exact blends_mean fun part => mem_comparedParts ho

-- Two components whose compared parts all score 0 are found just when these parts weigh nothing.
theorem finding?_eq_none_iff_of_zero (hthreshold : 0 < o.threshold ∧ o.threshold ≤ 1)
    {a b : Component} (hzero : ∀ x ∈ (compare o a b).compared, x = 0) :
    finding? o (a, b) = none ↔ 0 < weightOf (comparedParts o a b) := by
  have hfinding : finding? o (a, b) = none ↔ (compare o a b).overall < o.threshold := by
    simp [finding?]
  rw [hfinding, overall_eq_mean ho]
  by_cases hpos : 0 < weightOf (comparedParts o a b)
  · have hbetween := between_mean (fun part hpart => (mem_comparedParts ho hpart).1) hpos
    obtain ⟨-, x, hx, hle⟩ := hbetween
    rw [map_snd_comparedParts] at hx
    rw [hzero x hx] at hle
    exact iff_of_true (hle.trans_lt hthreshold.1) hpos
  · rw [mean_of_weightOf_le (not_lt.mp hpos)]
    exact iff_of_false (not_lt.mpr hthreshold.2) hpos

end Scores

-- The scores of two components, if each of them is a share.
structure PartScores.InRange (s : PartScores ℚ) : Prop where
  props : s.props ∈ shares
  element : s.element ∈ shares
  structural : s.structural ∈ shares
  hooks : ∀ x ∈ s.hooks, x ∈ shares
  styles : ∀ x ∈ s.styles, x ∈ shares
  overall : s.overall ∈ shares

theorem inRange_compare {o : ComponentOptions ℚ} (ho : Nonnegative o) (a b : Component) :
    (compare o a b).InRange where
  props := sharedPart_mem_shares _ _
  element := Element.score_mem_shares _ _
  structural := structural_mem_shares o a b
  hooks := by
    intro x hx
    obtain ⟨-, heq⟩ := Option.ite_none_right_eq_some.mp hx
    exact Option.some.inj heq ▸ hooksScore_mem_shares ho _ _
  styles := by
    intro x hx
    obtain ⟨-, heq⟩ := Option.ite_none_right_eq_some.mp hx
    exact Option.some.inj heq ▸ stylesScore_mem_shares ho _ _
  overall := limit_mem_shares _

-- Components that are the same but for where they stand and what they are called.
structure SameParts (a b : Component) : Prop where
  props : a.props = b.props
  element : a.element = b.element
  hooks : a.hooks = b.hooks
  styles : a.styles = b.styles

-- All of what is compared, and nothing of what is not.
def whole (o : ComponentOptions ℚ) : PartScores ℚ :=
  ⟨1, 1, 1, if o.compareHooks then some 1 else none, if o.compareStyles then some 1 else none, 1⟩

theorem compare_of_sameParts (o : ComponentOptions ℚ) {a b : Component} (h : SameParts a b) :
    compare o a b = whole o := by
  have hone (scored : Bool) (x : ℚ) (hx : (if scored then some (1 : ℚ) else none) = some x) :
      x = 1 := (Option.some.inj (Option.ite_none_right_eq_some.mp hx).2).symm
  have hblend : blend [(o.structureWeight, some 1),
      (o.hooksWeight, if o.compareHooks then some 1 else none),
      (o.stylesWeight, if o.compareStyles then some 1 else none)] = (1 : ℚ) := by
    refine blend_eq_one ?_
    simp only [List.forall_mem_cons]
    exact ⟨hone true, hone o.compareHooks, hone o.compareStyles, by simp⟩
  simp only [compare, h.props, h.element, h.hooks, h.styles, sharedPart_self, Element.score_self,
    Hooks.score_self, Styles.score_self, mix_one, hblend, whole,
    Scalar.exact_limit 1 ⟨zero_le_one, le_rfl⟩]

-- All scores are in range, the overall one before it is cut already. Components of the same parts
-- score 1 in all that is compared, whatever the weights are.
theorem compare_inRange_whole {o : ComponentOptions ℚ} (ho : Nonnegative o) (a b : Component) :
    (compare o a b).InRange ∧ blended o a b ∈ shares ∧
      (compare o a b).overall = Scalar.limit (blended o a b) ∧
      (SameParts a b → compare o a b = whole o) :=
  ⟨inRange_compare ho a b, blended_mem_shares ho a b, overall_eq_limit o a b,
    compare_of_sameParts o⟩

-- A component with an attribute twice and two styled components of one base.
def panel (file name : String) (line : Nat) : Component :=
  ⟨file, name, line, [.make "x" none], .mk "a" [⟨"id", none⟩, ⟨"id", none⟩] [],
    ⟨[⟨"0", .number, none⟩], [], []⟩, ⟨[], [], [⟨"Top", "div", "x"⟩, ⟨"Low", "div", "y"⟩]⟩⟩

theorem compare_inRange_whole_panel :
    let o : ComponentOptions ℚ := { ComponentOptions.standard with
      structureWeight := 0
      compareHooks := false
      stylesWeight := 0 }
    let a := panel "a.tsx" "A" 1
    let b := panel "b.tsx" "B" 2
    Nonnegative o ∧ SameParts a b ∧ styledScore a.styles.styled b.styles.styled = some (1 / 2 : ℚ) ∧
      (compare o a b).InRange ∧ compare o a b = ⟨1, 1, 1, none, some 1, 1⟩ ∧
      (compare .standard a b).overall = (1 : ℚ) := by
  intro o a b
  have ho : Nonnegative o := ⟨by decide +kernel, by decide +kernel, by decide +kernel⟩
  have hstandard : Nonnegative .standard :=
    ⟨by decide +kernel, by decide +kernel, by decide +kernel⟩
  have hsame : SameParts a b := ⟨rfl, rfl, rfl, rfl⟩
  obtain ⟨hrange, -, -, hwhole⟩ := compare_inRange_whole ho a b
  refine ⟨ho, hsame, by decide +kernel, hrange, hwhole hsame, ?_⟩
  rw [(compare_inRange_whole hstandard a b).2.2.2 hsame, whole]

theorem threshold_le_one {c : Config ℚ} (hc : c.InRange) : c.components.threshold ≤ 1 := by
  have hshare := hc.shares ("components.threshold", c.components.threshold) (by simp [thresholdsOf])
  simp only [isShare, Bool.and_eq_true, Scalar.exact_le, Scalar.exact_one] at hshare
  exact hshare.2

-- The overall score weighs up what is compared, and the score of the hooks the sorts of hooks that
-- either side has. Each is a mean as long as some weight is left, and 1 otherwise.
theorem overall_blends (c : Config ℚ) (hc : c.fault? = none) (a b : Component) :
    (comparedParts c.components a b).map Prod.snd = (compare c.components a b).compared ∧
      Blends (comparedParts c.components a b) (compare c.components a b).overall ∧
      Blends (hookParts c.components.hookWeights a.hooks b.hooks)
        (Hooks.score c.components.hookWeights a.hooks b.hooks) ∧
      (0 < c.components.threshold → (∀ x ∈ (compare c.components a b).compared, x = 0) →
        (finding? c.components (a, b) = none ↔
          0 < weightOf (comparedParts c.components a b))) := by
  have hrange := Config.inRange_of_fault? hc
  have ho := nonnegative_of_inRange hrange
  exact ⟨map_snd_comparedParts _ a b, blends_overall ho a b, blends_hooksScore ho _ _,
    fun hpos hzero => finding?_eq_none_iff_of_zero ho ⟨hpos, threshold_le_one hrange⟩ hzero⟩

-- Two components with nothing in common. Only one of them has a hook.
def linked : Component :=
  ⟨"a.tsx", "A", 1, [.make "x" none], .mk "a" [] [], ⟨[⟨"0", .number, none⟩], [], []⟩, ⟨[], [], []⟩⟩

def bold : Component :=
  ⟨"a.tsx", "B", 2, [.make "y" none], .mk "b" [] [], ⟨[], [], []⟩, ⟨[], [], []⟩⟩

theorem overall_blends_linked :
    let c : Config ℚ := .standard
    let s := compare c.components linked bold
    let parts := comparedParts c.components linked bold
    c.fault? = none ∧ 0 < weightOf parts ∧
      parts.map Prod.snd = s.compared ∧ Blends parts s.overall ∧
      Blends (hookParts c.components.hookWeights linked.hooks bold.hooks)
        (Hooks.score c.components.hookWeights linked.hooks bold.hooks) ∧
      (0 < c.components.threshold → (∀ x ∈ s.compared, x = 0) →
        (finding? c.components (linked, bold) = none ↔ 0 < weightOf parts)) := by
  intro c s parts
  have hc : c.fault? = none := by decide +kernel
  exact ⟨hc, by decide +kernel, overall_blends c hc linked bold⟩

-- Weights that are not all zero, but are where something is compared.
def weightless : Config ℚ :=
  { Config.standard with
    components := { ComponentOptions.standard with
      structureWeight := 0
      compareHooks := false
      compareStyles := false
      hookWeights := ⟨0, 1, 0⟩ } }

-- The score of parts that weigh nothing is 1, although all of them score 0.
theorem overall_not_between_weightless :
    let o := weightless.components
    let s := compare o linked bold
    weightless.fault?.isNone = true ∧ 0 < o.threshold ∧
      s.compared = [0] ∧ s.overall = 1 ∧ ¬Between s.compared s.overall ∧
      (finding? o (linked, bold)).isSome = true ∧
      (hookParts o.hookWeights linked.hooks bold.hooks).map Prod.snd = [0] ∧
      Hooks.score o.hookWeights linked.hooks bold.hooks = 1 := by
  intro o s
  have hcompared : s.compared = [0] := by decide +kernel
  have hoverall : s.overall = 1 := by decide +kernel
  refine ⟨by decide +kernel, by decide +kernel, hcompared, hoverall, ?_, by decide +kernel,
    by decide +kernel, by decide +kernel⟩
  rw [hcompared, hoverall]
  rintro ⟨-, x, hx, hle⟩
  rw [List.mem_singleton.mp hx] at hle
  exact absurd hle (by norm_num)

end Likeness.Components
