import Likeness.Components.Compare
import Likeness.Proofs.Components.Elements
import Likeness.Proofs.Similarity.Mean

namespace Likeness.Components

open Number Similarity

section Hooks

theorem StateHook.score_mem_shares (a b : StateHook) : (score a b : ℚ) ∈ shares := by
  have hvalue : (if a.initialKind ≠ b.initialKind then Scalar.zero
      else if a.initialValue = b.initialValue then Scalar.one else Scalar.tenths 6 : ℚ) ∈
      shares := by
    split
    · exact zero_mem_shares
    · split
      · exact one_mem_shares
      · exact tenths_mem_shares (by decide)
  unfold score
  dsimp only
  split
  · exact mix_mem_shares rfl hvalue (ofBool_mem_shares _)
  · exact hvalue

theorem EffectHook.score_mem_shares (a b : EffectHook) : (score a b : ℚ) ∈ shares := by
  unfold score
  dsimp only
  split
  · exact mix_mem_shares rfl (ofBool_mem_shares _) (jaccard_mem_shares _ _)
  · exact ofBool_mem_shares _

theorem CustomHook.score_mem_shares (a b : CustomHook) : (score a b : ℚ) ∈ shares := by
  unfold score
  dsimp only
  split
  · exact zero_mem_shares
  · split
    · exact one_mem_shares
    · refine count_mem_shares ((List.length_filter_le _ _).trans ?_)
      rw [List.length_zip]
      exact min_le_max

theorem StateHook.score_self (a : StateHook) : (score a a : ℚ) = 1 := by
  obtain ⟨value, kind, setter⟩ := a
  cases setter with
  | none => simp [score]
  | some name => simp only [score, ne_eq, not_true_eq_false, if_false, if_true, beq_self_eq_true,
      Scalar.ofBool, Scalar.exact_one, mix_one]

theorem EffectHook.score_self (a : EffectHook) : (score a a : ℚ) = 1 := by
  obtain ⟨dependencies, hasCleanup⟩ := a
  cases dependencies with
  | none => simp [score, Scalar.ofBool]
  | some names => simp only [score, beq_self_eq_true, Scalar.ofBool, if_true, Scalar.exact_one,
      jaccard_self, mix_one]

theorem length_filter_zip_self {β : Type} {test : β × β → Bool} (h : ∀ b, test (b, b) = true)
    (bs : List β) : ((bs.zip bs).filter test).length = bs.length := by
  rw [List.filter_eq_self.mpr, List.length_zip, min_self]
  intro pair hpair
  rw [List.zip_eq_zipWith, List.zipWith_self] at hpair
  obtain ⟨b, -, rfl⟩ := List.mem_map.mp hpair
  exact h b

theorem CustomHook.score_self (a : CustomHook) : (score a a : ℚ) = 1 := by
  unfold score
  simp only [ne_eq, not_true_eq_false, if_false, max_self]
  split
  · exact Scalar.exact_one
  · rename_i hne
    rw [length_filter_zip_self fun x => beq_self_eq_true x]
    exact div_self (Nat.cast_ne_zero.mpr hne)

-- Any weights weigh up hooks that are all there.
theorem Hooks.score_self (w : HookWeights ℚ) (h : Hooks) : score w h h = 1 := by
  refine blend_eq_one ?_
  simp only [List.forall_mem_cons]
  exact ⟨fun _ => bestMatch_self StateHook.score_mem_shares StateHook.score_self,
    fun _ => bestMatch_self EffectHook.score_mem_shares EffectHook.score_self,
    fun _ => bestMatch_self CustomHook.score_mem_shares CustomHook.score_self, by simp⟩

end Hooks

section Styles

theorem inlineScore_mem_shares {as bs : List (List (String × String))} {x : ℚ}
    (h : inlineScore as bs = some x) : x ∈ shares := by
  unfold inlineScore at h
  dsimp only at h
  split at h <;> cases h
  exact jaccard_mem_shares _ _

theorem classScore_mem_shares {as bs : List String} {x : ℚ} (h : classScore as bs = some x) :
    x ∈ shares := by
  unfold classScore at h
  split at h <;> cases h
  exact jaccard_mem_shares _ _

theorem styledScore_mem_shares {as bs : List StyledComponent} {x : ℚ}
    (h : styledScore as bs = some x) : x ∈ shares := by
  unfold styledScore at h
  dsimp only at h
  split at h
  · cases h
  · split at h <;> cases h
    · exact zero_mem_shares
    · refine sum_mem_shares (fun x hx => ?_) le_rfl
      obtain ⟨a, -, hx⟩ := List.mem_flatMap.mp hx
      obtain ⟨b, -, rfl⟩ := List.mem_map.mp hx
      exact ofStrings_mem_shares _ _

-- What would be scored for several components of one base makes no difference here.
theorem Styles.score_self (w : StyleWeights ℚ) (s : Styles) : score w s s = 1 :=
  (if_pos rfl).trans Scalar.exact_one

end Styles

end Likeness.Components
