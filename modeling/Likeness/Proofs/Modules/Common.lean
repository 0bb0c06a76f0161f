import Likeness.Modules.Module
import Likeness.Proofs.Number.Double
import Mathlib.Tactic.ByContra

namespace Likeness

open Duplicates Number

namespace Module

-- Whether some function is in both modules.
def Share (a b : Module) : Prop := ∃ body ∈ a.bodies, body ∈ b.bodies

theorem similarity_of_not_share {a b : Module} (h : ¬Share a b) :
    (similarity a b : Float) = Scalar.zero := by
  have hnone : a.bodies.filter b.bodies.contains = [] := by
    rw [List.filter_eq_nil_iff]
    intro body ha hb
    exact h ⟨body, ha, by simpa using hb⟩
  unfold similarity
  dsimp only
  split
  · rfl
  · rename_i hcompared
    rw [hnone]
    refine zero_div_ofNat _ (Nat.pos_of_ne_zero fun hzero => hcompared ?_)
    simp [hzero]

theorem similarity_of_unparsed {a b : Module} (h : a.parsed = false ∨ b.parsed = false) :
    (similarity a b : Float) = Scalar.zero := by
  rcases h with h | h <;> simp [similarity, h]

theorem percent_zero : percent (Scalar.zero : Float) = Scalar.zero := by decide

end Module

namespace Modules

section Pairs

variable {α : Type} [Scalar α]

-- What is found for a pair that is flagged.
def pairFinding (pair : Module × Module) : Finding α :=
  let score := Module.similarity pair.1 pair.2
  ⟨.modules, pairKey pair.1.file.text pair.2.file.text, .module (Module.percent score), score,
    [⟨pair.1.file, .module, none⟩, ⟨pair.2.file, .module, none⟩]⟩

theorem finding?_eq_some_iff {cutoff : α} {pair : Module × Module} {f : Finding α} :
    finding? cutoff pair = some f ↔
      Scalar.lt (Module.percent (Module.similarity pair.1 pair.2)) cutoff = false ∧
        f = pairFinding pair := by
  have hunfold : finding? cutoff pair =
      if Scalar.lt (Module.percent (Module.similarity pair.1 pair.2)) cutoff then none
      else some (pairFinding pair) := rfl
  rw [hunfold, Option.ite_none_left_eq_some, Bool.not_eq_true, Option.some.injEq, eq_comm (a := f)]

-- All pairs are compared unless the memory is found exceeded, for which it has to be above a limit.
theorem compare_eq {modules : List Module} {cutoff : α} {guard : Scan.MemoryGuard}
    (h : (compare modules cutoff guard).2 = none) :
    compare modules cutoff guard = ((orderedPairs modules).filterMap (finding? cutoff), none) := by
  unfold compare at h ⊢
  cases hcheck : guard.check with
  | none => rfl
  | some exceeded =>
    by_cases hmany : checkInterval ≤ (orderedPairs modules).length
    · simp [hcheck, hmany] at h
    · simp [hmany]

-- The memory is looked at only when enough pairs were compared.
theorem compare_completes {modules : List Module} {guard : Scan.MemoryGuard}
    (h : guard.check = none ∨ (orderedPairs modules).length < checkInterval) (cutoff : α) :
    (compare modules cutoff guard).2 = none := by
  unfold compare
  rcases h with hcheck | hfew
  · rw [hcheck]
  · cases guard.check with
    | none => rfl
    | some exceeded => simp [Nat.not_le.mpr hfew]

end Pairs

variable {cutoff : Float} {a b : Module}

-- A cutoff that is positive leaves out all pairs that score 0.
theorem finding?_of_zero (hcutoff : Scalar.lt Scalar.zero cutoff = true)
    (hscore : (Module.similarity a b : Float) = Scalar.zero) : finding? cutoff (a, b) = none := by
  simp [finding?, hscore, Module.percent_zero, hcutoff]

-- What is found comes from two files that are understood and share a function.
theorem share_of_finding? (hcutoff : Scalar.lt Scalar.zero cutoff = true) {f : Finding Float}
    (h : finding? cutoff (a, b) = some f) :
    a.parsed = true ∧ b.parsed = true ∧ a.Share b := by
  have hscore : (Module.similarity a b : Float) ≠ Scalar.zero := by
    intro hzero
    rw [finding?_of_zero hcutoff hzero] at h
    cases h
  have hparsed : ¬(a.parsed = false ∨ b.parsed = false) :=
    mt Module.similarity_of_unparsed hscore
  rw [not_or, Bool.not_eq_false, Bool.not_eq_false] at hparsed
  refine ⟨hparsed.1, hparsed.2, ?_⟩
  by_contra hnot
  exact hscore (Module.similarity_of_not_share hnot)

end Modules

end Likeness
