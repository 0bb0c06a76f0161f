import Likeness.Settings.Check

namespace Likeness.Settings

open Number

variable {α : Type} [Scalar α]

theorem weightFault?_eq_none_iff (group : String) (weights : List (String × α)) :
    weightFault? group weights = none ↔ (∀ w ∈ weights, isWeight w.2 = true) ∧
      Scalar.le (Scalar.sum (weights.map (·.2))) Scalar.zero = false := by
  unfold weightFault?
  cases h : weights.find? (!isWeight ·.2) with
  | some w =>
    have hw : isWeight w.2 = false := by simpa using List.find?_some h
    have hmem := List.mem_of_find?_eq_some h
    simp only [reduceCtorEq, false_iff, not_and]
    exact fun hall => by simp [hall w hmem] at hw
  | none =>
    have hall : ∀ w ∈ weights, isWeight w.2 = true := by simpa using h
    simp only [ite_eq_right_iff, reduceCtorEq, imp_false, Bool.not_eq_true]
    exact ⟨fun htotal => ⟨hall, htotal⟩, fun hboth => hboth.2⟩

-- Settings that a scan can work with.
structure Config.InRange (c : Config α) : Prop where
  threads : c.ioThreads ≠ 0
  cutoff_pos : Scalar.lt Scalar.zero c.moduleCutoffPercent = true
  cutoff_le : Scalar.le c.moduleCutoffPercent (Scalar.ofNat 100) = true
  depth : c.resources.maxDepth ≠ 0
  shares : ∀ t ∈ thresholdsOf c, isShare t.2 = true
  weights : ∀ g ∈ weightsOf c, (∀ w ∈ g.2, isWeight w.2 = true) ∧
    Scalar.le (Scalar.sum (g.2.map (·.2))) Scalar.zero = false

theorem findSome?_weightFault?_eq_none_iff (groups : List (String × List (String × α))) :
    (groups.findSome? fun g => weightFault? g.1 g.2) = none ↔
      ∀ g ∈ groups, (∀ w ∈ g.2, isWeight w.2 = true) ∧
        Scalar.le (Scalar.sum (g.2.map (·.2))) Scalar.zero = false := by
  rw [List.findSome?_eq_none_iff]
  exact forall₂_congr fun g _ => weightFault?_eq_none_iff g.1 g.2

theorem Config.inRange_of_fault? {c : Config α} (h : c.fault? = none) : c.InRange := by
  unfold fault? at h
  dsimp only at h
  split at h
  · cases h
  rename_i hthreads
  split at h
  · cases h
  rename_i hcutoff
  split at h
  · cases h
  rename_i hdepth
  split at h
  · cases h
  rename_i hshares
  rw [Bool.not_eq_true, Bool.not_eq_false', Bool.and_eq_true] at hcutoff
  exact ⟨hthreads, hcutoff.1, hcutoff.2, hdepth, by simpa using hshares,
    (findSome?_weightFault?_eq_none_iff _).mp h⟩

theorem Config.fault?_eq_none_iff (c : Config α) : c.fault? = none ↔ c.InRange := by
  refine ⟨inRange_of_fault?, fun h => ?_⟩
  have hshares : (thresholdsOf c).find? (!isShare ·.2) = none := by simpa using h.shares
  have hcutoff : (!(Scalar.lt Scalar.zero c.moduleCutoffPercent &&
      Scalar.le c.moduleCutoffPercent (Scalar.ofNat 100))) = false := by
    rw [h.cutoff_pos, h.cutoff_le]
    rfl
  unfold fault?
  dsimp only
  rw [if_neg h.threads, if_neg (by rw [hcutoff]; exact Bool.false_ne_true), if_neg h.depth, hshares]
  exact (findSome?_weightFault?_eq_none_iff _).mpr h.weights

end Likeness.Settings
