import Likeness.Proofs.Modules.Flagged
import Likeness.Scan.Progress

namespace Likeness

open Duplicates Number

-- Of the members of a list each one makes a pair with all others, and each pair counts once.
theorem length_orderedPairs {β : Type} (bs : List β) :
    (orderedPairs bs).length = bs.length * (bs.length - 1) / 2 := by
  have hdouble : (orderedPairs bs).length * 2 = bs.length * (bs.length - 1) := by
    induction bs with
    | nil => rfl
    | cons b bs ih =>
      have hsquare : bs.length * bs.length = bs.length * (bs.length - 1) + bs.length := by
        cases bs with
        | nil => rfl
        | cons c bs => simp only [List.length_cons, Nat.add_sub_cancel, Nat.mul_succ]
      simp only [orderedPairs, List.length_append, List.length_map, List.length_cons,
        Nat.add_sub_cancel, Nat.add_mul]
      omega
  omega

namespace Scan.MemoryGuard

theorem check_eq_some_iff (guard : MemoryGuard) (e : Exceeded) :
    guard.check = some e ↔
      guard.limit = some e.limit ∧ guard.used = some e.used ∧ e.limit < e.used := by
  obtain ⟨limit, used⟩ := guard
  obtain ⟨used', limit'⟩ := e
  cases limit <;> cases used <;> simp [check]
  grind

end Scan.MemoryGuard

namespace Modules

-- How far a comparison of modules has come: how many pairs were compared and how many of them
-- flagged, what was recorded, and how it was shown that it goes on.
structure Sweep (α : Type) where
  compared : ℕ
  flagged : ℕ
  registry : Registry α
  progress : List Scan.Progress

namespace Sweep

variable {α : Type} [Scalar α]

section Steps

variable (cutoff : α) (guard : Scan.MemoryGuard)

-- Compares a pair. It is recorded if it is flagged.
def meet (s : Sweep α) (pair : Module × Module) : Sweep α :=
  match finding? cutoff pair with
  | none => { s with compared := s.compared + 1 }
  | some f =>
    { s with
      compared := s.compared + 1
      flagged := s.flagged + 1
      registry := (s.registry.record f).1 }

-- Compares a pair, after a look at the memory if the number of the pair is a multiple of the
-- interval. If the memory is exceeded, the comparison ends where it is.
def step (s : Sweep α) (pair : Module × Module) :
    Except (Sweep α × Scan.Exceeded) (Sweep α) :=
  match if (s.compared + 1) % checkInterval = 0 then guard.check else none with
  | some exceeded => .error (s, exceeded)
  | none => .ok (s.meet cutoff pair)

-- Compares a module with all after it.
def row (left : Module) (after : List Module) (s : Sweep α) :
    Except (Sweep α × Scan.Exceeded) (Sweep α) := do
  let s ← (after.map fun right => (left, right)).foldlM (step cutoff guard) s
  return { s with progress := s.progress ++ [.step s.compared left.file.text] }

def rows : List Module → Sweep α → Except (Sweep α × Scan.Exceeded) (Sweep α)
  | [], s => .ok s
  | left :: after, s => do rows after (← row cutoff guard left after s)

end Steps

-- Compares modules from the first pair on. The number of pairs is told in advance.
def run (cutoff : α) (guard : Scan.MemoryGuard) (registry : Registry α) (modules : List Module) :
    Except (Sweep α × Scan.Exceeded) (Sweep α) := do
  let total := modules.length * (modules.length - 1) / 2
  let s ← rows cutoff guard modules ⟨0, 0, registry, [.start .modules total]⟩
  return { s with progress := s.progress ++ [.finish .modules] }

section Looks

variable {cutoff : α} {guard : Scan.MemoryGuard} {e : Scan.Exceeded} {s : Sweep α}

theorem step_of_check (h : guard.check = none) (pair : Module × Module) :
    step cutoff guard s pair = .ok (s.meet cutoff pair) := by
  simp [step, h]

-- Before the pair whose number is the interval nobody looks at the memory.
theorem step_of_lt (h : s.compared + 1 < checkInterval) (pair : Module × Module) :
    step cutoff guard s pair = .ok (s.meet cutoff pair) := by
  have hnumber : ¬(s.compared + 1) % checkInterval = 0 := by
    rw [Nat.mod_eq_of_lt h]
    omega
  simp [step, hnumber]

theorem step_of_exceeded (hcheck : guard.check = some e) (h : s.compared + 1 = checkInterval)
    (pair : Module × Module) : step cutoff guard s pair = .error (s, e) := by
  simp [step, h, hcheck]

@[simp] theorem compared_meet (pair : Module × Module) :
    (s.meet cutoff pair).compared = s.compared + 1 := by
  unfold meet
  split <;> rfl

-- A comparison after more pairs, during which more was shown.
def after (cutoff : α) (s : Sweep α) (pairs : List (Module × Module))
    (shown : List Scan.Progress) : Sweep α :=
  ⟨s.compared + pairs.length, s.flagged + (pairs.filterMap (finding? cutoff)).length,
    s.registry.recordAll (pairs.filterMap (finding? cutoff)), s.progress ++ shown⟩

@[simp] theorem compared_after (pairs : List (Module × Module)) (shown : List Scan.Progress) :
    (s.after cutoff pairs shown).compared = s.compared + pairs.length := rfl

theorem after_nil : s.after cutoff [] [] = s := by
  simp [after, Registry.recordAll]

theorem after_after (pairs more : List (Module × Module)) (shown also : List Scan.Progress) :
    (s.after cutoff pairs shown).after cutoff more also =
      s.after cutoff (pairs ++ more) (shown ++ also) := by
  simp only [after, List.length_append, List.filterMap_append, Registry.recordAll_append,
    List.append_assoc, Nat.add_assoc]

theorem meet_eq_after (pair : Module × Module) : s.meet cutoff pair = s.after cutoff [pair] [] := by
  cases hfound : finding? cutoff pair <;> simp [meet, after, hfound, Registry.recordAll]

theorem foldl_meet (pairs : List (Module × Module)) (s : Sweep α) :
    pairs.foldl (meet cutoff) s = s.after cutoff pairs [] := by
  induction pairs generalizing s with
  | nil => exact after_nil.symm
  | cons pair pairs ih => rw [List.foldl_cons, ih, meet_eq_after, after_after]; rfl

end Looks

section Runs

variable (cutoff : α) {guard : Scan.MemoryGuard} {e : Scan.Exceeded}

-- If nobody finds the memory exceeded, all pairs of a list are compared.
theorem foldlM_step_completes (pairs : List (Module × Module)) (s : Sweep α)
    (h : guard.check = none ∨ s.compared + pairs.length < checkInterval) :
    pairs.foldlM (step cutoff guard) s = .ok (s.after cutoff pairs []) := by
  rw [← foldl_meet]
  induction pairs generalizing s with
  | nil => rfl
  | cons pair pairs ih =>
    rw [List.length_cons] at h
    have hstep : step cutoff guard s pair = .ok (s.meet cutoff pair) := by
      rcases h with hcheck | hfew
      · exact step_of_check hcheck pair
      · exact step_of_lt (by omega) pair
    rw [List.foldlM_cons, hstep, List.foldl_cons]
    refine ih _ (h.imp id fun hfew => ?_)
    rw [compared_meet]
    omega

-- If the memory is exceeded, they are compared up to the first look at it and no further.
theorem foldlM_step_of_exceeded (hcheck : guard.check = some e) (pairs : List (Module × Module))
    (s : Sweep α) (hbefore : s.compared < checkInterval)
    (hmany : checkInterval ≤ s.compared + pairs.length) :
    pairs.foldlM (step cutoff guard) s =
      .error (s.after cutoff (pairs.take (checkInterval - 1 - s.compared)) [], e) := by
  rw [← foldl_meet]
  induction pairs generalizing s with
  | nil =>
    rw [List.length_nil] at hmany
    omega
  | cons pair pairs ih =>
    rw [List.length_cons] at hmany
    rw [List.foldlM_cons]
    by_cases hnext : s.compared + 1 = checkInterval
    · have hnone : checkInterval - 1 - s.compared = 0 := by omega
      rw [step_of_exceeded hcheck hnext, hnone]
      rfl
    · have hsome : checkInterval - 1 - s.compared =
          checkInterval - 1 - (s.meet cutoff pair).compared + 1 := by
        rw [compared_meet]
        omega
      rw [step_of_lt (by omega), hsome, List.take_succ_cons, List.foldl_cons]
      refine ih _ ?_ ?_ <;> rw [compared_meet] <;> omega

theorem row_completes (left : Module) (others : List Module) (s : Sweep α)
    (h : guard.check = none ∨ s.compared + others.length < checkInterval) :
    row cutoff guard left others s =
      .ok (s.after cutoff (others.map fun right => (left, right))
        [.step (s.compared + others.length) left.file.text]) := by
  have hpairs := foldlM_step_completes cutoff (others.map fun right => (left, right)) s
    (by rwa [List.length_map] : guard.check = none ∨ _)
  rw [row, hpairs]
  simp [after, pure, Except.pure, bind, Except.bind]

-- So it is for all pairs of a list of modules, of which each one shows how many pairs there were.
theorem rows_completes (modules : List Module) (s : Sweep α)
    (h : guard.check = none ∨ s.compared + (orderedPairs modules).length < checkInterval) :
    rows cutoff guard modules s =
      .ok (s.after cutoff (orderedPairs modules)
        (Scan.Progress.pairSteps s.compared (modules.map (·.file.text)))) := by
  induction modules generalizing s with
  | nil => exact congrArg Except.ok after_nil.symm
  | cons left others ih =>
    simp only [orderedPairs, List.length_append, List.length_map] at h
    rw [rows, row_completes cutoff left others s (h.imp id fun hfew => by omega)]
    refine (ih _ (h.imp id fun hfew => ?_)).trans ?_
    · rw [compared_after, List.length_map]
      omega
    · rw [compared_after, after_after, List.length_map, List.map_cons, Scan.Progress.pairSteps,
        List.length_map]
      rfl

theorem rows_of_exceeded (hcheck : guard.check = some e) (modules : List Module) (s : Sweep α)
    (hbefore : s.compared < checkInterval)
    (hmany : checkInterval ≤ s.compared + (orderedPairs modules).length) :
    ∃ shown, rows cutoff guard modules s =
      .error (s.after cutoff ((orderedPairs modules).take (checkInterval - 1 - s.compared)) shown,
        e) := by
  induction modules generalizing s with
  | nil =>
    rw [orderedPairs, List.length_nil] at hmany
    omega
  | cons left others ih =>
    simp only [orderedPairs, List.length_append, List.length_map] at hmany
    have hlength : (others.map fun right => (left, right)).length = others.length :=
      List.length_map _
    -- the first look at the memory is before a pair of this module or before a later one
    by_cases hhere : checkInterval ≤ s.compared + others.length
    · have htake : (orderedPairs (left :: others)).take (checkInterval - 1 - s.compared) =
          (others.map fun right => (left, right)).take (checkInterval - 1 - s.compared) :=
        List.take_append_of_le_length (by omega)
      refine ⟨[], ?_⟩
      rw [rows, row, foldlM_step_of_exceeded cutoff hcheck _ s hbefore (by omega), htake]
      rfl
    · have htake : (orderedPairs (left :: others)).take (checkInterval - 1 - s.compared) =
          (others.map fun right => (left, right)) ++
            (orderedPairs others).take (checkInterval - 1 - (s.compared + others.length)) := by
        rw [orderedPairs, List.take_append, List.take_of_length_le (by omega), hlength]
        congr 2
        omega
      obtain ⟨shown, hrest⟩ := ih (s.after cutoff (others.map fun right => (left, right))
        [.step (s.compared + others.length) left.file.text])
        (by rw [compared_after]; omega) (by rw [compared_after]; omega)
      rw [compared_after, hlength, after_after, ← htake] at hrest
      rw [rows, row_completes cutoff left others s (.inr (by omega))]
      exact ⟨_, hrest⟩

theorem run_completes (registry : Registry α) (modules : List Module)
    (h : guard.check = none ∨ (orderedPairs modules).length < checkInterval) :
    run cutoff guard registry modules =
      .ok ⟨(orderedPairs modules).length,
        ((orderedPairs modules).filterMap (finding? cutoff)).length,
        registry.recordAll ((orderedPairs modules).filterMap (finding? cutoff)),
        Scan.Progress.phase .modules (orderedPairs modules).length
          (Scan.Progress.pairSteps 0 (modules.map (·.file.text)))⟩ := by
  rw [run, ← length_orderedPairs, rows_completes cutoff modules _ (by rwa [Nat.zero_add])]
  simp [after, pure, Except.pure, bind, Except.bind, Scan.Progress.phase]

theorem run_of_exceeded (hcheck : guard.check = some e) (registry : Registry α)
    (modules : List Module) (hmany : checkInterval ≤ (orderedPairs modules).length) :
    ∃ progress, run cutoff guard registry modules =
      .error (⟨checkInterval - 1,
        (((orderedPairs modules).take (checkInterval - 1)).filterMap (finding? cutoff)).length,
        registry.recordAll
          (((orderedPairs modules).take (checkInterval - 1)).filterMap (finding? cutoff)),
        progress⟩, e) := by
  rw [run, ← length_orderedPairs]
  obtain ⟨shown, hrows⟩ := rows_of_exceeded cutoff hcheck modules
    ⟨0, 0, registry, [.start .modules (orderedPairs modules).length]⟩ (Nat.zero_lt_succ 999)
    (by rwa [Nat.zero_add])
  have hlength : ((orderedPairs modules).take (checkInterval - 1)).length = checkInterval - 1 :=
    List.length_take_of_le (by omega)
  simp only [after, Nat.sub_zero, hlength, Nat.zero_add] at hrows
  rw [hrows]
  exact ⟨_, rfl⟩

-- A comparison either compares all pairs or comes to a look that finds the memory exceeded.
theorem completes_or_exceeded (guard : Scan.MemoryGuard) (n : ℕ) :
    (guard.check = none ∨ n < checkInterval) ∨ ∃ e, guard.check = some e ∧ checkInterval ≤ n := by
  cases guard.check with
  | none => exact .inl (.inl rfl)
  | some e =>
    rcases Nat.lt_or_ge n checkInterval with hfew | hmany
    · exact .inl (.inr hfew)
    · exact .inr ⟨e, rfl, hmany⟩

theorem run_eq_error_iff (registry : Registry α) (modules : List Module) :
    (∃ s, run cutoff guard registry modules = .error (s, e)) ↔
      guard.check = some e ∧ checkInterval ≤ (orderedPairs modules).length := by
  constructor
  · rintro ⟨s, h⟩
    rcases completes_or_exceeded guard (orderedPairs modules).length with
      hcompletes | ⟨e', hcheck, hmany⟩
    · rw [run_completes cutoff registry modules hcompletes] at h
      cases h
    · obtain ⟨progress, hrun⟩ := run_of_exceeded cutoff hcheck registry modules hmany
      rw [hrun] at h
      cases h
      exact ⟨hcheck, hmany⟩
  · rintro ⟨hcheck, hmany⟩
    obtain ⟨progress, hrun⟩ := run_of_exceeded cutoff hcheck registry modules hmany
    exact ⟨_, hrun⟩

theorem completes_of_run_eq_ok {registry : Registry α} {modules : List Module} {s : Sweep α}
    (h : run cutoff guard registry modules = .ok s) :
    guard.check = none ∨ (orderedPairs modules).length < checkInterval := by
  refine (completes_or_exceeded guard _).resolve_right ?_
  rintro ⟨e, hcheck, hmany⟩
  obtain ⟨progress, hrun⟩ := run_of_exceeded cutoff hcheck registry modules hmany
  rw [hrun] at h
  cases h

end Runs

end Sweep

section Cut

variable {α : Type} [Scalar α]

-- What is found for those pairs of places whose modules reach the cutoff.
def foundAmong (cutoff : α) (modules : List Module)
    (pairs : List (Fin modules.length × Fin modules.length)) : List (Finding α) :=
  (pairs.filter fun pair => !Scalar.lt
    (Module.percent (Module.similarity (modules.get pair.1) (modules.get pair.2))) cutoff).map
      fun pair => pairFinding (modules.get pair.1, modules.get pair.2)

theorem filterMap_take_eq_foundAmong (cutoff : α) (modules : List Module) (n : ℕ) :
    ((orderedPairs modules).take n).filterMap (finding? cutoff) =
      foundAmong cutoff modules ((ascendingPairs modules.length).take n) := by
  rw [orderedPairs_eq_map_ascendingPairs, ← List.map_take, List.filterMap_map, foundAmong]
  exact filterMap_eq_map_filter _ _ _

theorem filterMap_eq_foundAmong (cutoff : α) (modules : List Module) :
    (orderedPairs modules).filterMap (finding? cutoff) =
      foundAmong cutoff modules (ascendingPairs modules.length) :=
  filterMap_finding?_eq cutoff modules

theorem length_ascendingPairs (n : ℕ) : (ascendingPairs n).length = n * (n - 1) / 2 := by
  rw [ascendingPairs, length_orderedPairs, List.length_finRange]

theorem compare_of_exceeded {guard : Scan.MemoryGuard} {e : Scan.Exceeded}
    (hcheck : guard.check = some e) (modules : List Module) (cutoff : α)
    (hmany : checkInterval ≤ (orderedPairs modules).length) :
    compare modules cutoff guard =
      (foundAmong cutoff modules ((ascendingPairs modules.length).take (checkInterval - 1)),
        some e) := by
  unfold compare
  simp only [hcheck, if_pos hmany, filterMap_take_eq_foundAmong]

theorem compare_of_completes {guard : Scan.MemoryGuard} (modules : List Module) (cutoff : α)
    (h : guard.check = none ∨ (orderedPairs modules).length < checkInterval) :
    compare modules cutoff guard =
      (foundAmong cutoff modules (ascendingPairs modules.length), none) := by
  rw [compare_eq (compare_completes h cutoff), filterMap_eq_foundAmong]

-- Modules are compared pair by pair in the order of their places. The comparison fails if and only
-- if the memory is above its limit and there are at least 1000 pairs. Then what is flagged among
-- the first 999 pairs was recorded and nothing else; otherwise it is as without a limit, and as many
-- pairs are compared as were told in advance.
theorem run_cut (modules : List Module) (cutoff : α) (guard : Scan.MemoryGuard)
    (registry : Registry α) :
    let total := modules.length * (modules.length - 1) / 2
    let swept := Sweep.run cutoff guard registry modules
    ∃ pairs : List (Fin modules.length × Fin modules.length),
      pairs.Pairwise (fun p q => p.1 < q.1 ∨ p.1 = q.1 ∧ p.2 < q.2) ∧
      (∀ i j, (i, j) ∈ pairs ↔ i < j) ∧ pairs.length = total ∧
      (∀ e, (∃ s, swept = .error (s, e)) ↔ (guard.limit = some e.limit ∧ guard.used = some e.used ∧
        e.limit < e.used) ∧ 1000 ≤ total) ∧
      (∀ s e, swept = .error (s, e) →
        let found := foundAmong cutoff modules (pairs.take 999)
        compare modules cutoff guard = (found, some e) ∧ s.registry = registry.recordAll found ∧
          s.flagged = found.length ∧ s.compared = 999) ∧
      ∀ s, swept = .ok s →
        let found := foundAmong cutoff modules pairs
        compare modules cutoff guard = (found, none) ∧ s.registry = registry.recordAll found ∧
          s.flagged = found.length ∧ s.compared = total ∧
          s.progress = Scan.Progress.phase .modules total
            (Scan.Progress.pairSteps 0 (modules.map (·.file.text))) ∧
          Sweep.run cutoff ⟨none, guard.used⟩ registry modules = .ok s := by
  intro total swept
  have htotal : (orderedPairs modules).length = total := length_orderedPairs modules
  refine ⟨ascendingPairs modules.length, pairwise_ascendingPairs _, mem_ascendingPairs_iff,
    length_ascendingPairs _, fun e => ?_, fun s e h => ?_, fun s h => ?_⟩
  · rw [Sweep.run_eq_error_iff, Scan.MemoryGuard.check_eq_some_iff, htotal]
    rfl
  · obtain ⟨hcheck, hmany⟩ := (Sweep.run_eq_error_iff cutoff registry modules).mp ⟨s, h⟩
    obtain ⟨progress, hrun⟩ := Sweep.run_of_exceeded cutoff hcheck registry modules hmany
    rw [filterMap_take_eq_foundAmong] at hrun
    obtain ⟨rfl, -⟩ := Prod.mk.inj (Except.error.inj (h.symm.trans hrun))
    exact ⟨compare_of_exceeded hcheck modules cutoff hmany, rfl, rfl, rfl⟩
  · have hcompletes := Sweep.completes_of_run_eq_ok cutoff h
    have hrun := Sweep.run_completes cutoff registry modules hcompletes
    -- a guard without a limit lets all pairs be compared
    have hunlimited : Scan.MemoryGuard.check ⟨none, guard.used⟩ = none := rfl
    have hfree := Sweep.run_completes cutoff registry modules (.inl hunlimited)
    rw [filterMap_eq_foundAmong, htotal] at hrun hfree
    obtain rfl := Except.ok.inj (h.symm.trans hrun)
    exact ⟨compare_of_completes modules cutoff hcompletes, rfl, rfl, rfl, rfl, hfree⟩

-- 46 modules make 1035 pairs.
theorem run_cut_forty_six :
    let modules : List Module := (List.range 46).map fun i => ⟨s!"{i}.js", ["x"], true⟩
    let guard : Scan.MemoryGuard := ⟨some 1, some 4096⟩
    ∃ s, Sweep.run (66.7 : Float) guard .empty modules = .error (s, ⟨4096, 1⟩) ∧
      s.compared = 999 := by
  intro modules guard
  obtain ⟨_, -, -, -, herror, hcut, -⟩ := run_cut modules (66.7 : Float) guard .empty
  obtain ⟨s, hs⟩ := (herror ⟨4096, 1⟩).mpr ⟨⟨rfl, rfl, by decide⟩, by decide⟩
  exact ⟨s, hs, (hcut s _ hs).2.2.2⟩

end Cut

end Modules

end Likeness
