import Likeness.Proofs.Scan.Compared

namespace Likeness

open Duplicates Files Number

namespace Settings

def Toggles.every : Toggles := ⟨true, true, true, true⟩

theorem Toggles.has_every (category : Category) : every.has category = true := by
  cases category <;> rfl

-- The same settings for other categories.
def Config.lookingFor {α : Type} (c : Config α) (t : Toggles) : Config α :=
  { c with categories := t }

end Settings

namespace Scan

open Settings

section Parts

variable {α : Type} [Scalar α]

-- What there is to be found of a category has nothing to do with what is looked for.
theorem Project.found_lookingFor (c : Config α) (t : Toggles) (p : Project) (category : Category) :
    p.found (c.lookingFor t) category = p.found c category := by
  cases category <;> rfl

-- Whether a report is the part of another one that belongs to some categories.
def IsPart (t : Toggles) (whole part : Duplicates.Report α) : Prop :=
  ∀ category, part.groups category = if t.has category then whole.groups category else []

theorem Project.isPart (c : Config α) (t : Toggles) (p : Project) :
    IsPart t
      (((p.used .every).material (c.lookingFor .every)).allFindings (c.lookingFor .every)).report
      (((p.used t).material (c.lookingFor t)).allFindings (c.lookingFor t)).report := by
  intro category
  have hevery := p.groups_report (c.lookingFor .every) category
  have hsome := p.groups_report (c.lookingFor t) category
  rw [show (c.lookingFor .every).categories = .every from rfl, found_lookingFor,
    if_pos (Toggles.has_every category)] at hevery
  rw [show (c.lookingFor t).categories = t from rfl, found_lookingFor] at hsome
  rw [hevery, hsome]

end Parts

-- Whether two runs come to reports of which one is a part of the other.
def Run.ShowsPart (t : Toggles) (whole part : Run Float) : Prop :=
  ∃ all summary report summary', whole.result = .ok (all, summary) ∧
    part.result = .ok (report, summary') ∧ IsPart t all report

theorem Project.showsPart_compared {guard : MemoryGuard} (hguard : guard.check = none)
    (c : Config Float) (t : Toggles) (root : String) (d : Discovery) (p : Project) :
    Run.ShowsPart t (p.compared (c.lookingFor .every) guard root d)
      (p.compared (c.lookingFor t) guard root d) :=
  ⟨_, _, _, _, Run.result_compare_of_check hguard root d _,
    Run.result_compare_of_check hguard root d _, p.isPart c t⟩

-- Each category that is looked for shows the same groups in the same order as where all are looked
-- for, and the others show none. So it is for any files and for any directory on a disk, where both
-- scans may also be refused for the same cause.
theorem showsPart (guard : MemoryGuard) (hguard : guard.check = none) (c : Config Float)
    (t : Toggles) (root : String) :
    (∀ d p, Run.ShowsPart t (Project.compared (c.lookingFor .every) guard root d p)
      (Project.compared (c.lookingFor t) guard root d p)) ∧
    ∀ disk, (∃ fatal, (scan disk (c.lookingFor .every) guard root).result = .error fatal ∧
        (scan disk (c.lookingFor t) guard root).result = .error fatal) ∨
      Run.ShowsPart t (scan disk (c.lookingFor .every) guard root)
        (scan disk (c.lookingFor t) guard root) := by
  refine ⟨fun d p => p.showsPart_compared hguard c t root d, fun disk => ?_⟩
  have hevery := result_scan_of_check hguard disk (c.lookingFor .every) root
  have hsome := result_scan_of_check hguard disk (c.lookingFor t) root
  rw [show refusal? disk (c.lookingFor .every) root = refusal? disk c root from rfl] at hevery
  rw [show refusal? disk (c.lookingFor t) root = refusal? disk c root from rfl] at hsome
  cases hrefusal : refusal? disk c root with
  | some fatal =>
    rw [hrefusal] at hevery hsome
    exact .inl ⟨fatal, hevery, hsome⟩
  | none =>
    rw [hrefusal] at hevery hsome
    unfold Run.ShowsPart
    rw [hevery, hsome]
    exact .inr (Project.showsPart_compared hguard c t root _ _)

theorem showsPart_functions :
    let p : Project :=
      ⟨Project.sourceOf "a.ts" "var f=x=>x" ++ Project.sourceOf "b.ts" "var f=x=>x", []⟩
    let guard : MemoryGuard := ⟨none, some 4096⟩
    let t : Toggles := ⟨true, false, false, false⟩
    let d : Discovery := ⟨1, ["a.ts", "b.ts"], [], []⟩
    guard.check = none ∧ p.code.length = 2 ∧
      Run.ShowsPart t (p.compared ((Config.standard : Config Float).lookingFor .every) guard "." d)
        (p.compared ((Config.standard : Config Float).lookingFor t) guard "." d) := by
  intro p guard t d
  exact ⟨rfl, by decide +kernel, (showsPart guard rfl .standard t ".").1 d p⟩

end Scan

end Likeness
