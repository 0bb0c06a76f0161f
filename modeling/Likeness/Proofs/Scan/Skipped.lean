import Likeness.Proofs.Pairs
import Likeness.Proofs.Scan.Compared
import Likeness.Proofs.Settings.Range

namespace Likeness.Scan

open Duplicates Number Settings

namespace Outcome

variable {β : Type} (before after : List (Outcome β)) (s : Skipped)

theorem kept_insert : kept (before ++ .error s :: after) = kept (before ++ after) := by
  rw [kept, kept, List.filterMap_append, List.filterMap_append, List.filterMap_cons_none rfl]

theorem skipped_insert :
    skipped (before ++ .error s :: after) = skipped before ++ [s] ++ skipped after := by
  simp [skipped, skipped?]

theorem skipped_append : skipped (before ++ after) = skipped before ++ skipped after :=
  List.filterMap_append ..

end Outcome

namespace Material

variable {c : Config Float} (before after : List (Outcome CodeFile)) (s : Skipped)
  (documents : List (Outcome Resources.Document))

theorem functions_insert : functions ⟨before ++ .error s :: after, documents⟩ =
    functions ⟨before ++ after, documents⟩ := by
  rw [functions, functions, Outcome.kept_insert]

theorem components_insert : components ⟨before ++ .error s :: after, documents⟩ =
    components ⟨before ++ after, documents⟩ := by
  rw [components, components, Outcome.kept_insert]

-- A file that is not understood is a module that no other one is compared with to any effect.
theorem filterMap_modules_insert (hc : c.InRange) :
    (orderedPairs (modules ⟨before ++ .error s :: after, documents⟩)).filterMap
        (Modules.finding? c.moduleCutoffPercent) =
      (orderedPairs (modules ⟨before ++ after, documents⟩)).filterMap
        (Modules.finding? c.moduleCutoffPercent) := by
  simp only [modules, List.map_append, List.map_cons]
  refine filterMap_orderedPairs_insert _ _ _ _ (fun a _ => ?_) fun b _ => ?_
  · exact Modules.finding?_of_zero hc.cutoff_pos (Module.similarity_of_unparsed (.inr rfl))
  · exact Modules.finding?_of_zero hc.cutoff_pos (Module.similarity_of_unparsed (.inl rfl))

theorem allFindings_insert (hc : c.InRange) :
    allFindings c ⟨before ++ .error s :: after, documents⟩ =
      allFindings c ⟨before ++ after, documents⟩ := by
  simp only [allFindings, functionFindings, componentFindings, documentFindings, valueFindings,
    functions_insert, components_insert, filterMap_modules_insert before after s documents hc]

theorem allFindings_insert_document {α : Type} [Scalar α] (c : Config α)
    (code : List (Outcome CodeFile)) (before after : List (Outcome Resources.Document))
    (s : Skipped) :
    allFindings c ⟨code, before ++ .error s :: after⟩ = allFindings c ⟨code, before ++ after⟩ := by
  simp only [allFindings, documentFindings, valueFindings, Outcome.kept_insert]
  rfl

end Material

-- What is counted of files that are understood.
def Summary.counts (s : Summary) : List Nat :=
  [s.functions, s.components, s.similarModules, s.similarDocuments, s.similarValues,
    s.similarComponents]

-- Whether a run comes to the same as another one but for some warnings in one place.
def Run.SameBut (added : List Skipped) (run next : Run Float) : Prop :=
  ∃ report summary summary' before after,
    run.result = .ok (report, summary) ∧ next.result = .ok (report, summary') ∧
    summary'.counts = summary.counts ∧ summary.warnings = before ++ after ∧
    summary'.warnings = before ++ added ++ after

section Runs

variable {c : Config Float} {guard : MemoryGuard} {d d' : Discovery}

theorem Run.sameBut_compare (hguard : guard.check = none) (root : String)
    (hclosed : d'.closed = d.closed) {m m' : Material}
    (hfound : m'.allFindings c = m.allFindings c) (hfunctions : m'.functions = m.functions)
    (hcomponents : m'.components = m.components) (before added after : List Skipped)
    (hskipped : m.skipped = before ++ after) (hadded : m'.skipped = before ++ added ++ after) :
    SameBut added (compare c guard root d m) (compare c guard root d' m') := by
  refine ⟨(m.allFindings c).report, .of root d m (m.allFindings c),
    .of root d' m' (m.allFindings c), d.closed.map Closed.skipped ++ before, after,
    result_compare_of_check hguard root d m, ?_, ?_, ?_, ?_⟩
  · rw [result_compare_of_check hguard, hfound]
  · simp only [Summary.counts, Summary.of, hfunctions, hcomponents]
  · simp only [Summary.of, hskipped, List.append_assoc]
  · simp only [Summary.of, hclosed, hadded, List.append_assoc]

theorem Run.sameBut_insert_code (hc : c.InRange) (hguard : guard.check = none) (root : String)
    (hclosed : d'.closed = d.closed) (before after : List (Outcome CodeFile)) (s : Skipped)
    (documents : List (Outcome Resources.Document)) :
    SameBut [s] (compare c guard root d ⟨before ++ after, documents⟩)
      (compare c guard root d' ⟨before ++ .error s :: after, documents⟩) := by
  refine sameBut_compare hguard root hclosed (Material.allFindings_insert before after s _ hc)
    (Material.functions_insert ..) (Material.components_insert ..) (Outcome.skipped before) [s]
    (Outcome.skipped after ++ Outcome.skipped documents) ?_ ?_
  · simp only [Material.skipped, Outcome.skipped_append, List.append_assoc]
  · simp only [Material.skipped, Outcome.skipped_insert, List.append_assoc]

theorem Run.sameBut_insert_document (hguard : guard.check = none) (root : String)
    (hclosed : d'.closed = d.closed) (code : List (Outcome CodeFile))
    (before after : List (Outcome Resources.Document)) (s : Skipped) :
    SameBut [s] (compare c guard root d ⟨code, before ++ after⟩)
      (compare c guard root d' ⟨code, before ++ .error s :: after⟩) := by
  refine sameBut_compare hguard root hclosed (Material.allFindings_insert_document ..) rfl rfl
    (Outcome.skipped code ++ Outcome.skipped before) [s] (Outcome.skipped after) ?_ ?_
  · simp only [Material.skipped, Outcome.skipped_append, List.append_assoc]
  · simp only [Material.skipped, Outcome.skipped_insert, List.append_assoc]

theorem Run.sameBut_refl (hguard : guard.check = none) (root : String)
    (hclosed : d'.closed = d.closed) (m : Material) :
    SameBut [] (compare c guard root d m) (compare c guard root d' m) :=
  sameBut_compare hguard root hclosed rfl rfl rfl m.skipped [] [] (List.append_nil _).symm
    (by simp)

-- One more file that cannot be read or understood, wherever it stands, changes nothing that is
-- reported and nothing that is counted of the others. There is one more warning if the scan reads
-- such files at all.
theorem compared_insert_skipped (c : Config Float) (hc : c.fault? = none) (guard : MemoryGuard)
    (hguard : guard.check = none) (root : String) (d d' : Discovery)
    (hclosed : d'.closed = d.closed) (s : Skipped) :
    (∀ before after documents, Run.SameBut (if c.categories.needCode then [s] else [])
      (Project.compared c guard root d ⟨before ++ after, documents⟩)
      (Project.compared c guard root d' ⟨before ++ .error s :: after, documents⟩)) ∧
    ∀ code before after, Run.SameBut (if c.categories.resources then [s] else [])
      (Project.compared c guard root d ⟨code, before ++ after⟩)
      (Project.compared c guard root d' ⟨code, before ++ .error s :: after⟩) := by
  constructor
  · intro before after documents
    unfold Project.compared Project.used Project.material
    by_cases hon : c.categories.needCode = true
    · simp only [if_pos hon, List.map_append, List.map_cons]
      exact Run.sameBut_insert_code (Config.inRange_of_fault? hc) hguard root hclosed _ _ s _
    · simp only [if_neg hon]
      exact Run.sameBut_refl hguard root hclosed _
  · intro code before after
    unfold Project.compared Project.used Project.material
    by_cases hon : c.categories.resources = true
    · simp only [if_pos hon]
      exact Run.sameBut_insert_document hguard root hclosed _ before after s
    · simp only [if_neg hon]
      exact Run.sameBut_refl hguard root hclosed _

end Runs

theorem compared_insert_skipped_between :
    let before := Project.sourceOf "a.ts" "var f=x=>x"
    let after := Project.sourceOf "c.ts" "var g=y=>y"
    let broken := Skipped.malformedSource "b.ts" ⟨1, 10⟩
    let guard : MemoryGuard := ⟨none, some 4096⟩
    let walked : Discovery := ⟨1, ["a.ts", "c.ts"], [], []⟩
    let next : Discovery := ⟨1, ["a.ts", "b.ts", "c.ts"], [], []⟩
    (Config.standard : Config Float).fault? = none ∧ guard.check = none ∧
      next.closed = walked.closed ∧ before.length + after.length = 2 ∧
      Run.SameBut [broken] (Project.compared .standard guard "." walked ⟨before ++ after, []⟩)
        (Project.compared .standard guard "." next ⟨before ++ .error broken :: after, []⟩) := by
  intro before after broken guard walked next
  have hc : (Config.standard : Config Float).fault? = none := by decide +kernel
  exact ⟨hc, rfl, rfl, by decide +kernel,
    (compared_insert_skipped .standard hc guard rfl "." walked next rfl broken).1 before after []⟩

end Likeness.Scan
