import Likeness.Proofs.Components.Shown
import Likeness.Proofs.Functions.Groups
import Likeness.Proofs.Modules.Common
import Likeness.Proofs.Resources.Shown
import Likeness.Scan.Run

namespace Likeness

open Duplicates Files Number Settings

-- Whether a category is looked for.
def Settings.Toggles.has (t : Toggles) : Category → Bool
  | .functions => t.functions
  | .modules => t.modules
  | .resources => t.resources
  | .components => t.components

namespace Scan

theorem Outcome.kept_map {β γ : Type} (f : β → γ) (outcomes : List (Outcome β)) :
    kept (outcomes.map (·.map f)) = (kept outcomes).map f := by
  rw [kept, kept, List.filterMap_map, List.map_filterMap]
  congr 1
  funext outcome
  cases outcome <;> rfl

namespace Project

-- The files of a project that are read under some settings.
def used (use : Toggles) (p : Project) : Project :=
  ⟨if use.needCode then p.code else [], if use.resources then p.documents else []⟩

-- All files that a walk found below a root.
def readAll (d : Disk) (root : String) (found : Discovery) : Project :=
  ⟨found.code.map fun path => readSource d path (Walk.below root path),
    found.resources.map fun path => readDocument d path (Walk.below root path)⟩

theorem used_code {use : Toggles} (h : use.needCode = true) (p : Project) :
    (p.used use).code = p.code := if_pos h

theorem used_documents {use : Toggles} (h : use.resources = true) (p : Project) :
    (p.used use).documents = p.documents := if_pos h

-- The functions of a project that have a shape.
def functions (least : Nat) (p : Project) : List ShapedFunction :=
  (Outcome.kept p.code).flatMap fun f => ShapedFunction.all f.source f.file least

def moduleOf (least : Nat) : Outcome SourceFile → Module
  | .ok f => .ofFunctions f.file (ShapedFunction.all f.source f.file least)
  | .error s => .unparsed s.path

def components (p : Project) : List Component :=
  (Outcome.kept p.code).flatMap fun f => Component.all f.source f.file

section Material

variable {α : Type} (c : Config α) (p : Project)

theorem functions_material : (p.material c).functions = p.functions c.minFunctionLines := by
  rw [Material.functions, material, Outcome.kept_map, List.flatMap_map]
  rfl

theorem modules_material :
    (p.material c).modules = p.code.map (moduleOf c.minFunctionLines) := by
  rw [Material.modules, material, List.map_map]
  refine List.map_congr_left fun outcome _ => ?_
  cases outcome <;> rfl

theorem components_material (hon : c.categories.components = true) :
    (p.material c).components = p.components := by
  rw [Material.components, material, Outcome.kept_map, List.flatMap_map]
  simp only [SourceFile.describe, if_pos hon]
  rfl

end Material

-- What a scan makes of the files of a project.
def compared (c : Config Float) (guard : MemoryGuard) (root : String) (d : Discovery)
    (p : Project) : Run Float :=
  Run.compare c guard root d ((p.used c.categories).material c)

-- What is read of a file with some text, which is nothing if it is not understood.
def sourceOf (file text : String) : List (Outcome SourceFile) :=
  ((Syntax.Source.parse? .tsx text).map fun source => .ok ⟨file, source⟩).toList

end Project

section Findings

variable {α : Type}

namespace Findings

def ofCategory (f : Findings α) : Category → List (Finding α)
  | .functions => f.functions
  | .modules => f.modules
  | .resources => f.documents ++ f.values
  | .components => f.components

-- Whatever is compared finds duplicates of its own category.
structure Sorted (f : Findings α) : Prop where
  functions : ∀ found ∈ f.functions, found.category = .functions
  modules : ∀ found ∈ f.modules, found.category = .modules
  documents : ∀ found ∈ f.documents, found.category = .resources
  values : ∀ found ∈ f.values, found.category = .resources
  components : ∀ found ∈ f.components, found.category = .components

theorem filter_category {log : List (Finding α)} {own : Category}
    (h : ∀ found ∈ log, found.category = own) (category : Category) :
    Duplicates.ofCategory category log = if own = category then log else [] := by
  unfold Duplicates.ofCategory
  split
  · subst category
    exact List.filter_eq_self.mpr fun found hfound => by simp [h found hfound]
  · rename_i hne
    exact List.filter_eq_nil_iff.mpr fun found hfound => by simpa [h found hfound] using hne

theorem Sorted.ofCategory_all {f : Findings α} (h : f.Sorted) (category : Category) :
    Duplicates.ofCategory category f.all = f.ofCategory category := by
  have happend (log more : List (Finding α)) : Duplicates.ofCategory category (log ++ more) =
      Duplicates.ofCategory category log ++ Duplicates.ofCategory category more :=
    List.filter_append ..
  rw [all, happend, happend, happend, happend, filter_category h.functions,
    filter_category h.modules, filter_category h.documents, filter_category h.values,
    filter_category h.components]
  cases category <;> simp [ofCategory]

variable [Scalar α]

-- A category shows what is found of it and nothing else.
theorem Sorted.groups_report {f : Findings α} (h : f.Sorted) (category : Category) :
    f.report.groups category =
      (Registry.empty.recordAll (f.ofCategory category)).view category := by
  have hview : f.report.groups category = (Registry.empty.recordAll f.all).view category := by
    cases category <;> rfl
  rw [hview, ← Registry.view_ofCategory, h.ofCategory_all]

end Findings

namespace Material

variable [Scalar α]

-- All that is found where the memory is not exceeded.
def allFindings (c : Config α) (m : Material) : Findings α :=
  ⟨m.functionFindings c,
    if c.categories.modules then
      (orderedPairs m.modules).filterMap (Modules.finding? c.moduleCutoffPercent)
    else [],
    m.documentFindings c, m.valueFindings c, m.componentFindings c⟩

theorem sorted_allFindings (c : Config α) (m : Material) : (m.allFindings c).Sorted := by
  refine ⟨?_, ?_, ?_, ?_, ?_⟩ <;> dsimp only [allFindings]
  · unfold functionFindings
    split
    · exact FunctionIndex.category_of_mem_findings _ _
    · simp
  · split
    · intro found hfound
      obtain ⟨pair, -, hpair⟩ := List.mem_filterMap.mp hfound
      obtain ⟨-, rfl⟩ := Modules.finding?_eq_some_iff.mp hpair
      rfl
    · simp
  · unfold documentFindings
    split
    · exact Resources.category_of_mem_documentFindings _ _
    · simp
  · unfold valueFindings
    split
    · exact Resources.category_of_mem_valueFindings _ _
    · simp
  · unfold componentFindings
    split
    · exact Components.category_of_mem_findings
    · simp

-- Whatever does not stop for the memory finds all.
theorem eq_allFindings {c : Config α} {guard : MemoryGuard} {m : Material} {f : Findings α}
    (h : m.findings c guard = .ok f) : f = m.allFindings c := by
  unfold findings at h
  split at h
  · cases h
  · rename_i modules hmodules
    cases h
    suffices hall : modules = (m.allFindings c).modules by rw [hall]; rfl
    unfold moduleFindings at hmodules
    unfold allFindings
    dsimp only
    by_cases hon : c.categories.modules = true
    · rw [if_pos hon] at hmodules ⊢
      have hcompare := Modules.compare_eq (congrArg Prod.snd hmodules)
      exact (congrArg Prod.fst (hcompare.symm.trans hmodules)).symm
    · rw [if_neg hon] at hmodules ⊢
      exact (congrArg Prod.fst hmodules).symm

theorem findings_of_check {guard : MemoryGuard} (hguard : guard.check = none) (c : Config α)
    (m : Material) : m.findings c guard = .ok (m.allFindings c) := by
  have hnone : (m.moduleFindings c guard).2 = none := by
    unfold moduleFindings
    split
    · exact Modules.compare_completes (.inl hguard) _
    · rfl
  cases h : m.findings c guard with
  | ok f => rw [eq_allFindings h]
  | error e =>
    unfold findings at h
    split at h
    · rename_i hmodules
      rw [hmodules] at hnone
      cases hnone
    · cases h

end Material

namespace Project

variable [Scalar α]

-- What there is to be found of a category in the files of a project.
def found (c : Config α) (p : Project) : Category → List (Finding α)
  | .functions => FunctionIndex.empty.findings (p.functions c.minFunctionLines)
  | .modules =>
    (orderedPairs (p.code.map (moduleOf c.minFunctionLines))).filterMap
      (Modules.finding? c.moduleCutoffPercent)
  | .resources =>
    Resources.documentFindings c.resources (Outcome.kept p.documents) ++
      Resources.valueFindings c.resources (Outcome.kept p.documents)
  | .components => Components.findings c.components p.components

-- It is found just when the category is looked for, whatever else is.
theorem ofCategory_allFindings (c : Config α) (p : Project) (category : Category) :
    (((p.used c.categories).material c).allFindings c).ofCategory category =
      if c.categories.has category then p.found c category else [] := by
  have hcode {category : Category} (hne : category ≠ .resources)
      (hon : c.categories.has category = true) : (p.used c.categories).code = p.code := by
    refine used_code ?_ p
    cases category <;> simp_all [Toggles.has, Toggles.needCode]
  cases category with
  | functions =>
    refine ite_congr rfl (fun hon => ?_) fun _ => rfl
    rw [functions_material, functions, hcode (by decide) hon]
    rfl
  | modules =>
    refine ite_congr rfl (fun hon => ?_) fun _ => rfl
    rw [modules_material, hcode (by decide) hon]
    rfl
  | resources =>
    change Material.documentFindings c _ ++ Material.valueFindings c _ = if _ then _ else []
    unfold Material.documentFindings Material.valueFindings
    by_cases hon : c.categories.resources = true
    · have hhas : c.categories.has .resources = true := hon
      rw [if_pos hon, if_pos hon, if_pos hhas, material, used_documents hon]
      rfl
    · have hhas : ¬c.categories.has .resources = true := hon
      rw [if_neg hon, if_neg hon, if_neg hhas, List.append_nil]
  | components =>
    refine ite_congr rfl (fun hon => ?_) fun _ => rfl
    rw [components_material _ _ hon, components, hcode (by decide) hon]
    rfl

-- A category that is looked for shows what is found of it in the files. The others show nothing.
theorem groups_report (c : Config α) (p : Project) (category : Category) :
    (((p.used c.categories).material c).allFindings c).report.groups category =
      if c.categories.has category then
        (Registry.empty.recordAll (p.found c category)).view category
      else [] := by
  rw [(Material.sorted_allFindings ..).groups_report, ofCategory_allFindings]
  split
  · rfl
  · exact (Registry.view_eq_nil_iff _ _).mpr fun g hg => by cases category <;> cases hg

end Project

end Findings

namespace Run

variable {c : Config Float} {guard : MemoryGuard}

theorem result_compare_of_check (hguard : guard.check = none) (root : String) (d : Discovery)
    (m : Material) :
    (compare c guard root d m).result =
      .ok ((m.allFindings c).report, .of root d m (m.allFindings c)) := by
  simp only [compare, Material.findings_of_check hguard]

-- There is nothing but the memory that stops a scan whose walk is over.
theorem exists_result_compare {root : String} {d : Discovery} {m : Material}
    (h : ∀ checkpoint e,
      (compare c guard root d m).result ≠ .error (.memoryLimitExceeded checkpoint e)) :
    ∃ report summary, (compare c guard root d m).result = .ok (report, summary) := by
  unfold compare at h ⊢
  cases hfound : m.findings c guard with
  | error e =>
    simp only [hfound] at h
    exact absurd rfl (h _ e)
  | ok f => exact ⟨_, _, rfl⟩

-- A scan that comes to something reports all that is found.
theorem eq_of_result_compare {root : String} {d : Discovery} {m : Material}
    {report : Duplicates.Report Float} {summary : Summary}
    (h : (compare c guard root d m).result = .ok (report, summary)) :
    report = (m.allFindings c).report := by
  unfold compare at h
  cases hfound : m.findings c guard with
  | error e => simp [hfound] at h
  | ok f =>
    rw [← Material.eq_allFindings hfound]
    simp only [hfound, Except.ok.injEq, Prod.mk.injEq] at h
    exact h.1.symm

end Run

-- Why a scan does not begin.
def refusal? (disk : Disk) (c : Config Float) (root : String) : Option Fatal :=
  match c.fault? with
  | some fault => some (.invalidConfiguration fault.message)
  | none =>
    if (disk.find? root).isNone then some (.pathNotFound root)
    else if !disk.isDirectory root then some (.notADirectory root)
    else none

-- A scan is refused, or stopped by the memory, or made of all files that the walk found.
theorem result_scan (guard : MemoryGuard) (disk : Disk) (c : Config Float) (root : String) :
    (scan disk c guard root).result =
      match refusal? disk c root with
      | some fatal => .error fatal
      | none =>
        let events := (walk disk root c.walkOptions).1
        match Discovery.exceeded? guard events with
        | some e => .error (.memoryLimitExceeded "discovery" e)
        | none =>
          ((Project.readAll disk root (.ofEvents events)).compared c guard root
            (.ofEvents events)).result := by
  unfold scan refusal?
  cases c.fault? with
  | some fault => rfl
  | none =>
    dsimp only
    split
    · rfl
    · split
      · rfl
      · dsimp only
        cases Discovery.exceeded? guard (walk disk root c.walkOptions).1 <;> rfl

theorem result_scan_of_check {guard : MemoryGuard} (hguard : guard.check = none) (disk : Disk)
    (c : Config Float) (root : String) :
    (scan disk c guard root).result =
      match refusal? disk c root with
      | some fatal => .error fatal
      | none =>
        let found := Discovery.ofEvents (walk disk root c.walkOptions).1
        ((Project.readAll disk root found).compared c guard root found).result := by
  have hexceeded (events : List WalkEvent) : Discovery.exceeded? guard events = none := by
    simp [Discovery.exceeded?, hguard]
  simp only [result_scan, hexceeded]

theorem result_compared_of_scan {guard : MemoryGuard} {disk : Disk} {c : Config Float}
    {root : String} {shown : Duplicates.Report Float × Summary}
    (h : (scan disk c guard root).result = .ok shown) :
    let found := Discovery.ofEvents (walk disk root c.walkOptions).1
    ((Project.readAll disk root found).compared c guard root found).result = .ok shown := by
  rw [result_scan] at h
  split at h
  · cases h
  · dsimp only at h
    split at h
    · cases h
    · exact h

end Scan

end Likeness
