import Likeness.Proofs.Functions.Shown
import Likeness.Proofs.Pairs
import Likeness.Proofs.Scan.Compared

namespace Likeness

open Duplicates Number Settings

namespace Module

-- What two files share are two functions of one digest.
theorem share_ofFunctions_iff (file file' : Files.Path) (fs fs' : List ShapedFunction) :
    Share (ofFunctions file fs) (ofFunctions file' fs') ↔
      ∃ f ∈ fs, ∃ f' ∈ fs', f.digest = f'.digest := by
  simp only [Share, ofFunctions, List.mem_eraseDups, List.mem_map]
  constructor
  · rintro ⟨_, ⟨f, hf, rfl⟩, f', hf', hdigest⟩
    exact ⟨f, hf, f', hf', hdigest.symm⟩
  · rintro ⟨f, hf, f', hf', hdigest⟩
    exact ⟨_, ⟨f, hf, rfl⟩, f', hf', hdigest.symm⟩

end Module

namespace Scan

namespace Project

-- Two modules that are understood are two files, in the same order.
theorem files_of_mem_orderedPairs {p : Project} {least : Nat} {m m' : Module}
    (h : (m, m') ∈ orderedPairs (p.code.map (moduleOf least)))
    (hm : m.parsed = true) (hm' : m'.parsed = true) :
    ∃ f f', [f, f'].Sublist (Outcome.kept p.code) ∧
      m = .ofFunctions f.file (ShapedFunction.all f.source f.file least) ∧
      m' = .ofFunctions f'.file (ShapedFunction.all f'.source f'.file least) := by
  have hfile {outcome : Outcome SourceFile} (hparsed : (moduleOf least outcome).parsed = true) :
      ∃ f, outcome = .ok f := by
    cases outcome with
    | ok f => exact ⟨f, rfl⟩
    | error s => cases hparsed
  rw [mem_orderedPairs_iff, List.sublist_map_iff] at h
  obtain ⟨outcomes, hsublist, hpair⟩ := h
  obtain ⟨outcome, outcome', rfl⟩ : ∃ outcome outcome', outcomes = [outcome, outcome'] :=
    List.length_eq_two.mp (by simpa using (congrArg List.length hpair).symm)
  obtain ⟨rfl, rfl⟩ : m = moduleOf least outcome ∧ m' = moduleOf least outcome' := by
    simpa using hpair
  obtain ⟨f, rfl⟩ := hfile hm
  obtain ⟨f', rfl⟩ := hfile hm'
  exact ⟨f, f', hsublist.filterMap Except.toOption, rfl, rfl⟩

theorem mem_functions {p : Project} {least : Nat} {f : SourceFile} (hf : f ∈ Outcome.kept p.code)
    {x : ShapedFunction} (hx : x ∈ ShapedFunction.all f.source f.file least) :
    x ∈ p.functions least := List.mem_flatMap.mpr ⟨f, hf, hx⟩

end Project

theorem file_of_mem_all {source : Syntax.Source} {file : Files.Path} {least : Nat}
    {x : ShapedFunction} (hx : x ∈ ShapedFunction.all source file least) : x.file = file := by
  simp only [ShapedFunction.all, List.mem_filterMap, Option.map_eq_some_iff] at hx
  obtain ⟨f, -, shape, -, rfl⟩ := hx
  rfl

section Backing

variable {α : Type}

-- Whether a group has a place in each of two files.
def Backs (groups : List (Duplicates.Group α)) (file file' : Files.Path) : Prop :=
  ∃ g ∈ groups, (∃ o ∈ g.occurrences, o.file.steps = file.steps) ∧
    ∃ o ∈ g.occurrences, o.file.steps = file'.steps

theorem Backs.symm {groups : List (Duplicates.Group α)} {file file' : Files.Path}
    (h : Backs groups file file') : Backs groups file' file := by
  obtain ⟨g, hg, hfile, hfile'⟩ := h
  exact ⟨g, hg, hfile', hfile⟩

-- It is the steps of a path that count.
theorem Backs.congr {groups : List (Duplicates.Group α)} {a a' b b' : Files.Path}
    (h : Backs groups a b) (ha : a.steps = a'.steps) (hb : b.steps = b'.steps) :
    Backs groups a' b' := by
  simpa only [Backs, ha, hb] using h

theorem backs_of_shownTogether {groups : List (Duplicates.Group α)} {o o' : Occurrence}
    (h : ShownTogether groups o o') : Backs groups o.file o'.file := by
  obtain ⟨-, g, hg, ho, ho'⟩ := h
  have hfile {o : Occurrence} (ho : o.site ∈ g.occurrences.map Occurrence.site) :
      ∃ place ∈ g.occurrences, place.file.steps = o.file.steps := by
    obtain ⟨place, hplace, hsite⟩ := List.mem_map.mp ho
    exact ⟨place, hplace, Occurrence.steps_of_site_eq hsite⟩
  exact ⟨g, hg, hfile ho, hfile ho'⟩

end Backing

-- What a run has to keep to for its modules to be backed.
structure Project.Plain (p : Project) (least : Nat) : Prop where
  nodup_paths : ((Outcome.kept p.code).map fun f => f.file.steps).Nodup
  named : ∀ f ∈ p.functions least, f.name ≠ ""

section Modules

variable {c : Config Float} {p : Project}

-- Each pair of modules that is found goes back to two functions that are shown together.
theorem Project.backs_of_finding? (hcutoff : Scalar.lt Scalar.zero c.moduleCutoffPercent = true)
    (hplain : p.Plain c.minFunctionLines) {found : Finding Float}
    (h : found ∈ p.found c .modules) :
    ∃ file file', found.occurrences = [⟨file, .module, none⟩, ⟨file', .module, none⟩] ∧
      file.steps ≠ file'.steps ∧
      Backs ((Registry.empty.recordAll (p.found c .functions)).view .functions) file file' := by
  obtain ⟨⟨m, m'⟩, hpair, hfound⟩ := List.mem_filterMap.mp h
  obtain ⟨hm, hm', hshare⟩ := Modules.share_of_finding? hcutoff hfound
  obtain ⟨-, rfl⟩ := Modules.finding?_eq_some_iff.mp hfound
  obtain ⟨f, f', hsublist, rfl, rfl⟩ := files_of_mem_orderedPairs hpair hm hm'
  obtain ⟨x, hx, x', hx', hdigest⟩ := (Module.share_ofFunctions_iff ..).mp hshare
  have hsteps : f.file.steps ≠ f'.file.steps := by
    simpa using hplain.nodup_paths.sublist (hsublist.map _)
  have hnamed {y : ShapedFunction} (hy : y ∈ p.functions c.minFunctionLines) :
      y ∈ ShapedFunction.named (p.functions c.minFunctionLines) := by
    simpa [ShapedFunction.named, hy] using hplain.named y hy
  have hfile := file_of_mem_all hx
  have hfile' := file_of_mem_all hx'
  have hsites : x.occurrence.site ≠ x'.occurrence.site := by
    intro hsite
    have hsame := Occurrence.steps_of_site_eq hsite
    simp only [ShapedFunction.occurrence, hfile, hfile'] at hsame
    exact hsteps hsame
  have hshown := FunctionIndex.shownTogether_view_feed (α := Float)
    (hnamed (mem_functions (hsublist.subset (by simp)) hx))
    (hnamed (mem_functions (hsublist.subset (by simp)) hx')) hdigest hsites
  have hbacks := backs_of_shownTogether hshown
  simp only [ShapedFunction.occurrence, hfile, hfile', FunctionIndex.feed_registry] at hbacks
  exact ⟨f.file, f'.file, rfl, hsteps, hbacks⟩

-- Each file of a group of modules has another one in the group that some functions back it with.
theorem Project.exists_backs (hcutoff : Scalar.lt Scalar.zero c.moduleCutoffPercent = true)
    (hplain : p.Plain c.minFunctionLines) {g : Duplicates.Group Float}
    (hg : g ∈ (Registry.empty.recordAll (p.found c .modules)).view .modules)
    {o : Occurrence} (ho : o ∈ g.occurrences) :
    ∃ o' ∈ g.occurrences, o.file.steps ≠ o'.file.steps ∧
      Backs ((Registry.empty.recordAll (p.found c .functions)).view .functions)
        o.file o'.file := by
  obtain ⟨found, hfound, ⟨q, hq, hsite⟩, hplaces⟩ := Registry.exists_finding_of_mem_view hg ho
  obtain ⟨file, file', hoccurrences, hne, hbacks⟩ := backs_of_finding? hcutoff hplain hfound
  rw [hoccurrences] at hq hplaces
  -- the other place of the finding is in the group under a path of the same steps
  have hother (path : Files.Path) (hpath : (⟨path, .module, none⟩ : Occurrence) ∈
      [⟨file, .module, none⟩, ⟨file', .module, none⟩]) :
      ∃ o' ∈ g.occurrences, o'.file.steps = path.steps := by
    obtain ⟨o', ho', hsame⟩ := List.mem_map.mp (hplaces _ hpath)
    have hsteps := Occurrence.steps_of_site_eq hsame
    exact ⟨o', ho', hsteps⟩
  have hsteps := Occurrence.steps_of_site_eq hsite
  rcases List.mem_pair.mp hq with rfl | rfl
  · obtain ⟨o', ho', hsame⟩ := hother file' (by simp)
    exact ⟨o', ho', by rwa [← hsteps, hsame], hbacks.congr hsteps hsame.symm⟩
  · obtain ⟨o', ho', hsame⟩ := hother file (by simp)
    exact ⟨o', ho', by rw [← hsteps, hsame]; exact hne.symm, hbacks.symm.congr hsteps hsame.symm⟩

-- Whether each file of a group of modules has another one in the group that some functions back it
-- with. Two files that make up a group are then backed by functions of both.
def ModulesBacked (report : Duplicates.Report Float) : Prop :=
  ∀ g ∈ report.modules,
    (∀ o ∈ g.occurrences, ∃ o' ∈ g.occurrences,
      o.file.steps ≠ o'.file.steps ∧ Backs report.functions o.file o'.file) ∧
    ∀ a b, g.occurrences.map (·.file) = [a, b] → Backs report.functions a b

theorem Project.modulesBacked (hfunctions : c.categories.functions = true)
    (hmodules : c.categories.modules = true)
    (hcutoff : Scalar.lt Scalar.zero c.moduleCutoffPercent = true)
    (hplain : p.Plain c.minFunctionLines) {guard : MemoryGuard} {root : String} {d : Discovery}
    {report : Duplicates.Report Float} {summary : Summary}
    (hresult : (p.compared c guard root d).result = .ok (report, summary)) :
    ModulesBacked report := by
  have hshown := p.groups_report c .functions
  have hshown' := p.groups_report c .modules
  rw [← Run.eq_of_result_compare hresult, Toggles.has, if_pos hfunctions] at hshown
  rw [← Run.eq_of_result_compare hresult, Toggles.has, if_pos hmodules] at hshown'
  intro g hg
  have hbacked (o : Occurrence) (ho : o ∈ g.occurrences) : ∃ o' ∈ g.occurrences,
      o.file.steps ≠ o'.file.steps ∧ Backs report.functions o.file o'.file := by
    change g ∈ report.groups .modules at hg
    change ∃ o' ∈ _, _ ∧ Backs (report.groups .functions) _ _
    rw [hshown'] at hg
    rw [hshown]
    exact exists_backs hcutoff hplain hg ho
  refine ⟨hbacked, fun a b hfiles => ?_⟩
  have hfile (o : Occurrence) (ho : o ∈ g.occurrences) : o.file = a ∨ o.file = b := by
    simpa [hfiles] using List.mem_map_of_mem (f := Occurrence.file) ho
  obtain ⟨o, ho, rfl⟩ : ∃ o ∈ g.occurrences, o.file = a :=
    List.mem_map.mp (hfiles ▸ List.mem_cons_self)
  obtain ⟨o', ho', hne, hbacks⟩ := hbacked o ho
  rcases hfile o' ho' with hsame | rfl
  · exact absurd (by rw [hsame]) hne
  · exact hbacks

end Modules

-- Wherever functions and modules are looked for, the modules are backed by functions. So it is for
-- any files that do not exceed the memory, and for what any scan of a directory reports.
theorem modules_backed (c : Config Float) (hfunctions : c.categories.functions = true)
    (hmodules : c.categories.modules = true)
    (hcutoff : Scalar.lt Scalar.zero c.moduleCutoffPercent = true) (guard : MemoryGuard)
    (root : String) :
    (∀ d p, Project.Plain p c.minFunctionLines →
      (∀ checkpoint e,
        (p.compared c guard root d).result ≠ .error (.memoryLimitExceeded checkpoint e)) →
      ∃ report summary, (p.compared c guard root d).result = .ok (report, summary) ∧
        ModulesBacked report) ∧
    ∀ disk report summary, (scan disk c guard root).result = .ok (report, summary) →
      (Project.readAll disk root (.ofEvents (walk disk root c.walkOptions).1)).Plain
        c.minFunctionLines →
      ModulesBacked report := by
  constructor
  · intro d p hplain hguard
    obtain ⟨report, summary, hresult⟩ := Run.exists_result_compare hguard
    exact ⟨report, summary, hresult,
      p.modulesBacked hfunctions hmodules hcutoff hplain hresult⟩
  · intro disk report summary hscan hplain
    exact Project.modulesBacked hfunctions hmodules hcutoff hplain (result_compared_of_scan hscan)

theorem modules_backed_two :
    let p : Project :=
      ⟨Project.sourceOf "a.ts" "var f=x=>x" ++ Project.sourceOf "b.ts" "var g=x=>x", []⟩
    let c : Config Float := .standard
    let guard : MemoryGuard := ⟨none, some 4096⟩
    let d : Discovery := ⟨1, ["a.ts", "b.ts"], [], []⟩
    Scalar.lt Scalar.zero c.moduleCutoffPercent = true ∧ p.Plain c.minFunctionLines ∧
      (p.found c .modules).length = 1 ∧
      ∃ report summary, (p.compared c guard "." d).result = .ok (report, summary) ∧
        ModulesBacked report := by
  intro p c guard d
  have hcutoff : Scalar.lt Scalar.zero c.moduleCutoffPercent = true := by decide +kernel
  have hplain : p.Plain c.minFunctionLines := ⟨by decide +kernel, by decide +kernel⟩
  have hguard (checkpoint : String) (e : Exceeded) :
      (p.compared c guard "." d).result ≠ .error (.memoryLimitExceeded checkpoint e) := by
    rw [Project.compared, Run.result_compare_of_check rfl]
    nofun
  exact ⟨hcutoff, hplain, by decide +kernel,
    (modules_backed c rfl rfl hcutoff guard ".").1 d p hplain hguard⟩

end Scan

end Likeness
