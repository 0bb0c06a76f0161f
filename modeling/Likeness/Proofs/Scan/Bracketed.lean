import Likeness.Proofs.Scan.Compared
import Likeness.Proofs.Scan.Rooted
import Likeness.Scan.Workers
import Mathlib.Algebra.Order.Group.Nat
import Mathlib.Data.List.Range

namespace Likeness.Scan

open Files Settings

namespace Progress

-- The step with a number and a name.
def ofPair (s : Nat × String) : Progress := .step s.1 s.2

def isMessage : Progress → Bool
  | .message _ => true
  | _ => false

theorem filter_map_ofPair (steps : List (Nat × String)) :
    (steps.map ofPair).filter (!·.isMessage) = steps.map ofPair := by
  refine List.filter_eq_self.mpr fun p hp => ?_
  obtain ⟨s, -, rfl⟩ := List.mem_map.mp hp
  rfl

-- Steps for some paths are numbered one after the other.
theorem exists_steps (first : Nat) (paths : List String) :
    ∃ pairs : List (Nat × String), steps first paths = pairs.map ofPair ∧
      pairs.map (·.1) = List.range' first paths.length := by
  induction paths generalizing first with
  | nil => exact ⟨[], rfl, rfl⟩
  | cons path rest ih =>
    obtain ⟨pairs, hpairs, hnumbers⟩ := ih (first + 1)
    refine ⟨(first, path) :: pairs, ?_, ?_⟩
    · rw [steps, hpairs]
      rfl
    · rw [List.map_cons, hnumbers, List.length_cons, List.range'_succ]

-- Of a comparison of all pairs, each step tells the number of pairs so far, which ends at the
-- number of all pairs.
theorem exists_pairSteps (compared : Nat) (paths : List String) :
    ∃ pairs : List (Nat × String), pairSteps compared paths = pairs.map ofPair ∧
      pairs.length = paths.length ∧ (∀ s ∈ pairs, compared ≤ s.1) ∧
      (pairs.map (·.1)).Pairwise (· ≤ ·) ∧
      (0 < paths.length → (pairs.map (·.1)).getLast? =
        some (compared + paths.length * (paths.length - 1) / 2)) := by
  induction paths generalizing compared with
  | nil => exact ⟨[], rfl, rfl, fun _ hs => absurd hs List.not_mem_nil, .nil, fun h => by cases h⟩
  | cons path rest ih =>
    obtain ⟨pairs, hpairs, hlength, hleast, hclimb, hlast⟩ := ih (compared + rest.length)
    refine ⟨(compared + rest.length, path) :: pairs, ?_, ?_, ?_, ?_, fun _ => ?_⟩
    · rw [pairSteps, hpairs]
      rfl
    · rw [List.length_cons, List.length_cons, hlength]
    · refine List.forall_mem_cons.mpr ⟨Nat.le_add_right _ _, fun s hs => ?_⟩
      exact (Nat.le_add_right _ _).trans (hleast s hs)
    · rw [List.map_cons, List.pairwise_cons]
      refine ⟨fun n hn => ?_, hclimb⟩
      obtain ⟨s, hs, rfl⟩ := List.mem_map.mp hn
      exact hleast s hs
    · rw [List.map_cons, List.getLast?_cons, List.length_cons, Nat.triangle_succ]
      cases rest with
      | nil =>
        rw [List.eq_nil_of_length_eq_zero hlength]
        rfl
      | cons next more =>
        rw [hlast (Nat.succ_pos _), Option.getD_some]
        congr 1
        omega

end Progress

open Progress

namespace Workers

-- The number under which a file is to be shown that was counted.
def counted? : String × Job → Option (Nat × String)
  | (file, .counted current) => some (current, file)
  | _ => none

def waiting? : String × Job → Option String
  | (file, .waiting) => some file
  | _ => none

variable {files : List String} {w w' : Workers} {pairs : List (Nat × String)}

-- What workers have shown and what they have still to show are all numbers so far, and together
-- with the files that wait they are all files.
structure Accounted (files : List String) (w : Workers) (pairs : List (Nat × String)) : Prop where
  shown : w.progress = pairs.map ofPair
  numbers : ((pairs ++ w.jobs.filterMap counted?).map (·.1)).Perm (List.range' 1 w.counted)
  files : ((pairs ++ w.jobs.filterMap counted?).map (·.2) ++ w.jobs.filterMap waiting?).Perm files

theorem accounted_start (files : List String) : Accounted files (start files) [] := by
  have hcounted : (files.map fun file => (file, Job.waiting)).filterMap counted? = [] := by
    rw [List.filterMap_map]
    exact List.filterMap_eq_nil_iff.mpr fun _ _ => rfl
  have hwaiting : (files.map fun file => (file, Job.waiting)).filterMap waiting? = files := by
    rw [List.filterMap_map]
    exact List.filterMap_some
  unfold start
  refine ⟨rfl, ?_, ?_⟩
  · rw [hcounted]
    exact .refl _
  · rw [hcounted, hwaiting]
    exact .refl _

theorem perm_insert {β : Type} (l before after : List β) (b : β) :
    (l ++ (before ++ b :: after)).Perm (b :: (l ++ (before ++ after))) := by
  rw [← List.append_assoc, ← List.append_assoc]
  exact List.perm_middle

-- To count a file takes it from those that wait and gives it the next number. To show it changes
-- neither the numbers nor the files.
theorem Accounted.step (h : Accounted files w pairs) (hstep : Step w w') :
    ∃ pairs', Accounted files w' pairs' := by
  obtain ⟨hshown, hnumbers, hfiles⟩ := h
  cases hstep with
  | count counted before after file progress =>
    simp only [List.filterMap_append, List.filterMap_cons, counted?, waiting?] at hnumbers hfiles
    refine ⟨pairs, hshown, ?_, ?_⟩
    · simp only [List.filterMap_append, List.filterMap_cons, counted?]
      have hnext := (perm_insert pairs (before.filterMap counted?) (after.filterMap counted?)
        (counted + 1, file)).map (·.1)
      refine hnext.trans ((hnumbers.cons _).trans ?_)
      rw [List.range'_1_concat, Nat.add_comm 1 counted]
      exact (List.perm_append_singleton _ _).symm
    · simp only [List.filterMap_append, List.filterMap_cons, counted?, waiting?]
      have hnext := (perm_insert pairs (before.filterMap counted?) (after.filterMap counted?)
        (counted + 1, file)).map (·.2)
      exact (hnext.append_right _).trans ((perm_insert _ _ _ file).symm.trans hfiles)
  | tell counted current before after file progress =>
    simp only [List.filterMap_append, List.filterMap_cons, counted?, waiting?] at hnumbers hfiles
    have hsame : (pairs ++ [(current, file)] ++
        (before.filterMap counted? ++ after.filterMap counted?)).Perm
        (pairs ++ (before.filterMap counted? ++ (current, file) :: after.filterMap counted?)) := by
      rw [List.append_assoc, List.singleton_append]
      exact List.perm_middle.trans (perm_insert _ _ _ _).symm
    refine ⟨pairs ++ [(current, file)], ?_, ?_, ?_⟩
    · rw [List.map_append, ← hshown]
      rfl
    · simp only [List.filterMap_append, List.filterMap_cons, counted?]
      exact (hsame.map (·.1)).trans hnumbers
    · simp only [List.filterMap_append, List.filterMap_cons, counted?, waiting?]
      exact ((hsame.map (·.2)).append_right _).trans hfiles

theorem exists_accounted (h : Relation.ReflTransGen Step (start files) w) :
    ∃ pairs, Accounted files w pairs := by
  induction h with
  | refl => exact ⟨[], accounted_start files⟩
  | tail _ hstep ih =>
    obtain ⟨pairs, hpairs⟩ := ih
    exact hpairs.step hstep

-- When all files are shown, each number up to the number of files was shown once, and each file.
theorem exists_of_mayShow {progress : List Progress} (h : MayShow files progress) :
    ∃ pairs : List (Nat × String), progress = pairs.map ofPair ∧
      (pairs.map (·.1)).Perm (List.range' 1 files.length) ∧ (pairs.map (·.2)).Perm files := by
  obtain ⟨w, hrun, hall, rfl⟩ := h
  obtain ⟨pairs, hshown, hnumbers, hfiles⟩ := exists_accounted hrun
  have hcounted : w.jobs.filterMap counted? = [] := by
    refine List.filterMap_eq_nil_iff.mpr fun job hjob => ?_
    obtain ⟨file, state⟩ := job
    obtain rfl : state = .shown := hall _ hjob
    rfl
  have hwaiting : w.jobs.filterMap waiting? = [] := by
    refine List.filterMap_eq_nil_iff.mpr fun job hjob => ?_
    obtain ⟨file, state⟩ := job
    obtain rfl : state = .shown := hall _ hjob
    rfl
  rw [hcounted, List.append_nil] at hnumbers hfiles
  rw [hwaiting, List.append_nil] at hfiles
  have hlength : w.counted = files.length := by
    have hn := hnumbers.length_eq
    have hf := hfiles.length_eq
    rw [List.length_map] at hn hf
    rw [← hf, hn, List.length_range']
  exact ⟨pairs, hshown, hlength ▸ hnumbers, hfiles⟩

-- A worker that is left alone shows the files one after the other.
theorem reflTransGen_alone (files : List String) (counted : Nat) (before : List (String × Job))
    (progress : List Progress) : Relation.ReflTransGen Step
      ⟨counted, before ++ files.map (fun file => (file, .waiting)), progress⟩
      ⟨counted + files.length, before ++ files.map (fun file => (file, .shown)),
        progress ++ steps (counted + 1) files⟩ := by
  induction files generalizing counted before progress with
  | nil =>
    rw [steps, List.append_nil]
    exact .refl
  | cons file rest ih =>
    have hcount := Step.count counted before (rest.map fun file => (file, .waiting)) file progress
    have htell := Step.tell (counted + 1) (counted + 1) before
      (rest.map fun file => (file, .waiting)) file progress
    have hrest := ih (counted + 1) (before ++ [(file, .shown)])
      (progress ++ [.step (counted + 1) file])
    rw [← List.append_cons, ← List.append_cons, ← List.append_cons, Nat.add_right_comm] at hrest
    exact (hrest.head htell).head hcount

theorem mayShow_steps (files : List String) : MayShow files (steps 1 files) := by
  have hrun := reflTransGen_alone files 0 [] []
  rw [List.nil_append, List.nil_append, List.nil_append, Nat.zero_add, Nat.zero_add] at hrun
  refine ⟨_, hrun, fun job hjob => ?_, rfl⟩
  obtain ⟨file, -, rfl⟩ := List.mem_map.mp hjob
  rfl

end Workers

-- A phase with the steps in it, each a number and a name.
structure Bracket where
  phase : Phase
  total : Nat
  steps : List (Nat × String)

namespace Bracket

def progress (b : Bracket) : List Progress := Progress.phase b.phase b.total (b.steps.map ofPair)

def currents (b : Bracket) : List Nat := b.steps.map (·.1)

-- Whether there is a step for each of some items, and their numbers go up to the total.
def Climbs (items : Nat) (b : Bracket) : Prop :=
  b.steps.length = items ∧ b.currents.Pairwise (· ≤ ·) ∧
    (0 < items → b.currents.getLast? = some b.total)

-- Whether a phase counts what there was to do in a scan.
def Counts (s : Summary) (b : Bracket) : Prop :=
  match b.phase with
  | .walking => b.total = 0 ∧ b.currents = List.range' 1 (s.codeFiles + s.resourceFiles)
  | .sources => b.total = s.codeFiles ∧ b.currents.Perm (List.range' 1 b.total)
  | .resources => b.total = s.resourceFiles ∧ b.currents.Perm (List.range' 1 b.total)
  | .modules => b.total = s.codeFiles * (s.codeFiles - 1) / 2 ∧ b.Climbs s.codeFiles
  | .components => b.total = s.components ∧ b.Climbs s.components

end Bracket

-- Whether some progress, apart from its messages, is that of some phases one after the other.
def Bracketed (s : Summary) (phases : List Phase) (progress : List Progress) : Prop :=
  ∃ brackets : List Bracket, progress.filter (!·.isMessage) = brackets.flatMap Bracket.progress ∧
    brackets.map (·.phase) = phases ∧ ∀ b ∈ brackets, b.Counts s

section Parts

variable {s : Summary} {phases phases' : List Phase} {progress progress' : List Progress}

theorem bracketed_nil : Bracketed s [] [] := ⟨[], rfl, rfl, fun _ hb => absurd hb List.not_mem_nil⟩

theorem Bracketed.append (h : Bracketed s phases progress) (h' : Bracketed s phases' progress') :
    Bracketed s (phases ++ phases') (progress ++ progress') := by
  obtain ⟨brackets, hprogress, hphases, hcounts⟩ := h
  obtain ⟨brackets', hprogress', hphases', hcounts'⟩ := h'
  refine ⟨brackets ++ brackets', ?_, ?_, List.forall_mem_append.mpr ⟨hcounts, hcounts'⟩⟩
  · rw [List.filter_append, hprogress, hprogress', List.flatMap_append]
  · rw [List.map_append, hphases, hphases']

theorem bracketed_phase {b : Bracket} (hcounts : b.Counts s) {inside : List Progress}
    (hinside : inside.filter (!·.isMessage) = b.steps.map ofPair) :
    Bracketed s [b.phase] (Progress.phase b.phase b.total inside) := by
  refine ⟨[b], ?_, rfl, List.forall_mem_singleton.mpr hcounts⟩
  rw [List.flatMap_singleton, Bracket.progress, Progress.phase, Progress.phase, List.cons_append,
    List.filter_cons_of_pos rfl, List.filter_append, hinside]
  rfl

theorem bracketed_ite {use : Bool} {p : Phase}
    (h : use = true → Bracketed s [p] progress) :
    Bracketed s (if use then [p] else []) (if use then progress else []) := by
  cases use with
  | false => exact bracketed_nil
  | true => exact h rfl

-- The path of a file of either kind.
def filePath? : WalkEvent → Option String
  | .file path _ => some path
  | _ => none

theorem length_filterMap_filePath? (events : List WalkEvent) :
    (events.filterMap filePath?).length =
      (Discovery.ofEvents events).code.length + (Discovery.ofEvents events).resources.length := by
  unfold Discovery.ofEvents
  dsimp only
  induction events with
  | nil => rfl
  | cons ev rest ih =>
    cases ev with
    | directory path => exact ih
    | closed why => exact ih
    | file path kind =>
      cases kind <;> simp [filePath?, Discovery.fileOf?, ih] <;> omega

theorem discoveryProgress_eq (root : String) (events : List WalkEvent) :
    Discovery.progress root events = Progress.phase .walking 0
      (.message s!"Walking {root}" :: steps 1 (events.filterMap filePath?)) := rfl

theorem bracketed_walking (root : String) (events : List WalkEvent)
    (hcode : s.codeFiles = (Discovery.ofEvents events).code.length)
    (hresources : s.resourceFiles = (Discovery.ofEvents events).resources.length) :
    Bracketed s [.walking] (Discovery.progress root events) := by
  obtain ⟨pairs, hpairs, hnumbers⟩ := exists_steps 1 (events.filterMap filePath?)
  rw [length_filterMap_filePath?, ← hcode, ← hresources] at hnumbers
  rw [discoveryProgress_eq]
  refine bracketed_phase (b := ⟨.walking, 0, pairs⟩) ⟨rfl, hnumbers⟩ ?_
  rw [List.filter_cons_of_neg Bool.false_ne_true, hpairs, filter_map_ofPair]

theorem bracketed_reading {use : Bool} {p : Phase} {files : List String}
    (h : Run.MayShowReading use p files progress)
    (hcounts : ∀ steps : List (Nat × String),
      (steps.map (·.1)).Perm (List.range' 1 files.length) →
        (⟨p, files.length, steps⟩ : Bracket).Counts s) :
    Bracketed s (if use then [p] else []) progress := by
  unfold Run.MayShowReading at h
  cases use with
  | false =>
    obtain rfl := h
    exact bracketed_nil
  | true =>
    obtain ⟨inside, hinside, rfl⟩ := h
    obtain ⟨pairs, rfl, hnumbers, -⟩ := Workers.exists_of_mayShow hinside
    exact bracketed_phase (hcounts pairs hnumbers) (filter_map_ofPair pairs)

-- Numbers one after the other go up to how many there are.
theorem climbs_of_currents {b : Bracket} (h : b.currents = List.range' 1 b.total) :
    b.Climbs b.total := by
  have hlength : b.steps.length = b.total := by
    have hcurrents := congrArg List.length h
    rwa [Bracket.currents, List.length_map, List.length_range'] at hcurrents
  refine ⟨hlength, ?_, fun hsome => ?_⟩
  · rw [h]
    exact List.pairwise_le_range' 1
  · rw [h, List.getLast?_range', if_neg (by omega), Nat.add_sub_cancel_left]

theorem bracketed_comparing {c : Config Float} {m : Material}
    (hmodules : c.categories.modules = true → m.modules.length = s.codeFiles)
    (hcomponents : m.components.length = s.components) :
    Bracketed s ((if c.categories.modules then [.modules] else []) ++
      if c.categories.components then [.components] else []) (Run.comparingProgress c m) := by
  unfold Run.comparingProgress
  refine (bracketed_ite fun hon => ?_).append (bracketed_ite fun _ => ?_)
  · obtain ⟨pairs, hpairs, hlength, -, hclimb, hlast⟩ :=
      exists_pairSteps 0 (m.modules.map (·.file.text))
    rw [List.length_map, hmodules hon] at hlength hlast
    rw [Nat.zero_add] at hlast
    rw [hpairs, hmodules hon]
    exact bracketed_phase (b := ⟨.modules, s.codeFiles * (s.codeFiles - 1) / 2, pairs⟩)
      ⟨rfl, hlength, hclimb, hlast⟩ (filter_map_ofPair pairs)
  · obtain ⟨pairs, hpairs, hnumbers⟩ := exists_steps 1 (m.components.map Component.id)
    rw [List.length_map, hcomponents] at hnumbers
    rw [hpairs, hcomponents]
    exact bracketed_phase (b := ⟨.components, s.components, pairs⟩)
      ⟨rfl, climbs_of_currents (b := ⟨.components, s.components, pairs⟩) hnumbers⟩
      (filter_map_ofPair pairs)

end Parts

section Scans

variable {disk : Disk} {c : Config Float} {guard : MemoryGuard} {root : String}
  {report : Duplicates.Report Float} {summary : Summary}

theorem Run.progress_of_result_compare {d : Discovery} {m : Material}
    (h : (Run.compare c guard root d m).result = .ok (report, summary)) :
    (Run.compare c guard root d m).progress =
      Run.readingProgress c root d ++ Run.comparingProgress c m ∧
    ∃ f : Findings Float, summary = .of root d m f := by
  unfold Run.compare at h ⊢
  cases hfound : m.findings c guard with
  | error e =>
    rw [hfound] at h
    cases h
  | ok f =>
    rw [hfound] at h
    exact ⟨rfl, f, (Prod.mk.inj (Except.ok.inj h)).2.symm⟩

-- What a scan that comes to something shows and counts.
theorem progress_of_result (h : (scan disk c guard root).result = .ok (report, summary)) :
    let events := (walk disk root c.walkOptions).1
    let found := Discovery.ofEvents events
    let material := (Project.read disk root c.categories found).material c
    (scan disk c guard root).progress = Discovery.progress root events ++
      (Run.readingProgress c root found ++ Run.comparingProgress c material) ∧
    ∃ f : Findings Float, summary = .of root found material f := by
  intro events found material
  unfold scan at h ⊢
  split at h
  · cases h
  · split at h
    · cases h
    · rename_i hfound
      rw [if_neg hfound]
      split at h
      · cases h
      · rename_i hdirectory
        rw [if_neg hdirectory]
        dsimp only at h ⊢
        split at h
        · cases h
        · obtain ⟨hprogress, hsummary⟩ := Run.progress_of_result_compare h
          exact ⟨congrArg (Discovery.progress root events ++ ·) hprogress, hsummary⟩

-- The progress that is shown by one worker is what a scan may show.
theorem mayShow_progress (h : (scan disk c guard root).result = .ok (report, summary)) :
    MayShow disk c root (scan disk c guard root).progress := by
  have hreading (use : Bool) (p : Phase) (files : List String) :
      Run.MayShowReading use p files (if use then Progress.reading p files else []) := by
    cases use with
    | false => exact rfl
    | true => exact ⟨_, Workers.mayShow_steps files, rfl⟩
  exact ⟨_, _, hreading _ _ _, hreading _ _ _, (progress_of_result h).1⟩

-- Each code file makes a module if modules are looked for.
theorem length_modules_material (found : Discovery) (h : c.categories.modules = true) :
    ((Project.read disk root c.categories found).material c).modules.length =
      found.code.length := by
  have hneed : c.categories.needCode = true := by simp [Toggles.needCode, h]
  unfold Material.modules Project.material Project.read
  rw [if_pos hneed]
  simp only [List.length_map]

end Scans

-- A scan that comes to something shows its phases one after the other, each from its start to its
-- end, and apart from messages nothing else. Files are read in any order, and each number is shown
-- once. Comparisons show how far they have come and end at the total that was told.
theorem progress_bracketed (disk : Disk) (c : Config Float) (guard : MemoryGuard) (root : String)
    {report : Duplicates.Report Float} {summary : Summary}
    (h : (scan disk c guard root).result = .ok (report, summary)) :
    MayShow disk c root (scan disk c guard root).progress ∧
    ∀ progress, MayShow disk c root progress → Bracketed summary
      ([.walking] ++
        ((if c.categories.functions || c.categories.modules || c.categories.components
            then [.sources] else []) ++
          (if c.categories.resources then [.resources] else []) ++
          ((if c.categories.modules then [.modules] else []) ++
            if c.categories.components then [.components] else []))) progress := by
  obtain ⟨-, f, rfl⟩ := progress_of_result h
  refine ⟨mayShow_progress h, ?_⟩
  rintro progress ⟨sources, resources, hsources, hresources, rfl⟩
  refine (bracketed_walking root _ rfl rfl).append ((Bracketed.append ?_ ?_).append ?_)
  · exact bracketed_reading hsources fun steps hnumbers => by
      rw [List.length_map] at hnumbers ⊢
      exact ⟨rfl, hnumbers⟩
  · exact bracketed_reading hresources fun steps hnumbers => by
      rw [List.length_map] at hnumbers ⊢
      exact ⟨rfl, hnumbers⟩
  · exact bracketed_comparing (length_modules_material _) rfl

theorem progress_bracketed_web :
    let disk := projectDisk "web" oneScript
    let run := scan disk .standard ⟨none, none⟩ "web"
    ∃ report summary, run.result = .ok (report, summary) ∧ summary.codeFiles = 1 ∧
      Bracketed summary [.walking, .sources, .resources, .modules, .components] run.progress := by
  intro disk run
  have hfault : (Config.standard : Config Float).fault? = none := by decide +kernel
  have hfind : disk.find? "web" = some (.directory oneScript) := by
    unfold Disk.find?
    rw [find_projectDisk (by decide)]
  have hdirectory : disk.isDirectory "web" = true := by
    unfold Disk.isDirectory
    rw [hfind]
    rfl
  have hcode : (Discovery.ofEvents (walk disk "web" .standard).1).code.length = 1 := by
    decide +kernel
  have hcheck : MemoryGuard.check ⟨none, none⟩ = none := rfl
  have hresult := result_scan_of_check hcheck disk .standard "web"
  have hrefusal : refusal? disk .standard "web" = none := by
    unfold refusal?
    rw [hfault, hfind, hdirectory]
    rfl
  rw [hrefusal] at hresult
  dsimp only at hresult
  rw [Project.compared, Run.result_compare_of_check hcheck] at hresult
  obtain ⟨hmay, hall⟩ := progress_bracketed disk .standard ⟨none, none⟩ "web" hresult
  exact ⟨_, _, hresult, hcode, hall _ hmay⟩

end Likeness.Scan
