import Likeness.Command.Run
import Likeness.Proofs.Settings.Understood

namespace Likeness.Command

open Scan (Exit)
open Settings

section Check

variable {o : ScanOptions} {c c' : Config Float}

theorem fault?_of_ioThreads (hthreads : c.ioThreads = 0) : c.fault? = some .noThreads := by
  unfold Config.fault?
  exact if_pos hthreads

-- The check of settings with threads does not depend on how many there are, nor on anything else
-- that options can change.
theorem fault?_congr (hthreads : c.ioThreads ≠ 0) (hthreads' : c'.ioThreads ≠ 0)
    (hcutoff : c'.moduleCutoffPercent = c.moduleCutoffPercent)
    (hresources : c'.resources = c.resources) (hcomponents : c'.components = c.components) :
    c'.fault? = c.fault? := by
  unfold Config.fault? thresholdsOf weightsOf
  rw [if_neg hthreads, if_neg hthreads', hcutoff, hresources, hcomponents]

theorem fault?_apply (hthreads : c.ioThreads ≠ 0) (hflag : o.ioThreads ≠ some 0) :
    (o.apply c).fault? = c.fault? := by
  have happlied : (o.apply c).ioThreads ≠ 0 := by
    have heq : (o.apply c).ioThreads = o.ioThreads.getD c.ioThreads := rfl
    rw [heq]
    cases hflagged : o.ioThreads with
    | none => exact hthreads
    | some n => exact fun hzero => hflag (hflagged.trans (congrArg some hzero))
  exact fault?_congr hthreads happlied rfl rfl rfl

theorem fault?_apply_of_zero (hflag : o.ioThreads = some 0) :
    (o.apply c).fault? = some .noThreads := by
  refine fault?_of_ioThreads ?_
  have heq : (o.apply c).ioThreads = o.ioThreads.getD c.ioThreads := rfl
  rw [heq, hflag]
  rfl

-- Settings that options make the same are checked the same, if both have threads.
theorem fault?_eq_of_apply_eq (hthreads : c.ioThreads ≠ 0) (hthreads' : c'.ioThreads ≠ 0)
    (h : o.apply c' = o.apply c) : c'.fault? = c.fault? :=
  fault?_congr hthreads hthreads' (congrArg (·.moduleCutoffPercent) h :)
    (congrArg (·.resources) h :) (congrArg (·.components) h :)

end Check

-- Whether a command ends as with settings that no scan can work with.
def Result.Rejected (r : Result) : Prop :=
  ∃ f, r.product = .error f ∧ f.exit = .invalidConfiguration

section Scan

variable {w : World} {common : CommonOptions} {o : ScanOptions} {color : Bool} {c c' : Config Float}

theorem scanWith_of_fault (fault : OutOfRange Float) (h : c.fault? = some fault) :
    scanWith w o color c = ⟨.error (.scan (.invalidConfiguration fault.message)), []⟩ := by
  unfold scanWith Scan.scan
  rw [h]
  rfl

-- A scan of settings that are in range may fail, but not because of the settings.
theorem not_rejected_scanWith (h : c.fault? = none) : ¬ (scanWith w o color c).Rejected := by
  rintro ⟨f, hf, hexit⟩
  unfold scanWith Scan.scan at hf
  rw [h] at hf
  dsimp only at hf
  split at hf
  · cases hf
  · rename_i fatal hfatal
    obtain rfl := Except.error.inj hf
    split at hfatal
    · cases hfatal
      cases hexit
    · split at hfatal
      · cases hfatal
        cases hexit
      · split at hfatal
        · cases hfatal
          cases hexit
        · unfold Scan.Run.compare at hfatal
          dsimp only at hfatal
          split at hfatal
          · cases hfatal
            cases hexit
          · cases hfatal

theorem rejected_scanWith_iff : (scanWith w o color c).Rejected ↔ c.fault? ≠ none := by
  cases h : c.fault? with
  | none => exact iff_of_false (not_rejected_scanWith h) fun hnot => hnot rfl
  | some fault =>
    rw [scanWith_of_fault fault h]
    exact iff_of_true ⟨_, rfl, rfl⟩ (Option.some_ne_none fault)

-- A scan under settings that have been read, which are checked before options are applied.
def scanRead (w : World) (common : CommonOptions) (o : ScanOptions) (c : Config Float) : Result :=
  match c.checked with
  | .ok c => scanWith w o (!common.noColor) (o.apply c)
  | .error r => ⟨.error (.settings r), []⟩

theorem scanRead_of_none (h : c.fault? = none) :
    scanRead w common o c = scanWith w o (!common.noColor) (o.apply c) := by
  unfold scanRead Config.checked
  rw [h]

theorem scanRead_of_fault (fault : OutOfRange Float) (h : c.fault? = some fault) :
    scanRead w common o c = ⟨.error (.settings (.outOfRange fault.message)), []⟩ := by
  unfold scanRead Config.checked
  rw [h]

theorem rejected_scanRead_iff :
    (scanRead w common o c).Rejected ↔ c.fault? ≠ none ∨ (o.apply c).fault? ≠ none := by
  cases h : c.fault? with
  | none =>
    rw [scanRead_of_none h, rejected_scanWith_iff]
    exact (or_iff_right fun hnot => hnot rfl).symm
  | some fault =>
    rw [scanRead_of_fault fault h]
    exact iff_of_true ⟨_, rfl, rfl⟩ (.inl (Option.some_ne_none fault))

-- Two checks reject no more than one of the settings in the end, but settings without threads.
theorem faults_iff : (c.fault? ≠ none ∨ (o.apply c).fault? ≠ none) ↔
    ((o.apply c).fault? ≠ none ∨ c.ioThreads = 0) := by
  by_cases hthreads : c.ioThreads = 0
  · rw [fault?_of_ioThreads hthreads]
    exact iff_of_true (.inl (Option.some_ne_none _)) (.inr hthreads)
  · by_cases hflag : o.ioThreads = some 0
    · rw [fault?_apply_of_zero hflag]
      exact iff_of_true (.inr (Option.some_ne_none _)) (.inl (Option.some_ne_none _))
    · rw [fault?_apply hthreads hflag, or_self, or_iff_left hthreads]

-- The check of the settings and that of the scan are answered alike.
theorem ofResult_scanRead (hthreads : c.ioThreads ≠ 0) (hflag : o.ioThreads ≠ some 0) (k : Clock)
    (filter : Scan.LevelFilter) (asJson : Bool) :
    Answer.ofResult k filter asJson (scanRead w common o c) =
      Answer.ofResult k filter asJson (scanWith w o (!common.noColor) (o.apply c)) := by
  have happlied := fault?_apply hthreads hflag
  cases h : c.fault? with
  | none => rw [scanRead_of_none h]
  | some fault =>
    rw [scanRead_of_fault fault h, scanWith_of_fault fault (happlied.trans h)]
    rfl

theorem scanRead_eq_of_apply_eq (hthreads : c.ioThreads ≠ 0) (hthreads' : c'.ioThreads ≠ 0)
    (h : o.apply c' = o.apply c) : scanRead w common o c' = scanRead w common o c := by
  have hfault := fault?_eq_of_apply_eq hthreads hthreads' h
  cases hc : c.fault? with
  | none => rw [scanRead_of_none hc, scanRead_of_none (hfault.trans hc), h]
  | some fault => rw [scanRead_of_fault fault hc, scanRead_of_fault fault (hfault.trans hc)]

end Scan

-- The sources of the settings of a scan.
def World.sources (w : World) (o : ScanOptions) : Sources :=
  .ofProject w.userFile o.path o.configFile

theorem runScan_of_merged {w : World} {common : CommonOptions} {o : ScanOptions}
    {c : Config Float} (h : Config.merged w.disk (w.sources o) w.environment = .ok c) :
    runScan w common o = scanRead w common o c := by
  unfold runScan scanRead World.settings
  rw [Config.load_eq]
  unfold World.sources at h
  rw [h]
  rfl

-- Sources that are understood come to settings, and a scan is rejected for what options make of
-- these or because they have no threads themselves, be they replaced or not. With threads, the
-- answer is that of a scan under what the options make of the settings, and nothing that they
-- replace decides.
theorem runScan_rejected_iff (w : World) (common : CommonOptions) (o : ScanOptions) :
    ((w.sources o).Understood w.disk w.environment →
      ∃ c, Config.merged w.disk (w.sources o) w.environment = .ok c) ∧
    ∀ c, Config.merged w.disk (w.sources o) w.environment = .ok c →
      ((runScan w common o).Rejected ↔ (o.apply c).fault? ≠ none ∨ c.ioThreads = 0) ∧
      (c.ioThreads ≠ 0 → o.ioThreads ≠ some 0 → ∀ k filter asJson,
        Answer.ofResult k filter asJson (runScan w common o) =
          Answer.ofResult k filter asJson (scanWith w o (!common.noColor) (o.apply c))) ∧
      ∀ c', c.ioThreads ≠ 0 → c'.ioThreads ≠ 0 → o.apply c' = o.apply c →
        runScan w common o = scanRead w common o c' := by
  refine ⟨Config.exists_merged, fun c hc => ?_⟩
  rw [runScan_of_merged hc]
  exact ⟨rejected_scanRead_iff.trans faults_iff, ofResult_scanRead, fun c' hthreads hthreads' h =>
    (scanRead_eq_of_apply_eq hthreads hthreads' h).symm⟩

-- A project whose file says how many threads there are, and options that say there are two.
def threadedWorld (text : String) : World :=
  ⟨⟨.directory [("dupecheck.toml", .file (some text))], []⟩, [], none⟩

def quietly : CommonOptions := ⟨0, true, true, false⟩

def twoThreads : ScanOptions :=
  ⟨".", .json, none, none, some 2, none, [], false, false, false, false, false, false⟩

theorem runScan_two_threads : ∃ c,
    Config.merged (threadedWorld "io_threads = 1").disk
      ((threadedWorld "io_threads = 1").sources twoThreads) [] = .ok c ∧ c.ioThreads = 1 ∧
    ¬ (runScan (threadedWorld "io_threads = 1") quietly twoThreads).Rejected ∧
    ∀ c', c'.ioThreads ≠ 0 → twoThreads.apply c' = twoThreads.apply c →
      runScan (threadedWorld "io_threads = 1") quietly twoThreads =
        scanRead (threadedWorld "io_threads = 1") quietly twoThreads c' := by
  have hmain := runScan_rejected_iff (threadedWorld "io_threads = 1") quietly twoThreads
  obtain ⟨c, hc⟩ := hmain.1 (Sources.understood_of_all rfl (by decide +kernel))
  have hvalues : (Config.merged (threadedWorld "io_threads = 1").disk
      ((threadedWorld "io_threads = 1").sources twoThreads) []).toOption.map
        (fun c => (c.ioThreads, (twoThreads.apply c).fault?.isNone)) = some (1, true) := by
    decide +kernel
  rw [show Config.merged _ _ [] = .ok c from hc] at hvalues
  obtain ⟨hthreads, hfault⟩ := Prod.mk.inj (Option.some.inj hvalues)
  have hthreads' : c.ioThreads ≠ 0 := by rw [hthreads]; exact Nat.one_ne_zero
  obtain ⟨hrejected, -, hsame⟩ := hmain.2 c hc
  refine ⟨c, hc, hthreads, fun h => ?_, fun c' => hsame c' hthreads'⟩
  cases hrejected.mp h with
  | inl hnot => exact hnot (Option.isNone_iff_eq_none.mp hfault)
  | inr hzero => exact hthreads' hzero

-- A file without threads is refused, although the options replace what it says.
theorem rejected_for_replaced_threads : ∃ c,
    ((threadedWorld "io_threads = 0").sources twoThreads).Understood
      (threadedWorld "io_threads = 0").disk [] ∧
    Config.merged (threadedWorld "io_threads = 0").disk
      ((threadedWorld "io_threads = 0").sources twoThreads) [] = .ok c ∧
    (twoThreads.apply c).fault? = none ∧
    (runScan (threadedWorld "io_threads = 0") quietly twoThreads).Rejected := by
  have hunderstood : ((threadedWorld "io_threads = 0").sources twoThreads).Understood
      (threadedWorld "io_threads = 0").disk [] :=
    Sources.understood_of_all rfl (by decide +kernel)
  obtain ⟨c, hc⟩ := Config.exists_merged hunderstood
  have hvalues : (Config.merged (threadedWorld "io_threads = 0").disk
      ((threadedWorld "io_threads = 0").sources twoThreads) []).toOption.map
        (fun c => (c.ioThreads, (twoThreads.apply c).fault?.isNone)) = some (0, true) := by
    decide +kernel
  rw [hc] at hvalues
  obtain ⟨hthreads, hfault⟩ := Prod.mk.inj (Option.some.inj hvalues)
  refine ⟨c, hunderstood, hc, Option.isNone_iff_eq_none.mp hfault, ?_⟩
  rw [runScan_of_merged hc, rejected_scanRead_iff, fault?_of_ioThreads hthreads]
  exact .inl (Option.some_ne_none _)

end Likeness.Command
