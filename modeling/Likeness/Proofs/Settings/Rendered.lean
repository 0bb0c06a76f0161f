import Likeness.Proofs.Number.Counts
import Likeness.Proofs.Settings.Range
import Likeness.Proofs.Settings.Understood
import Likeness.Proofs.Toml.Written
import Likeness.Settings.Text

namespace Likeness.Settings

open Components Number Similarity
open Files (Disk)
open Toml (Orderly)

section Fields

variable {σ τ α : Type} {path : List String} {raw : Raw} {s s' : σ}

theorem read_field {decode : Decode α} {x : α} (h : decode path raw = .ok x) (name : String)
    (put : σ → α → σ) : (field name decode put).read path raw s = .ok (put s x) :=
  map_eq_ok_iff.mpr ⟨x, h, rfl⟩

theorem read_nested {read : List String → Raw → τ → Except Problem τ} {get : σ → τ} {x : τ}
    (h : read path raw (get s) = .ok x) (name : String) (put : σ → τ → σ) :
    (nested name read get put).read path raw s = .ok (put s x) :=
  map_eq_ok_iff.mpr ⟨x, h, rfl⟩

theorem readEntries_cons {fields : List (Field σ)} {f : Field σ} {key : String}
    (hfind : fields.find? (·.name == key) = some f)
    (hread : f.read (path ++ [key]) raw s = .ok s') (rest : List (String × Raw)) :
    readEntries fields path ((key, raw) :: rest) s = readEntries fields path rest s' := by
  rw [readEntries, hfind]
  dsimp only
  rw [hread]

end Fields

section Parts

variable (origin : Origin) (path : List String)

theorem decodeItems_ofToml (place : ℕ) (xs : List String) :
    decodeItems decodeText path place (Raw.ofTomlItems origin (xs.map .string)) = .ok xs := by
  induction xs generalizing place with
  | nil => rfl
  | cons x xs ih =>
    have hx : decodeText (path ++ [toString place]) (Raw.ofToml origin (.string x)) = .ok x := rfl
    rw [List.map_cons, Raw.ofTomlItems, decodeItems, hx]
    dsimp only
    rw [ih]

-- Each structure reads back from its fields, whatever it was before.
theorem read_toggles (t s : Toggles) : readStructure "CategoryToggles" toggleFields path
    (Raw.ofToml origin (.table t.fields)) s = .ok t := rfl

theorem read_options (o s : Options Float) : readStructure "ComparisonOptions" optionFields path
    (Raw.ofToml origin (.table (optionValues o))) s = .ok o := rfl

theorem read_componentOptions (o s : ComponentOptions Float) :
    readStructure "ComponentOptions" componentFields path
      (Raw.ofToml origin (.table (componentValues o))) s = .ok o := rfl

theorem readConfig_fields (c : Config Float) :
    readConfig (Raw.ofToml origin (.table c.fields)) = .ok c := by
  have hsorted : Raw.ofTomlFields origin c.fields =
      [("categories", .ofToml origin (.table c.categories.fields)),
        ("components", .ofToml origin (.table (componentValues c.components))),
        ("exclude_package_files", .ofToml origin (.bool c.excludePackageFiles)),
        ("ignore_dirs", .ofToml origin (.array (c.ignoreDirs.map .string))),
        ("ignore_patterns", .ofToml origin (.array (c.ignorePatterns.map .string))),
        ("io_threads", .ofToml origin (.int c.ioThreads)),
        ("memory_limit_mb", .ofToml origin (.int c.memoryLimitMb)),
        ("min_function_lines", .ofToml origin (.int c.minFunctionLines)),
        ("module_cutoff_percent", .ofToml origin (.double c.moduleCutoffPercent)),
        ("resources", .ofToml origin (.table (optionValues c.resources))),
        ("skip_hidden", .ofToml origin (.bool c.skipHidden))] := rfl
  have htexts (key : String) (xs : List String) :
      decodeList decodeText [key] (Raw.ofToml origin (.array (xs.map .string))) = .ok xs :=
    decodeItems_ofToml origin [key] 0 xs
  rw [readConfig, Raw.ofToml, hsorted]
  change readEntries configFields [] _ _ = _
  rw [readEntries_cons rfl (read_nested (read_toggles origin _ _ _) _ _),
    readEntries_cons rfl (read_nested (read_componentOptions origin _ _ _) _ _),
    readEntries_cons rfl rfl,
    readEntries_cons rfl (read_field (htexts _ _) _ _),
    readEntries_cons rfl (read_field (htexts _ _) _ _),
    readEntries_cons rfl rfl, readEntries_cons rfl rfl, readEntries_cons rfl rfl,
    readEntries_cons rfl rfl,
    readEntries_cons rfl (read_nested (read_options origin _ _ _) _ _),
    readEntries_cons rfl rfl, readEntries]
  rfl

end Parts

section Document

open Toml (Value isInt)

variable {n : ℕ}

theorem flat_bool (b : Bool) : (Value.bool b).Flat := .simple (.bool b)

theorem flat_texts (xs : List String) : (Value.array (xs.map .string)).Flat := by
  refine .array fun v hv => ?_
  obtain ⟨x, -, rfl⟩ := List.mem_map.mp hv
  exact .string x

-- The keys of a document are the names of the fields that it is read into.
theorem orderly_toggles (t : Toggles) : Orderly n t.fields :=
  .of_keys rfl (by decide : ∀ key ∈ toggleFields.map (·.name), _)
    (by simp [Toggles.fields, flat_bool])

theorem orderly_thresholds {t : Thresholds Float}
    (h : ∀ x ∈ [t.string, t.number, t.array, t.default], (Value.double x).Flat) :
    Orderly n (thresholdValues t) :=
  .of_keys rfl (by decide : ∀ key ∈ thresholdFields.map (·.name), _)
    (by simpa [thresholdValues] using h)

theorem orderly_hookWeights {w : HookWeights Float}
    (h : ∀ x ∈ [w.state, w.effect, w.custom], (Value.double x).Flat) :
    Orderly n (hookWeightValues w) :=
  .of_keys rfl (by decide : ∀ key ∈ hookWeightFields.map (·.name), _)
    (by simpa [hookWeightValues] using h)

theorem orderly_styleWeights {w : StyleWeights Float}
    (h : ∀ x ∈ [w.inline, w.classNames, w.styled], (Value.double x).Flat) :
    Orderly n (styleWeightValues w) :=
  .of_keys rfl (by decide : ∀ key ∈ styleWeightFields.map (·.name), _)
    (by simpa [styleWeightValues] using h)

theorem orderly_options {o : Options Float} (hdepth : (Value.int o.maxDepth).Flat)
    (hweights : ∀ x ∈ [o.structureWeight, o.valueWeight], (Value.double x).Flat)
    (hthresholds : Orderly n (thresholdValues o.thresholds)) :
    Orderly (n + 1) (optionValues o) := by
  have hvalues : Orderly (n + 1) ((optionValues o).take 7) :=
    .of_keys rfl (by decide : ∀ key ∈ (optionFields.map (·.name)).take 7, _)
      (by simpa [optionValues, flat_bool, hdepth] using hweights)
  exact .table hvalues (by decide) hthresholds
    (by decide : (thresholdFields.map (·.name)).Nodup)

theorem orderly_componentOptions {o : ComponentOptions Float}
    (hvalues : ∀ x ∈ [o.threshold, o.structureWeight, o.hooksWeight, o.stylesWeight],
      (Value.double x).Flat)
    (hhooks : Orderly n (hookWeightValues o.hookWeights))
    (hstyles : Orderly n (styleWeightValues o.styleWeights)) :
    Orderly (n + 1) (componentValues o) := by
  have hvalues : Orderly (n + 1) ((componentValues o).take 6) :=
    .of_keys rfl (by decide : ∀ key ∈ (componentFields.map (·.name)).take 6, _)
      (by simpa [componentValues, flat_bool] using hvalues)
  have hfirst : Orderly (n + 1) ((componentValues o).take 7) :=
    .table hvalues (by decide) hhooks (by decide : (hookWeightFields.map (·.name)).Nodup)
  exact .table hfirst (by decide) hstyles
    (by decide : (styleWeightFields.map (·.name)).Nodup)

namespace Config

-- The doubles among the settings.
def doubles {α : Type} (c : Config α) : List α :=
  c.moduleCutoffPercent ::
    ((thresholdsOf c).map (·.2) ++ (weightsOf c).flatMap fun g => g.2.map (·.2))

-- All of them are finite in settings that a scan can work with.
theorem InRange.isFinite {c : Config Float} (h : c.InRange) :
    ∀ x ∈ c.doubles, x.isFinite = true := by
  have hzero : (Scalar.zero : Float).isFinite = true := isFinite_ofNat 0
  refine List.forall_mem_cons.mpr ⟨?_, List.forall_mem_append.mpr ⟨?_, ?_⟩⟩
  · exact isFinite_of_le_of_le hzero (isFinite_ofNat 100) (Scalar.le_of_lt h.cutoff_pos)
      h.cutoff_le
  · intro x hx
    obtain ⟨t, ht, rfl⟩ := List.mem_map.mp hx
    obtain ⟨hlow, hhigh⟩ := Bool.and_eq_true_iff.mp (h.shares t ht)
    exact isFinite_of_le_of_le hzero (isFinite_ofNat 1) hlow hhigh
  · intro x hx
    obtain ⟨g, hg, hx⟩ := List.mem_flatMap.mp hx
    obtain ⟨w, hw, rfl⟩ := List.mem_map.mp hx
    exact (Bool.and_eq_true_iff.mp ((h.weights g hg).1 w hw)).2

theorem orderly_fields {c : Config Float} (hnumbers : ∀ n ∈ c.numbers, isInt n = true)
    (hdoubles : ∀ x ∈ c.doubles, (Value.double x).Flat) : Orderly 2 c.fields := by
  have hints : ∀ n ∈ c.numbers, (Value.int n).Flat := fun n hn => .simple (.int (hnumbers n hn))
  simp only [numbers, List.forall_mem_cons] at hints
  obtain ⟨hlines, hthreads, hmemory, hdepth, -⟩ := hints
  have hcutoff : (Value.double c.moduleCutoffPercent).Flat := hdoubles _ List.mem_cons_self
  have hvalues : Orderly 2 (c.fields.take 8) :=
    .of_keys rfl (by decide : ∀ key ∈ (configFields.map (·.name)).take 8, _)
      (by simp [fields, flat_bool, flat_texts, hlines, hthreads, hmemory, hcutoff])
  have hshares : ∀ t ∈ thresholdsOf c, (Value.double t.2).Flat := fun t ht =>
    hdoubles t.2 (List.mem_cons_of_mem _ (List.mem_append_left _ (List.mem_map_of_mem ht)))
  have hweights : ∀ g ∈ weightsOf c, ∀ w ∈ g.2, (Value.double w.2).Flat := fun g hg w hw =>
    hdoubles w.2 (List.mem_cons_of_mem _ (List.mem_append_right _
      (List.mem_flatMap.mpr ⟨g, hg, List.mem_map_of_mem hw⟩)))
  simp only [thresholdsOf, weightsOf, List.forall_mem_cons] at hshares hweights
  obtain ⟨hstring, hnumber, harray, hdefault, hthreshold, -⟩ := hshares
  obtain ⟨⟨hstructure, hvalue, -⟩, ⟨hstructure', hhooks, hstyles, -⟩, ⟨hstate, heffect, hcustom, -⟩,
    ⟨hinline, hnames, hstyled, -⟩, -⟩ := hweights
  have hresources : Orderly 1 (optionValues c.resources) :=
    orderly_options hdepth (by simp [hstructure, hvalue])
      (orderly_thresholds (by simp [hstring, hnumber, harray, hdefault]))
  have hcomponents : Orderly 1 (componentValues c.components) :=
    orderly_componentOptions (by simp [hthreshold, hstructure', hhooks, hstyles])
      (orderly_hookWeights (by simp [hstate, heffect, hcustom]))
      (orderly_styleWeights (by simp [hinline, hnames, hstyled]))
  have hfirst : Orderly 2 (c.fields.take 9) :=
    .table hvalues (by decide) (orderly_toggles c.categories)
      (by decide : (toggleFields.map (·.name)).Nodup)
  have hsecond : Orderly 2 (c.fields.take 10) :=
    .table hfirst (by decide) hresources (by decide : (optionFields.map (·.name)).Nodup)
  exact .table hsecond (by decide) hcomponents
    (by decide : (componentFields.map (·.name)).Nodup)

theorem layerOfText_write {c : Config Float} (h : Orderly 2 c.fields) (path : String) :
    layerOfText path (Toml.write c.fields) =
      .ok (Raw.ofToml (.file path) (.table c.fields)) := by
  have hnodup : (c.fields.map (·.1)).Nodup := (by decide : (configFields.map (·.name)).Nodup)
  rw [layerOfText, Toml.read?_write h hnodup (by decide)]

-- Settings that a scan can work with load back from their text, if no whole number is too large for
-- a document and nothing else is said. It is assumed that doubles read back from their text.
theorem load_text {c : Config Float} (hfault : c.fault? = none)
    (hnumbers : ∀ n ∈ c.numbers, n ≤ 2 ^ 63 - 1) (hdoubles : ∀ x ∈ c.doubles, readsBack x = true) :
    ∃ text, c.text = .ok text ∧ ∀ (d : Disk) (sources : Sources)
      (environment : List (String × String)) (path : String),
      sources.paths d.isFile = .ok [path] → d.readText path = .ok text →
      (∀ e ∈ environment, Environment.keysOf e.1 = none) →
      load d sources environment = .ok c := by
  have hints : ∀ n ∈ c.numbers, isInt n = true := by
    intro n hn
    have hle := hnumbers n hn
    have hlimit : signedLimit = 2 ^ 63 := rfl
    simp only [isInt, hlimit, Bool.and_eq_true, decide_eq_true_eq]
    omega
  have hflat : ∀ x ∈ c.doubles, (Value.double x).Flat := fun x hx =>
    have hfinite := (inRange_of_fault? hfault).isFinite x hx
    .simple (.double hfinite (readDouble_write hfinite (hdoubles x hx)))
  have htext : c.text = .ok (Toml.write c.fields) := if_pos (List.all_eq_true.mpr hints)
  refine ⟨_, htext, fun d sources environment path hpaths hread henvironment => ?_⟩
  have hlayer : layerOfFile d path = .ok (Raw.ofToml (.file path) (.table c.fields)) := by
    rw [layerOfFile, hread]
    exact layerOfText_write (orderly_fields hints hflat) path
  have hjoined : joinLayers [Raw.ofToml (.file path) (.table c.fields),
      Environment.read environment] =
        .table .environment (Raw.ofTomlFields (.file path) c.fields) := by
    change Raw.merge (Raw.merge _ (.table (.file path) (Raw.ofTomlFields (.file path) c.fields))) _ = _
    rw [Environment.read_eq_empty henvironment,
      Raw.merge_empty_left _ _ (Raw.ascending_ofTomlFields _ _), Raw.merge_empty_right]
  refine load_eq_ok_iff.mpr ⟨merged_eq_ok_iff.mpr ⟨[path], _, hpaths,
    mapM_cons_eq_ok_iff.mpr ⟨_, [], hlayer, rfl, rfl⟩, ?_⟩, hfault⟩
  rw [List.singleton_append, hjoined]
  exact readConfig_fields (.file path) c

-- The largest whole number that a document can hold, a zero with a sign, and names with quotes, line
-- breaks and characters that cannot be seen.
def oddSettings : Config Float :=
  { standard with
    ioThreads := 2 ^ 63 - 1
    ignoreDirs := ["both \x22 and \x27\n", "\x27\x27\x27\x01", "\x22\x22\x22\\"]
    ignorePatterns := ["\n", "", "*.min.js"]
    resources := { Options.standard with thresholds := ⟨-0, 1, 0.1, 0.05⟩ } }

def renderedDisk (text : String) : Disk :=
  ⟨.directory [("dupecheck.toml", .file (some text))], []⟩

theorem find_renderedDisk (text : String) : (renderedDisk text).find true "dupecheck.toml" =
    .ok ⟨.file (some text), [(renderedDisk text).root], Files.linkLimit⟩ := by
  have hstart : "dupecheck.toml".startsWith "/" = false := by decide +kernel
  have hsteps : Files.pathSteps "dupecheck.toml" = ["dupecheck.toml"] := by decide
  rw [Disk.find, hstart, hsteps]
  rfl

theorem load_text_odd : ∃ text, oddSettings.text = .ok text ∧
    load (renderedDisk text) ⟨none, some "dupecheck.toml", none⟩ [("PATH", "/bin")] =
      .ok oddSettings := by
  have hfault : oddSettings.fault?.isNone = true := by decide +kernel
  obtain ⟨text, htext, hload⟩ := load_text (Option.isNone_iff_eq_none.mp hfault)
    (by decide) (by decide +kernel)
  have hfind := find_renderedDisk text
  have hfile : (renderedDisk text).isFile "dupecheck.toml" = true := by
    rw [Disk.isFile, Disk.find?, hfind]
  have hread : (renderedDisk text).readText "dupecheck.toml" = .ok text := by
    rw [Disk.readText, hfind]
  have hpaths : (⟨none, some "dupecheck.toml", none⟩ : Sources).paths (renderedDisk text).isFile =
      .ok ["dupecheck.toml"] := by
    simp [Sources.paths, hfile]
  exact ⟨text, htext, hload _ _ _ _ hpaths hread (by decide)⟩

end Config

end Document

end Likeness.Settings
