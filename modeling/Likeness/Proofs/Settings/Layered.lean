import Likeness.Proofs.Settings.Fields
import Likeness.Settings.Layers

namespace Likeness.Settings

section Results

variable {ε α β : Type}

theorem bind_eq_ok_iff {e : Except ε α} {f : α → Except ε β} {b : β} :
    e.bind f = .ok b ↔ ∃ a, e = .ok a ∧ f a = .ok b := by
  cases e with
  | error problem => simp [Except.bind]
  | ok a => simp [Except.bind]

theorem mapM_cons_eq_ok_iff {f : α → Except ε β} {a : α} {as : List α} {bs : List β} :
    (a :: as).mapM f = .ok bs ↔
      ∃ b rest, f a = .ok b ∧ as.mapM f = .ok rest ∧ bs = b :: rest := by
  rw [List.mapM_cons]
  constructor
  · intro h
    obtain ⟨b, hb, h⟩ := bind_eq_ok_iff.mp h
    obtain ⟨rest, hrest, h⟩ := bind_eq_ok_iff.mp h
    exact ⟨b, rest, hb, hrest, (Except.ok.inj h).symm⟩
  · rintro ⟨b, rest, hb, hrest, rfl⟩
    rw [hb, hrest]
    rfl

end Results

section Values

variable {α : Type}

-- Whether no table stands for a value.
def Decode.Plain (decode : Decode α) : Prop :=
  ∀ path raw x, decode path raw = .ok x → raw.isTable = false

theorem plain_nat (expected : String) : (decodeNat expected).Plain := by
  intro path raw x h
  cases raw with
  | leaf origin l => rfl
  | list origin items => rfl
  | table origin fields => cases h

-- Where a number stands does not change what it is read as.
theorem toOption_decodeNat (expected : String) (path path' : List String) (raw : Raw) :
    (decodeNat expected path raw).toOption = (decodeNat expected path' raw).toOption := by
  unfold decodeNat
  split
  · rfl
  · split <;> rfl
  · rfl

theorem plain_double : decodeDouble.Plain := by
  intro path raw x h
  cases raw with
  | leaf origin l => rfl
  | list origin items => rfl
  | table origin fields => cases h

theorem plain_bool : decodeBool.Plain := by
  intro path raw x h
  cases raw with
  | leaf origin l => rfl
  | list origin items => rfl
  | table origin fields => cases h

theorem plain_list (item : Decode α) : (decodeList item).Plain := by
  intro path raw x h
  cases raw with
  | leaf origin l => rfl
  | list origin items => rfl
  | table origin fields => cases h

theorem plain_settings : ∀ t ∈ Config.settings, t.decode.Plain := by
  simp only [Config.settings, toggleSettings, optionSettings, thresholdSettings, componentSettings,
    hookWeightSettings, styleWeightSettings, List.forall_mem_append, List.forall_mem_cons,
    List.forall_mem_map, List.not_mem_nil, false_imp_iff, implies_true, and_true, Setting.inPart,
    plain_nat, plain_double, plain_bool, plain_list]

end Values

-- A setting for which no table stands is what the layers come to.
theorem Setting.Told.settled {σ : Type} {t : Setting σ} (hplain : t.decode.Plain) {rs : List Raw}
    (hordered : ∀ r ∈ rs, r.Ordered) {before after : σ}
    (h : t.Told ((Raw.overlaid rs).bind (Raw.found? t.way)) before after) :
    t.Told (Raw.settled t.way rs) before after := by
  obtain ⟨hsome, hnone⟩ := Raw.settled_of_overlaid t.way hordered
  cases hfound : (Raw.overlaid rs).bind (Raw.found? t.way) with
  | none =>
    rw [hnone hfound]
    rw [hfound] at h
    exact h
  | some raw =>
    rw [hfound] at h
    obtain ⟨path, hdecode⟩ := h
    rw [hsome raw hfound (hplain path raw _ hdecode)]
    exact ⟨path, hdecode⟩

-- The way to a setting has at least one key.
theorem way_ne_nil : ∀ t ∈ Config.settings, t.way ≠ [] := by
  simp only [Config.settings, toggleSettings, optionSettings, thresholdSettings, componentSettings,
    hookWeightSettings, styleWeightSettings, List.forall_mem_append, List.forall_mem_cons,
    List.forall_mem_map, List.not_mem_nil, false_imp_iff, implies_true, and_true,
    Setting.inPart, ne_eq, reduceCtorEq, not_false_eq_true]

section Layers

open Files (Disk)

-- What a file says. One that is not there says nothing.
def layerAt (d : Disk) (path : Option String) : Except Refusal Raw :=
  match path.filter d.isFile with
  | some path => layerOfFile d path
  | none => .ok (.table .given [])

-- What the files of some sources say, each of which may say nothing.
def Sources.layers (d : Disk) (s : Sources) : Except Refusal (List Raw) :=
  [s.user, s.project, s.explicit].mapM (layerAt d)

variable {d : Disk}

theorem isTable_layerOfFile {path : String} {r : Raw} (h : layerOfFile d path = .ok r) :
    r.isTable = true := by
  unfold layerOfFile at h
  split at h
  · unfold layerOfText at h
    split at h
    · cases h
      rfl
    · cases h
  · cases h

theorem isTable_layerAt {path : Option String} {r : Raw} (h : layerAt d path = .ok r) :
    r.isTable = true := by
  unfold layerAt at h
  split at h
  · exact isTable_layerOfFile h
  · cases h
    rfl

-- Files that are not there change nothing.
theorem exists_mapM_layerAt {paths : List (Option String)} {layers : List Raw}
    (h : ((paths.filterMap id).filter d.isFile).mapM (layerOfFile d) = .ok layers) :
    ∃ all, paths.mapM (layerAt d) = .ok all ∧
      ∀ key, all.filterMap (Raw.field? key) = layers.filterMap (Raw.field? key) := by
  rw [List.filter_filterMap] at h
  induction paths generalizing layers with
  | nil =>
    cases h
    exact ⟨[], rfl, fun key => rfl⟩
  | cons path paths ih =>
    have hfirst : layerAt d path = match path.filter d.isFile with
      | some path => layerOfFile d path
      | none => .ok (.table .given []) := rfl
    rw [List.filterMap_cons] at h
    cases hpath : path.filter d.isFile with
    | none =>
      rw [id, hpath] at h
      rw [hpath] at hfirst
      obtain ⟨all, hall, hfields⟩ := ih h
      exact ⟨_, mapM_cons_eq_ok_iff.mpr ⟨_, all, hfirst, hall, rfl⟩, hfields⟩
    | some file =>
      rw [id, hpath] at h
      rw [hpath] at hfirst
      obtain ⟨layer, rest, hlayer, hrest, rfl⟩ := mapM_cons_eq_ok_iff.mp h
      obtain ⟨all, hall, hfields⟩ := ih hrest
      refine ⟨_, mapM_cons_eq_ok_iff.mpr ⟨layer, all, hfirst.trans hlayer, hall, rfl⟩, ?_⟩
      intro key
      rw [List.filterMap_cons, List.filterMap_cons, hfields key]

-- What the files say that are there is part of what all files say.
theorem exists_mapM_layerOfFile {paths : List (Option String)} {all : List Raw}
    (h : paths.mapM (layerAt d) = .ok all) :
    ∃ layers, ((paths.filterMap id).filter d.isFile).mapM (layerOfFile d) = .ok layers ∧
      layers ⊆ all := by
  rw [List.filter_filterMap]
  induction paths generalizing all with
  | nil => exact ⟨[], rfl, List.nil_subset _⟩
  | cons path paths ih =>
    obtain ⟨first, rest, hfirst, hrest, rfl⟩ := mapM_cons_eq_ok_iff.mp h
    obtain ⟨layers, hlayers, hsub⟩ := ih hrest
    rw [layerAt] at hfirst
    rw [List.filterMap_cons, id]
    cases hpath : path.filter d.isFile with
    | none => exact ⟨layers, hlayers, List.subset_cons_of_subset _ hsub⟩
    | some file =>
      rw [hpath] at hfirst
      exact ⟨first :: layers, mapM_cons_eq_ok_iff.mpr ⟨_, _, hfirst, hlayers, rfl⟩,
        List.cons_subset_cons _ hsub⟩

theorem forall_of_mapM {ε α β : Type} {f : α → Except ε β} {p : β → Prop}
    (hf : ∀ a b, f a = .ok b → p b) {as : List α} {bs : List β} (h : as.mapM f = .ok bs) :
    ∀ b ∈ bs, p b := by
  induction as generalizing bs with
  | nil =>
    cases h
    exact fun b hb => absurd hb List.not_mem_nil
  | cons a as ih =>
    obtain ⟨b, rest, hb, hrest, rfl⟩ := mapM_cons_eq_ok_iff.mp h
    exact List.forall_mem_cons.mpr ⟨hf a b hb, ih hrest⟩

-- Of the files that there are, only the one that was asked for has to be there.
theorem paths_eq_ok_iff {s : Sources} {isFile : String → Bool} {paths : List String} :
    s.paths isFile = .ok paths ↔ (∀ path, s.explicit = some path → isFile path = true) ∧
      paths = ([s.user, s.project, s.explicit].filterMap id).filter isFile := by
  unfold Sources.paths
  dsimp only
  have hsplit : [s.user, s.project, s.explicit] = [s.user, s.project] ++ [s.explicit] := rfl
  rw [hsplit, List.filterMap_append, List.filter_append]
  have hflip (found : List String) :
      (.ok found : Except Refusal (List String)) = .ok paths ↔ paths = found := by
    rw [Except.ok.injEq, eq_comm]
  cases s.explicit with
  | none => simp [hflip]
  | some path =>
    cases hfile : isFile path with
    | false => simp [hfile]
    | true => simp [hfile, hflip]

theorem ordered_joinLayers {layers : List Raw} (h : ∀ r ∈ layers, r.Ordered) :
    (joinLayers layers).Ordered := by
  unfold joinLayers
  have hunder := Raw.ordered_empty .given
  generalize Raw.table .given [] = under at hunder ⊢
  induction layers generalizing under with
  | nil => exact hunder
  | cons layer layers ih =>
    obtain ⟨hlayer, hlayers⟩ := List.forall_mem_cons.mp h
    exact ih hlayers _ (hunder.merge hlayer)

theorem isTable_read (environment : List (String × String)) :
    (Environment.read environment).isTable = true := by
  obtain ⟨origin, fields, hread⟩ := Environment.exists_read_eq_table environment
  rw [hread]
  rfl

theorem overlaid_table_cons (layers : List Raw) :
    Raw.overlaid (.table .given [] :: layers) = some (joinLayers layers) := by
  unfold joinLayers Raw.overlaid
  rw [List.foldl_cons, Option.merge_none_left]
  generalize Raw.table .given [] = under
  induction layers generalizing under with
  | nil => rfl
  | cons layer layers ih => exact ih (under.merge layer)

end Layers

namespace Config

open Files (Disk)

variable {d : Disk} {sources : Sources} {environment : List (String × String)} {c : Config Float}

-- The settings in the files and the environment, in or out of range.
def merged (d : Disk) (sources : Sources) (environment : List (String × String)) :
    Except Refusal (Config Float) := do
  let paths ← sources.paths d.isFile
  let layers ← paths.mapM (layerOfFile d)
  ofLayers d.current (layers ++ [Environment.read environment])

theorem load_eq (d : Disk) (sources : Sources) (environment : List (String × String)) :
    load d sources environment = (merged d sources environment).bind checked := by
  unfold load merged
  cases sources.paths d.isFile with
  | error r => rfl
  | ok paths =>
    simp only [bind, Except.bind]
    cases paths.mapM (layerOfFile d) <;> rfl

theorem checked_eq_ok_iff {c c' : Config Float} :
    c.checked = .ok c' ↔ c = c' ∧ c.fault? = none := by
  unfold checked
  cases c.fault? with
  | none => simp
  | some fault => simp

theorem load_eq_ok_iff : load d sources environment = .ok c ↔
    merged d sources environment = .ok c ∧ c.fault? = none := by
  rw [load_eq, bind_eq_ok_iff]
  simp only [checked_eq_ok_iff]
  constructor
  · rintro ⟨c', hc', rfl, hfault⟩
    exact ⟨hc', hfault⟩
  · rintro ⟨hc, hfault⟩
    exact ⟨c, hc, rfl, hfault⟩

theorem merged_eq_ok_iff : merged d sources environment = .ok c ↔
    ∃ paths layers, sources.paths d.isFile = .ok paths ∧
      paths.mapM (layerOfFile d) = .ok layers ∧
      readConfig (joinLayers (layers ++ [Environment.read environment])) = .ok c := by
  have hread (layers : List Raw) : ofLayers d.current layers = .ok c ↔
      readConfig (joinLayers layers) = .ok c := by
    unfold ofLayers
    split <;> simp_all
  unfold merged
  constructor
  · intro h
    obtain ⟨paths, hpaths, h⟩ := bind_eq_ok_iff.mp h
    obtain ⟨layers, hlayers, h⟩ := bind_eq_ok_iff.mp h
    exact ⟨paths, layers, hpaths, hlayers, (hread _).mp h⟩
  · rintro ⟨paths, layers, hpaths, hlayers, h⟩
    exact bind_eq_ok_iff.mpr ⟨paths, hpaths, bind_eq_ok_iff.mpr ⟨layers, hlayers, (hread _).mpr h⟩⟩

-- Each setting is what the layers come to on its way, with files that are not there as empty ones.
theorem told_of_merged (h : merged d sources environment = .ok c) :
    ∃ files, sources.layers d = .ok files ∧ ∀ t ∈ settings,
      t.Told (Raw.settled t.way (files ++ [Environment.read environment])) standard c := by
  obtain ⟨paths, layers, hpaths, hlayers, hread⟩ := merged_eq_ok_iff.mp h
  rw [(paths_eq_ok_iff.mp hpaths).2] at hlayers
  obtain ⟨files, hfiles, hfields⟩ := exists_mapM_layerAt hlayers
  refine ⟨files, hfiles, fun t ht => ?_⟩
  have henv := Environment.ordered_read environment
  have hordered : ∀ r ∈ layers ++ [Environment.read environment], r.Ordered :=
    List.forall_mem_append.mpr ⟨forall_of_mapM (fun _ _ hr => ordered_layerOfFile hr) hlayers,
      List.forall_mem_singleton.mpr henv⟩
  have htold := readBy_config t ht [] _ _ _ (ordered_joinLayers hordered) hread
  have hover := overlaid_table_cons (layers ++ [Environment.read environment])
  rw [← Option.bind_some (joinLayers _) (Raw.found? t.way), ← hover] at htold
  have hsettled := htold.settled (plain_settings t ht)
    (List.forall_mem_cons.mpr ⟨Raw.ordered_empty .given, hordered⟩)
  have htables : ∀ r ∈ layers ++ [Environment.read environment], r.isTable = true :=
    List.forall_mem_append.mpr ⟨forall_of_mapM (fun _ _ hr => isTable_layerOfFile hr) hlayers,
      List.forall_mem_singleton.mpr (isTable_read environment)⟩
  have htables' : ∀ r ∈ files ++ [Environment.read environment], r.isTable = true :=
    List.forall_mem_append.mpr ⟨forall_of_mapM (fun _ _ hr => isTable_layerAt hr) hfiles,
      List.forall_mem_singleton.mpr (isTable_read environment)⟩
  obtain ⟨⟨key, place⟩, way, hway⟩ := List.exists_cons_of_ne_nil (way_ne_nil t ht)
  rw [hway] at hsettled ⊢
  rw [Raw.settled_of_isTable key place way (List.forall_mem_cons.mpr ⟨rfl, htables⟩)] at hsettled
  rw [Raw.settled_of_isTable key place way htables', List.filterMap_append, hfields key,
    ← List.filterMap_append]
  exact hsettled

-- The highest layer that sets a key decides, wherever all layers have tables on the way to it. A
-- list in the place of a table decides for all settings below it, and what it does not reach is the
-- standard value. The settings are all there is to a result. The file that was asked for has to be
-- there.
theorem load_settled (d : Disk) (sources : Sources) (environment : List (String × String)) :
    (∀ c, load d sources environment = .ok c → ∃ files, sources.layers d = .ok files ∧
      ∀ t ∈ settings,
        t.Told (Raw.settled t.way (files ++ [Environment.read environment])) standard c ∧
        ((∀ layer ∈ files ++ [Environment.read environment], layer.throughTables t.way = true) →
          t.Told ((files ++ [Environment.read environment]).filterMap (Raw.keyed? t.way)).getLast?
            standard c)) ∧
    (∀ c c' : Config Float, (∀ t ∈ settings, t.get c = t.get c') → c = c') ∧
    ∀ path, sources.explicit = some path → d.isFile path = false →
      load d sources environment = .error (.missingFile path) := by
  refine ⟨fun c hload => ?_, fun c c' => eq_of_settings, fun path hpath hmissing => ?_⟩
  · obtain ⟨files, hfiles, htold⟩ := told_of_merged (load_eq_ok_iff.mp hload).1
    refine ⟨files, hfiles, fun t ht => ⟨htold t ht, fun hthrough => ?_⟩⟩
    rw [← Raw.settled_eq_getLast? t.way hthrough]
    exact htold t ht
  · unfold load Sources.paths
    rw [hpath]
    dsimp only
    rw [hmissing]
    rfl

def layeredDisk : Disk :=
  ⟨.directory [("user.toml", .file (some "[resources]\nmax_depth = 3\n")),
    ("project.toml", .file (some "[resources]\ncompare_strings = false\n")),
    ("asked.toml", .file (some "io_threads = 2\n"))], []⟩

def layeredSources : Sources := ⟨some "user.toml", some "project.toml", some "asked.toml"⟩

def layeredEnvironment : List (String × String) := [("DUPECHECK_RESOURCES__MAX_DEPTH", "7")]

theorem load_settled_four_layers : ∃ c files,
    load layeredDisk layeredSources layeredEnvironment = .ok c ∧
    layeredSources.layers layeredDisk = .ok files ∧
    (∀ t ∈ settings, t.Told
      ((files ++ [Environment.read layeredEnvironment]).filterMap (Raw.keyed? t.way)).getLast?
      standard c) ∧
    (c.ioThreads, c.resources.maxDepth, c.resources.compareStrings) = (2, 7, false) ∧
    load layeredDisk { layeredSources with explicit := some "other.toml" } layeredEnvironment =
      .error (.missingFile "other.toml") := by
  have hvalues : (load layeredDisk layeredSources layeredEnvironment).toOption.map
      (fun c => (c.ioThreads, c.resources.maxDepth, c.resources.compareStrings)) =
        some (2, 7, false) := by
    decide +kernel
  have hthrough : (layeredSources.layers layeredDisk).toOption.map
      (fun files => (files ++ [Environment.read layeredEnvironment]).all fun layer =>
        settings.all fun t => layer.throughTables t.way) = some true := by
    decide +kernel
  cases hload : load layeredDisk layeredSources layeredEnvironment with
  | error r =>
    rw [hload] at hvalues
    cases hvalues
  | ok c =>
    obtain ⟨files, hfiles, htold⟩ := (load_settled _ _ _).1 c hload
    rw [hload] at hvalues
    rw [hfiles] at hthrough
    have hall := Option.some.inj hthrough
    refine ⟨c, files, rfl, hfiles, fun t ht => (htold t ht).2 fun layer hlayer => ?_,
      Option.some.inj hvalues, (load_settled _ _ _).2.2 _ rfl (by decide +kernel)⟩
    exact List.all_eq_true.mp (List.all_eq_true.mp hall layer hlayer) t ht

def listedDisk : Disk :=
  ⟨.directory [("user.toml", .file (some "[resources]\nmax_depth = 3\n")),
    ("project.toml", .file (some "resources = [false]\n"))], []⟩

def listedSources : Sources := ⟨some "user.toml", some "project.toml", none⟩

def depthSetting : Setting (Config Float) :=
  ⟨[("resources", 9), ("max_depth", 4)], decodeNat "usize", (·.resources.maxDepth)⟩

-- A list in the place of a table resets what a lower layer has set there.
theorem load_reset_by_list : ∃ c files, load listedDisk listedSources [] = .ok c ∧
    listedSources.layers listedDisk = .ok files ∧
    ¬ ∀ t ∈ settings, t.Told
      ((files ++ [Environment.read []]).filterMap (Raw.keyed? t.way)).getLast? standard c := by
  have hvalue : (load listedDisk listedSources []).toOption.map (·.resources.maxDepth) =
      some 5 := by
    decide +kernel
  have hset : (listedSources.layers listedDisk).toOption.map (fun files =>
      ((files ++ [Environment.read []]).filterMap (Raw.keyed? depthSetting.way)).getLast?.map
        fun raw => (decodeNat "usize" [] raw).toOption) = some (some (some 3)) := by
    decide +kernel
  cases hload : load listedDisk listedSources [] with
  | error r =>
    rw [hload] at hvalue
    cases hvalue
  | ok c =>
    obtain ⟨files, hfiles, -⟩ := told_of_merged (load_eq_ok_iff.mp hload).1
    refine ⟨c, files, rfl, hfiles, fun hall => ?_⟩
    have hdepth : depthSetting.Told
        ((files ++ [Environment.read []]).filterMap (Raw.keyed? depthSetting.way)).getLast?
        standard c :=
      hall depthSetting (List.mem_of_getElem? (show settings[16]? = some depthSetting from rfl))
    rw [hload] at hvalue
    rw [hfiles] at hset
    obtain ⟨raw, hlast, hthree⟩ := Option.map_eq_some_iff.mp (Option.some.inj hset)
    rw [hlast] at hdepth
    obtain ⟨path, hdecode⟩ := hdepth
    rw [toOption_decodeNat "usize" [] path raw,
      show decodeNat "usize" path raw = .ok c.resources.maxDepth from hdecode] at hthree
    have hthree : c.resources.maxDepth = 3 := Option.some.inj hthree
    have hfive : c.resources.maxDepth = 5 := Option.some.inj hvalue
    omega

end Config

end Likeness.Settings
