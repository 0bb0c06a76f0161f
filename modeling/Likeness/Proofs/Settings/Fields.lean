import Likeness.Proofs.Settings.Overlaid
import Likeness.Settings.Config
import Mathlib.Data.List.Nodup

namespace Likeness.Settings

variable {σ τ α β : Type}

-- A setting of a structure: the way to it, how it is read, and the value it has.
structure Setting (σ : Type) where
  {α : Type}
  way : Way
  decode : Decode α
  get : σ → α

namespace Setting

-- A setting of a part of a structure.
def inPart (step : String × Nat) (get : σ → τ) (t : Setting τ) : Setting σ :=
  ⟨step :: t.way, t.decode, fun s => t.get (get s)⟩

-- The value that a setting comes to: that of what was found, or the one it had before.
def Told (t : Setting σ) (found : Option Raw) (before after : σ) : Prop :=
  match found with
  | some raw => ∃ path, t.decode path raw = .ok (t.get after)
  | none => t.get after = t.get before

-- Whether a reader of a structure gives a setting the value that stands at the end of its way.
def ReadBy (read : List String → Raw → σ → Except Problem σ) (t : Setting σ) : Prop :=
  ∀ path raw before after, raw.Ordered → read path raw before = .ok after →
    t.Told (raw.found? t.way) before after

end Setting

-- Whether a field has nothing to do with a value.
def Field.Keeps (f : Field σ) (get : σ → α) : Prop :=
  ∀ path raw before after, f.read path raw before = .ok after → get after = get before

@[simp] theorem name_field (name : String) (decode : Decode α) (put : σ → α → σ) :
    (field name decode put).name = name := rfl

@[simp] theorem name_nested (name : String) (read : List String → Raw → τ → Except Problem τ)
    (get : σ → τ) (put : σ → τ → σ) : (nested name read get put).name = name := rfl

theorem map_eq_ok_iff {ε : Type} {f : α → β} {e : Except ε α} {b : β} :
    e.map f = .ok b ↔ ∃ a, e = .ok a ∧ f a = b := by
  cases e with
  | error problem => simp [Except.map]
  | ok a => simp [Except.map]

@[simp] theorem keeps_field_iff (name : String) (decode : Decode α) (put : σ → α → σ)
    (get : σ → β) : (field name decode put).Keeps get ↔
      ∀ path raw x, decode path raw = .ok x → ∀ s, get (put s x) = get s := by
  constructor
  · intro h path raw x hx s
    exact h path raw s (put s x) (map_eq_ok_iff.mpr ⟨x, hx, rfl⟩)
  · intro h path raw before after hread
    obtain ⟨x, hx, rfl⟩ := map_eq_ok_iff.mp hread
    exact h path raw x hx before

@[simp] theorem keeps_nested (name : String) (read : List String → Raw → τ → Except Problem τ)
    (part : σ → τ) (put : σ → τ → σ) (get : σ → β) (h : ∀ s x, get (put s x) = get s) :
    (nested name read part put).Keeps get := by
  intro path raw before after hread
  obtain ⟨x, -, rfl⟩ := map_eq_ok_iff.mp hread
  exact h before x

namespace Setting

theorem Told.trans {t : Setting σ} {found : Option Raw} {s₁ s₂ s₃ : σ} (h : t.Told found s₁ s₂)
    (hkeep : t.get s₃ = t.get s₂) : t.Told found s₁ s₃ := by
  unfold Told at h ⊢
  rw [hkeep]
  exact h

theorem Told.of_eq {t : Setting σ} {found : Option Raw} {s₁ s₂ s₃ : σ}
    (hkeep : t.get s₂ = t.get s₁) (h : t.Told found s₂ s₃) : t.Told found s₁ s₃ := by
  unfold Told at h ⊢
  rw [← hkeep]
  exact h

theorem readBy_field (name : String) (decode : Decode α) (put : σ → α → σ) (get : σ → α)
    (h : ∀ s x, get (put s x) = x) : ReadBy (field name decode put).read ⟨[], decode, get⟩ := by
  intro path raw before after _ hread
  obtain ⟨x, hx, rfl⟩ := map_eq_ok_iff.mp hread
  exact ⟨path, hx.trans (congrArg _ (h before x).symm)⟩

section Structure

variable {fields : List (Field σ)} {f : Field σ} {t : Setting σ}

-- Of entries each key of which is there once, that of a field tells its setting.
theorem told_readEntries (hfind : fields.find? (·.name == f.name) = some f)
    (hread : t.ReadBy f.read) (hkeep : ∀ g ∈ fields, g.name ≠ f.name → g.Keeps t.get)
    {entries : List (String × Raw)} (hkeys : Raw.Ascending entries)
    (hentries : ∀ e ∈ entries, e.2.Ordered) {path : List String} {before after : σ}
    (h : readEntries fields path entries before = .ok after) :
    t.Told ((Raw.lookup f.name entries).bind (Raw.found? t.way)) before after := by
  induction entries generalizing before with
  | nil =>
    cases h
    rfl
  | cons entry rest ih =>
    obtain ⟨key, raw⟩ := entry
    have hrest {between : σ} := @ih (List.pairwise_cons.mp hkeys).2
      (fun e he => hentries e (List.mem_cons_of_mem _ he)) between
    unfold readEntries at h
    split at h
    · cases h
    · rename_i g hg
      split at h
      · rename_i between hbetween
        rw [Raw.lookup_cons]
        by_cases hkey : key = f.name
        · subst hkey
          obtain rfl := Option.some.inj (hg.symm.trans hfind)
          have hraw := hread _ _ _ _ (hentries _ List.mem_cons_self) hbetween
          have hlast := hrest h
          rw [hkeys.lookup_tail] at hlast
          rw [if_pos rfl]
          exact hraw.trans hlast
        · have hname : g.name = key := by simpa using List.find?_some hg
          have hother := hkeep g (List.mem_of_find?_eq_some hg) (hname ▸ hkey)
          rw [if_neg hkey]
          exact .of_eq (hother _ _ _ _ hbetween) (hrest h)
      · cases h

theorem keep_readPositions {get : σ → α} (hkeep : ∀ g ∈ fields, g.Keeps get) {items : List Raw}
    {origin : Origin} {length place : Nat} {path : List String} {before after : σ}
    (h : readPositions fields origin length path place items before = .ok after) :
    get after = get before := by
  induction items generalizing fields place before with
  | nil =>
    rw [readPositions] at h
    cases h
    rfl
  | cons raw rest ih =>
    cases fields with
    | nil =>
      unfold readPositions at h
      dsimp only at h
      split at h
      · cases h
      · cases h
        rfl
    | cons g fields =>
      unfold readPositions at h
      dsimp only at h
      split at h
      · rename_i between hbetween
        rw [ih (fun g hg => hkeep g (List.mem_cons_of_mem _ hg)) h]
        exact hkeep g List.mem_cons_self _ _ _ _ hbetween
      · cases h

-- Of a list, the item in the place of a field tells its setting.
theorem told_readPositions {i : Nat} (hplace : fields[i]? = some f)
    (hnames : (fields.map (·.name)).Nodup) (hread : t.ReadBy f.read)
    (hkeep : ∀ g ∈ fields, g.name ≠ f.name → g.Keeps t.get) {items : List Raw}
    (hitems : ∀ r ∈ items, r.Ordered) {origin : Origin} {length place : Nat}
    {path : List String} {before after : σ}
    (h : readPositions fields origin length path place items before = .ok after) :
    t.Told (items[i]?.bind (Raw.found? t.way)) before after := by
  induction items generalizing fields i place before with
  | nil =>
    rw [readPositions] at h
    cases h
    rfl
  | cons raw rest ih =>
    cases fields with
    | nil => cases hplace
    | cons g fields =>
      obtain ⟨hname, hrest⟩ := List.nodup_cons.mp hnames
      unfold readPositions at h
      dsimp only at h
      split at h
      · rename_i between hbetween
        cases i with
        | zero =>
          obtain rfl : g = f := Option.some.inj hplace
          have hraw := hread _ _ _ _ (hitems raw List.mem_cons_self) hbetween
          refine hraw.trans (keep_readPositions (fun f' hf' => ?_) h)
          refine hkeep f' (List.mem_cons_of_mem _ hf') fun hsame => hname ?_
          exact List.mem_map.mpr ⟨f', hf', hsame⟩
        | succ i =>
          have hplace : fields[i]? = some f := hplace
          have hne : g.name ≠ f.name := fun hsame =>
            hname (List.mem_map.mpr ⟨f, List.mem_of_getElem? hplace, hsame.symm⟩)
          refine .of_eq (hkeep g List.mem_cons_self hne _ _ _ _ hbetween) ?_
          exact ih hplace hrest (fun f' hf' => hkeep f' (List.mem_cons_of_mem _ hf'))
            (fun r hr => hitems r (List.mem_cons_of_mem _ hr)) h
      · cases h

theorem find?_name_eq {fields : List (Field σ)} (hnames : (fields.map (·.name)).Nodup) {i : Nat}
    {f : Field σ} (hplace : fields[i]? = some f) :
    fields.find? (·.name == f.name) = some f := by
  have hf := List.mem_of_getElem? hplace
  cases hfind : fields.find? (·.name == f.name) with
  | none => simpa using List.find?_eq_none.mp hfind f hf
  | some g =>
    have hname : g.name = f.name := by simpa using List.find?_some hfind
    have hg := List.mem_of_find?_eq_some hfind
    rw [List.inj_on_of_nodup_map hnames hg hf hname]

-- A structure reads a setting of a field, for which it leaves the value to that field.
theorem readBy_structure (name : String) {i : Nat} (hplace : fields[i]? = some f)
    (hnames : (fields.map (·.name)).Nodup) (hread : t.ReadBy f.read)
    (hkeep : ∀ g ∈ fields, g.name ≠ f.name → g.Keeps t.get) :
    ReadBy (readStructure name fields) ⟨(f.name, i) :: t.way, t.decode, t.get⟩ := by
  intro path raw before after hordered h
  cases hordered with
  | leaf origin l => cases h
  | list origin hitems => exact told_readPositions hplace hnames hread hkeep hitems h
  | table origin hkeys hentries =>
    exact told_readEntries (find?_name_eq hnames hplace) hread hkeep hkeys hentries h

theorem readBy_leaf (name : String) {i : Nat} {key : String} {decode : Decode α}
    {put : σ → α → σ} {get : σ → α} (hplace : fields[i]? = some (field key decode put))
    (hnames : (fields.map (·.name)).Nodup) (hput : ∀ s x, get (put s x) = x)
    (hkeep : ∀ g ∈ fields, g.name ≠ key → g.Keeps get) :
    ReadBy (readStructure name fields) ⟨[(key, i)], decode, get⟩ :=
  readBy_structure name hplace hnames (readBy_field key decode put get hput) hkeep

theorem readBy_nested {t : Setting τ} {read : List String → Raw → τ → Except Problem τ}
    (hread : t.ReadBy read) (name : String) {get : σ → τ} {put : σ → τ → σ}
    (hput : ∀ s x, get (put s x) = x) :
    ReadBy (nested name read get put).read ⟨t.way, t.decode, fun s => t.get (get s)⟩ := by
  intro path raw before after hordered h
  obtain ⟨x, hx, rfl⟩ := map_eq_ok_iff.mp h
  have htold := hread _ _ _ _ hordered hx
  unfold Told at htold ⊢
  dsimp only
  rw [hput]
  exact htold

-- A structure reads the settings of a field that is itself a structure.
theorem readBy_part (name : String) {i : Nat} {key : String}
    {read : List String → Raw → τ → Except Problem τ} {get : σ → τ} {put : σ → τ → σ}
    (hplace : fields[i]? = some (nested key read get put))
    (hnames : (fields.map (·.name)).Nodup) (hput : ∀ s x, get (put s x) = x)
    (hkeep : ∀ g ∈ fields, g.name ≠ key → g.Keeps get) {settings : List (Setting τ)}
    (hsettings : ∀ t ∈ settings, t.ReadBy read) :
    ∀ t ∈ settings.map (inPart (key, i) get), t.ReadBy (readStructure name fields) := by
  intro t ht
  obtain ⟨part, hpart, rfl⟩ := List.mem_map.mp ht
  refine readBy_structure name hplace hnames (readBy_nested (hsettings part hpart) key hput) ?_
  intro g hg hne path raw before after h
  exact congrArg part.get (hkeep g hg hne path raw before after h)

end Structure

end Setting

section Settings

open Components Similarity

def thresholdSettings : List (Setting (Thresholds Float)) :=
  [⟨[("string", 0)], decodeDouble, (·.string)⟩, ⟨[("number", 1)], decodeDouble, (·.number)⟩,
    ⟨[("array", 2)], decodeDouble, (·.array)⟩, ⟨[("default", 3)], decodeDouble, (·.default)⟩]

def optionSettings : List (Setting (Options Float)) :=
  [⟨[("compare_strings", 0)], decodeBool, (·.compareStrings)⟩,
    ⟨[("compare_numbers", 1)], decodeBool, (·.compareNumbers)⟩,
    ⟨[("compare_arrays", 2)], decodeBool, (·.compareArrays)⟩,
    ⟨[("compare_objects", 3)], decodeBool, (·.compareObjects)⟩,
    ⟨[("max_depth", 4)], decodeNat "usize", (·.maxDepth)⟩,
    ⟨[("structure_weight", 5)], decodeDouble, (·.structureWeight)⟩,
    ⟨[("value_weight", 6)], decodeDouble, (·.valueWeight)⟩] ++
  thresholdSettings.map (.inPart ("thresholds", 7) (·.thresholds))

def hookWeightSettings : List (Setting (HookWeights Float)) :=
  [⟨[("state", 0)], decodeDouble, (·.state)⟩, ⟨[("effect", 1)], decodeDouble, (·.effect)⟩,
    ⟨[("custom", 2)], decodeDouble, (·.custom)⟩]

def styleWeightSettings : List (Setting (StyleWeights Float)) :=
  [⟨[("inline", 0)], decodeDouble, (·.inline)⟩,
    ⟨[("class_names", 1)], decodeDouble, (·.classNames)⟩,
    ⟨[("styled", 2)], decodeDouble, (·.styled)⟩]

def componentSettings : List (Setting (ComponentOptions Float)) :=
  [⟨[("threshold", 0)], decodeDouble, (·.threshold)⟩,
    ⟨[("compare_hooks", 1)], decodeBool, (·.compareHooks)⟩,
    ⟨[("compare_styles", 2)], decodeBool, (·.compareStyles)⟩,
    ⟨[("structure_weight", 3)], decodeDouble, (·.structureWeight)⟩,
    ⟨[("hooks_weight", 4)], decodeDouble, (·.hooksWeight)⟩,
    ⟨[("styles_weight", 5)], decodeDouble, (·.stylesWeight)⟩] ++
  hookWeightSettings.map (.inPart ("hook_weights", 6) (·.hookWeights)) ++
  styleWeightSettings.map (.inPart ("style_weights", 7) (·.styleWeights))

def toggleSettings : List (Setting Toggles) :=
  [⟨[("functions", 0)], decodeBool, (·.functions)⟩, ⟨[("modules", 1)], decodeBool, (·.modules)⟩,
    ⟨[("resources", 2)], decodeBool, (·.resources)⟩,
    ⟨[("components", 3)], decodeBool, (·.components)⟩]

-- All settings of a scan that have no parts.
def Config.settings : List (Setting (Config Float)) :=
  [⟨[("min_function_lines", 0)], decodeNat "usize", (·.minFunctionLines)⟩,
    ⟨[("io_threads", 1)], decodeNat "usize", (·.ioThreads)⟩,
    ⟨[("memory_limit_mb", 2)], decodeNat "u64", (·.memoryLimitMb)⟩,
    ⟨[("exclude_package_files", 3)], decodeBool, (·.excludePackageFiles)⟩,
    ⟨[("ignore_dirs", 4)], decodeList decodeText, (·.ignoreDirs)⟩,
    ⟨[("ignore_patterns", 5)], decodeList decodeText, (·.ignorePatterns)⟩,
    ⟨[("skip_hidden", 6)], decodeBool, (·.skipHidden)⟩,
    ⟨[("module_cutoff_percent", 7)], decodeDouble, (·.moduleCutoffPercent)⟩] ++
  toggleSettings.map (.inPart ("categories", 8) (·.categories)) ++
  optionSettings.map (.inPart ("resources", 9) (·.resources)) ++
  componentSettings.map (.inPart ("components", 10) (·.components))

-- There are no other settings.
theorem Config.eq_of_settings {c c' : Config Float}
    (h : ∀ t ∈ settings, t.get c = t.get c') : c = c' := by
  obtain ⟨_, _, _, _, _, _, _, _, ⟨_, _, _, _⟩, ⟨_, _, _, _, _, _, _, ⟨_, _, _, _⟩⟩,
    ⟨_, _, _, _, _, _, ⟨_, _, _⟩, ⟨_, _, _⟩⟩⟩ := c
  obtain ⟨_, _, _, _, _, _, _, _, ⟨_, _, _, _⟩, ⟨_, _, _, _, _, _, _, ⟨_, _, _, _⟩⟩,
    ⟨_, _, _, _, _, _, ⟨_, _, _⟩, ⟨_, _, _⟩⟩⟩ := c'
  simpa [settings, toggleSettings, optionSettings, thresholdSettings, componentSettings,
    hookWeightSettings, styleWeightSettings, Setting.inPart, or_imp, forall_and, and_assoc] using h

theorem readBy_thresholds :
    ∀ t ∈ thresholdSettings, t.ReadBy (readStructure "Thresholds" thresholdFields) := by
  have hnames : (thresholdFields.map (·.name)).Nodup := by decide
  simp only [thresholdSettings, List.mem_cons, List.not_mem_nil, or_false, forall_eq_or_imp,
    forall_eq]
  refine ⟨?_, ?_, ?_, ?_⟩ <;>
    exact Setting.readBy_leaf _ rfl hnames (fun _ _ => rfl) (by simp [thresholdFields])

theorem readBy_options :
    ∀ t ∈ optionSettings, t.ReadBy (readStructure "ComparisonOptions" optionFields) := by
  have hnames : (optionFields.map (·.name)).Nodup := by decide
  refine List.forall_mem_append.mpr ⟨?_, ?_⟩
  · simp only [List.mem_cons, List.not_mem_nil, or_false, forall_eq_or_imp, forall_eq]
    refine ⟨?_, ?_, ?_, ?_, ?_, ?_, ?_⟩ <;>
      exact Setting.readBy_leaf _ rfl hnames (fun _ _ => rfl) (by simp [optionFields])
  · exact Setting.readBy_part _ rfl hnames (fun _ _ => rfl) (by simp [optionFields])
      readBy_thresholds

theorem readBy_hookWeights :
    ∀ t ∈ hookWeightSettings, t.ReadBy (readStructure "HookWeights" hookWeightFields) := by
  have hnames : (hookWeightFields.map (·.name)).Nodup := by decide
  simp only [hookWeightSettings, List.mem_cons, List.not_mem_nil, or_false, forall_eq_or_imp,
    forall_eq]
  refine ⟨?_, ?_, ?_⟩ <;>
    exact Setting.readBy_leaf _ rfl hnames (fun _ _ => rfl) (by simp [hookWeightFields])

theorem readBy_styleWeights :
    ∀ t ∈ styleWeightSettings, t.ReadBy (readStructure "StyleWeights" styleWeightFields) := by
  have hnames : (styleWeightFields.map (·.name)).Nodup := by decide
  simp only [styleWeightSettings, List.mem_cons, List.not_mem_nil, or_false, forall_eq_or_imp,
    forall_eq]
  refine ⟨?_, ?_, ?_⟩ <;>
    exact Setting.readBy_leaf _ rfl hnames (fun _ _ => rfl) (by simp [styleWeightFields])

theorem readBy_componentOptions :
    ∀ t ∈ componentSettings, t.ReadBy (readStructure "ComponentOptions" componentFields) := by
  have hnames : (componentFields.map (·.name)).Nodup := by decide
  refine List.forall_mem_append.mpr ⟨List.forall_mem_append.mpr ⟨?_, ?_⟩, ?_⟩
  · simp only [List.mem_cons, List.not_mem_nil, or_false, forall_eq_or_imp, forall_eq]
    refine ⟨?_, ?_, ?_, ?_, ?_, ?_⟩ <;>
      exact Setting.readBy_leaf _ rfl hnames (fun _ _ => rfl) (by simp [componentFields])
  · exact Setting.readBy_part _ rfl hnames (fun _ _ => rfl) (by simp [componentFields])
      readBy_hookWeights
  · exact Setting.readBy_part _ rfl hnames (fun _ _ => rfl) (by simp [componentFields])
      readBy_styleWeights

theorem readBy_toggles :
    ∀ t ∈ toggleSettings, t.ReadBy (readStructure "CategoryToggles" toggleFields) := by
  have hnames : (toggleFields.map (·.name)).Nodup := by decide
  simp only [toggleSettings, List.mem_cons, List.not_mem_nil, or_false, forall_eq_or_imp,
    forall_eq]
  refine ⟨?_, ?_, ?_, ?_⟩ <;>
    exact Setting.readBy_leaf _ rfl hnames (fun _ _ => rfl) (by simp [toggleFields])

theorem readBy_config :
    ∀ t ∈ Config.settings, t.ReadBy (readStructure "Config" configFields) := by
  have hnames : (configFields.map (·.name)).Nodup := by decide
  refine List.forall_mem_append.mpr ⟨List.forall_mem_append.mpr
    ⟨List.forall_mem_append.mpr ⟨?_, ?_⟩, ?_⟩, ?_⟩
  · simp only [List.mem_cons, List.not_mem_nil, or_false, forall_eq_or_imp, forall_eq]
    refine ⟨?_, ?_, ?_, ?_, ?_, ?_, ?_, ?_⟩ <;>
      exact Setting.readBy_leaf _ rfl hnames (fun _ _ => rfl) (by simp [configFields])
  · exact Setting.readBy_part _ rfl hnames (fun _ _ => rfl) (by simp [configFields])
      readBy_toggles
  · exact Setting.readBy_part _ rfl hnames (fun _ _ => rfl) (by simp [configFields])
      readBy_options
  · exact Setting.readBy_part _ rfl hnames (fun _ _ => rfl) (by simp [configFields])
      readBy_componentOptions

end Settings

end Likeness.Settings
