import Likeness.Proofs.Settings.Layered

namespace Likeness.Settings

variable {σ τ α : Type}

-- Whether a reader understands some settings, wherever they stand and whatever they change.
def Understands (read : List String → Raw → σ → Except Problem σ) (raw : Raw) : Prop :=
  ∀ path s, ∃ s', read path raw s = .ok s'

-- A reader that understands the same settings everywhere, and with two of them also what they are
-- merged to.
structure Layerable (read : List String → Raw → σ → Except Problem σ) : Prop where
  steady : ∀ path raw s s', read path raw s = .ok s' → Understands read raw
  merge : ∀ a b, Understands read a → Understands read b → Understands read (a.merge b)

section Values

-- How a value is read if the path does not matter and no table stands for one.
structure Decode.Simple (decode : Decode α) : Prop where
  plain : decode.Plain
  steady : ∀ path path' raw x, decode path raw = .ok x → ∃ x', decode path' raw = .ok x'

theorem layerable_field {decode : Decode α} (h : decode.Simple) (name : String)
    (put : σ → α → σ) : Layerable (field name decode put).read where
  steady path raw s s' hread path' s₁ := by
    obtain ⟨x, hx, -⟩ := map_eq_ok_iff.mp hread
    obtain ⟨x', hx'⟩ := h.steady path path' raw x hx
    exact ⟨put s₁ x', map_eq_ok_iff.mpr ⟨x', hx', rfl⟩⟩
  merge a b ha hb path s := by
    obtain ⟨s', hs⟩ := hb path s
    obtain ⟨x, hx, -⟩ := map_eq_ok_iff.mp hs
    rw [Raw.merge_of_isTable_eq_false a (h.plain path b x hx)]
    exact hb path s

theorem simple_nat (expected : String) : (decodeNat expected).Simple where
  plain := plain_nat expected
  steady path path' raw x h := by
    unfold decodeNat at h ⊢
    split at h
    · exact ⟨_, rfl⟩
    · split at h
      · cases h
      · rename_i hn
        exact ⟨_, if_neg hn⟩
    · cases h

theorem simple_double : decodeDouble.Simple where
  plain := plain_double
  steady path path' raw x h := by
    unfold decodeDouble at h
    split at h
    · exact ⟨_, rfl⟩
    · exact ⟨_, rfl⟩
    · exact ⟨_, rfl⟩
    · cases h

theorem simple_bool : decodeBool.Simple where
  plain := plain_bool
  steady path path' raw x h := by
    unfold decodeBool at h
    split at h
    · exact ⟨_, rfl⟩
    · cases h

theorem exists_decodeText {path : List String} {raw : Raw} {x : String}
    (h : decodeText path raw = .ok x) (path' : List String) :
    ∃ x', decodeText path' raw = .ok x' := by
  unfold decodeText at h
  split at h
  · exact ⟨_, rfl⟩
  · exact ⟨_, rfl⟩
  · cases h

theorem exists_decodeItems {items : List Raw} {path : List String} {place : Nat}
    {values : List String} (h : decodeItems decodeText path place items = .ok values)
    (path' : List String) : ∃ values', decodeItems decodeText path' place items = .ok values' := by
  induction items generalizing place values with
  | nil => exact ⟨[], rfl⟩
  | cons raw rest ih =>
    unfold decodeItems at h ⊢
    split at h
    · rename_i value hvalue
      split at h
      · rename_i others hothers
        obtain ⟨value', hvalue'⟩ := exists_decodeText hvalue (path' ++ [toString place])
        obtain ⟨others', hothers'⟩ := ih hothers
        rw [hvalue', hothers']
        exact ⟨_, rfl⟩
      · cases h
    · cases h

theorem simple_texts : (decodeList decodeText).Simple where
  plain := plain_list decodeText
  steady path path' raw x h := by
    unfold decodeList at h
    split at h
    · exact exists_decodeItems h path'
    · cases h

end Values

section Structures

variable {fields : List (Field σ)}

theorem layerable_nested {read : List String → Raw → τ → Except Problem τ} (h : Layerable read)
    (name : String) (get : σ → τ) (put : σ → τ → σ) :
    Layerable (nested name read get put).read := by
  have hinside (raw : Raw) (hraw : Understands read raw) :
      Understands (nested name read get put).read raw := by
    intro path s
    obtain ⟨x, hx⟩ := hraw path (get s)
    exact ⟨put s x, map_eq_ok_iff.mpr ⟨x, hx, rfl⟩⟩
  have houtside (raw : Raw) (path : List String) (s s' : σ)
      (hread : (nested name read get put).read path raw s = .ok s') : Understands read raw := by
    obtain ⟨x, hx, -⟩ := map_eq_ok_iff.mp hread
    exact h.steady path raw _ x hx
  refine ⟨fun path raw s s' hread => hinside raw (houtside raw path s s' hread), ?_⟩
  intro a b ha hb path s
  obtain ⟨s₁, hs₁⟩ := ha path s
  obtain ⟨s₂, hs₂⟩ := hb path s
  exact hinside _ (h.merge a b (houtside a path s s₁ hs₁) (houtside b path s s₂ hs₂)) path s

-- Whether an entry stands for a field that understands it.
def Known (fields : List (Field σ)) (e : String × Raw) : Prop :=
  ∃ f, fields.find? (·.name == e.1) = some f ∧ Understands f.read e.2

theorem exists_readEntries {entries : List (String × Raw)} (h : ∀ e ∈ entries, Known fields e)
    (path : List String) (s : σ) : ∃ s', readEntries fields path entries s = .ok s' := by
  induction entries generalizing s with
  | nil => exact ⟨s, rfl⟩
  | cons e entries ih =>
    obtain ⟨⟨f, hf, hunderstands⟩, hrest⟩ := List.forall_mem_cons.mp h
    obtain ⟨s₁, hs₁⟩ := hunderstands (path ++ [e.1]) s
    obtain ⟨s', hs'⟩ := ih hrest s₁
    refine ⟨s', ?_⟩
    rw [readEntries, hf]
    dsimp only
    rw [hs₁]
    exact hs'

theorem known_of_readEntries (hfields : ∀ f ∈ fields, Layerable f.read)
    {entries : List (String × Raw)} {path : List String} {s s' : σ}
    (h : readEntries fields path entries s = .ok s') : ∀ e ∈ entries, Known fields e := by
  induction entries generalizing s with
  | nil => exact fun e he => absurd he List.not_mem_nil
  | cons e entries ih =>
    unfold readEntries at h
    split at h
    · cases h
    · rename_i f hf
      split at h
      · rename_i s₁ hs₁
        have hsteady := (hfields f (List.mem_of_find?_eq_some hf)).steady _ _ _ _ hs₁
        exact List.forall_mem_cons.mpr ⟨⟨f, hf, hsteady⟩, ih h⟩
      · cases h

theorem exists_readPositions (hfields : ∀ f ∈ fields, Layerable f.read) {items : List Raw}
    {origin : Origin} {length place : Nat} {path : List String} {s s' : σ}
    (h : readPositions fields origin length path place items s = .ok s') (path' : List String)
    (s₁ : σ) : ∃ s₂, readPositions fields origin length path' place items s₁ = .ok s₂ := by
  induction items generalizing fields place s s₁ with
  | nil => exact ⟨s₁, by rw [readPositions]⟩
  | cons raw rest ih =>
    cases fields with
    | nil =>
      unfold readPositions at h ⊢
      dsimp only at h ⊢
      split at h
      · cases h
      · rename_i horigin
        exact ⟨s₁, if_neg horigin⟩
    | cons f fields =>
      obtain ⟨hf, hrest⟩ := List.forall_mem_cons.mp hfields
      unfold readPositions at h ⊢
      dsimp only at h ⊢
      split at h
      · rename_i between hbetween
        obtain ⟨next, hnext⟩ := hf.steady _ _ _ _ hbetween (path' ++ [toString place]) s₁
        rw [hnext]
        exact ih hrest h next
      · cases h

theorem layerable_structure (name : String) (hfields : ∀ f ∈ fields, Layerable f.read) :
    Layerable (readStructure name fields) where
  steady path raw s s' hread path' s₁ := by
    cases raw with
    | leaf origin l => cases hread
    | list origin items => exact exists_readPositions hfields hread path' s₁
    | table origin entries =>
      exact exists_readEntries (known_of_readEntries hfields hread) path' s₁
  merge a b ha hb path s := by
    cases htable : b.isTable with
    | false =>
      rw [Raw.merge_of_isTable_eq_false a htable]
      exact hb path s
    | true =>
      obtain ⟨s₁, hs₁⟩ := ha path s
      obtain ⟨s₂, hs₂⟩ := hb path s
      cases b with
      | leaf origin l => cases htable
      | list origin items => cases htable
      | table above upper =>
        cases a with
        | leaf origin l => cases hs₁
        | list origin items => exact hb path s
        | table below under =>
          rw [Raw.merge_tables]
          refine exists_readEntries (fun e he => ?_) path s
          have hunder := known_of_readEntries hfields hs₁
          have hupper := known_of_readEntries hfields hs₂
          rcases Raw.mem_mergedFields he with he | he | ⟨v, w, hv, hw, hmerge⟩
          · exact hunder e he
          · exact hupper e he
          · obtain ⟨f, hf, hunderstands⟩ := hunder _ hv
            obtain ⟨g, hg, hunderstands'⟩ := hupper _ hw
            obtain rfl := Option.some.inj (hf.symm.trans hg)
            refine ⟨f, hf, ?_⟩
            rw [hmerge]
            exact (hfields f (List.mem_of_find?_eq_some hf)).merge v w hunderstands hunderstands'

end Structures

section Settings

theorem layerable_thresholds : Layerable (readStructure "Thresholds" thresholdFields) := by
  refine layerable_structure _ ?_
  simp only [thresholdFields, List.forall_mem_cons, List.not_mem_nil, false_imp_iff, implies_true,
    and_true, layerable_field, simple_double]

theorem layerable_options : Layerable (readStructure "ComparisonOptions" optionFields) := by
  refine layerable_structure _ ?_
  simp only [optionFields, List.forall_mem_cons, List.not_mem_nil, false_imp_iff, implies_true,
    and_true, layerable_field, simple_bool, simple_nat, simple_double,
    layerable_nested layerable_thresholds]

theorem layerable_hookWeights : Layerable (readStructure "HookWeights" hookWeightFields) := by
  refine layerable_structure _ ?_
  simp only [hookWeightFields, List.forall_mem_cons, List.not_mem_nil, false_imp_iff, implies_true,
    and_true, layerable_field, simple_double]

theorem layerable_styleWeights : Layerable (readStructure "StyleWeights" styleWeightFields) := by
  refine layerable_structure _ ?_
  simp only [styleWeightFields, List.forall_mem_cons, List.not_mem_nil, false_imp_iff, implies_true,
    and_true, layerable_field, simple_double]

theorem layerable_componentOptions :
    Layerable (readStructure "ComponentOptions" componentFields) := by
  refine layerable_structure _ ?_
  simp only [componentFields, List.forall_mem_cons, List.not_mem_nil, false_imp_iff, implies_true,
    and_true, layerable_field, simple_bool, simple_double,
    layerable_nested layerable_hookWeights, layerable_nested layerable_styleWeights]

theorem layerable_toggles : Layerable (readStructure "CategoryToggles" toggleFields) := by
  refine layerable_structure _ ?_
  simp only [toggleFields, List.forall_mem_cons, List.not_mem_nil, false_imp_iff, implies_true,
    and_true, layerable_field, simple_bool]

theorem layerable_config : Layerable (readStructure "Config" configFields) := by
  refine layerable_structure _ ?_
  simp only [configFields, List.forall_mem_cons, List.not_mem_nil, false_imp_iff, implies_true,
    and_true, layerable_field, simple_bool, simple_nat, simple_double, simple_texts,
    layerable_nested layerable_toggles, layerable_nested layerable_options,
    layerable_nested layerable_componentOptions]

theorem understands_joinLayers {layers : List Raw}
    (h : ∀ layer ∈ layers, Understands (readStructure "Config" configFields) layer) :
    Understands (readStructure "Config" configFields) (joinLayers layers) := by
  unfold joinLayers
  have hunder : Understands (readStructure "Config" configFields) (.table .given []) :=
    fun path s => ⟨s, rfl⟩
  generalize Raw.table .given [] = under at hunder ⊢
  induction layers generalizing under with
  | nil => exact hunder
  | cons layer layers ih =>
    obtain ⟨hlayer, hlayers⟩ := List.forall_mem_cons.mp h
    exact ih hlayers _ (layerable_config.merge under layer hunder hlayer)

theorem understands_of_readConfig {raw : Raw} {c : Config Float} (h : readConfig raw = .ok c) :
    Understands (readStructure "Config" configFields) raw :=
  layerable_config.steady _ _ _ _ h

-- Whether the file that was asked for is there, and each source is understood by itself.
def Sources.Understood (d : Files.Disk) (s : Sources) (environment : List (String × String)) :
    Prop :=
  (∀ path, s.explicit = some path → d.isFile path = true) ∧ ∃ files, s.layers d = .ok files ∧
    ∀ layer ∈ files ++ [Environment.read environment], ∃ c, readConfig layer = .ok c

-- How to find out whether sources without a file that was asked for are understood.
theorem Sources.understood_of_all {d : Files.Disk} {s : Sources}
    {environment : List (String × String)} (hexplicit : s.explicit = none)
    (h : (s.layers d).toOption.map (fun files =>
      (files ++ [Environment.read environment]).all fun layer =>
        (readConfig layer).toOption.isSome) = some true) : s.Understood d environment := by
  refine ⟨fun path hpath => ?_, ?_⟩
  · rw [hexplicit] at hpath
    cases hpath
  · cases hfiles : s.layers d with
    | error r =>
      rw [hfiles] at h
      cases h
    | ok files =>
      rw [hfiles] at h
      refine ⟨files, rfl, fun layer hlayer => ?_⟩
      have hread := List.all_eq_true.mp (Option.some.inj h) layer hlayer
      cases hc : readConfig layer with
      | error p =>
        rw [hc] at hread
        cases hread
      | ok c => exact ⟨c, rfl⟩

-- Sources that are understood one by one are understood together.
theorem Config.exists_merged {d : Files.Disk} {s : Sources} {environment : List (String × String)}
    (h : s.Understood d environment) : ∃ c, merged d s environment = .ok c := by
  obtain ⟨hexplicit, files, hfiles, hunderstood⟩ := h
  obtain ⟨layers, hlayers, hsub⟩ := exists_mapM_layerOfFile hfiles
  obtain ⟨hall, henv⟩ := List.forall_mem_append.mp hunderstood
  have hall : ∀ layer ∈ layers ++ [Environment.read environment],
      Understands (readStructure "Config" configFields) layer := by
    intro layer hlayer
    obtain ⟨c, hc⟩ := List.forall_mem_append.mpr ⟨fun r hr => hall r (hsub hr), henv⟩ layer hlayer
    exact understands_of_readConfig hc
  obtain ⟨c, hc⟩ := understands_joinLayers hall [] standard
  exact ⟨c, merged_eq_ok_iff.mpr ⟨_, layers, paths_eq_ok_iff.mpr ⟨hexplicit, rfl⟩, hlayers, hc⟩⟩

end Settings

end Likeness.Settings
