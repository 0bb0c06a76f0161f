import Likeness.Settings.Layers
import Mathlib.Data.List.Induction
import Mathlib.Data.String.Basic

namespace Likeness.Settings

namespace Raw

theorem lookup_cons (key k : String) (v : Raw) (rest : List (String × Raw)) :
    lookup key ((k, v) :: rest) = if k = key then some v else lookup key rest := rfl

theorem lookup_insert (key other : String) (value : Raw) (fields : List (String × Raw)) :
    lookup other (insert key value fields) =
      if key = other then some value else lookup other fields := by
  induction fields with
  | nil => rfl
  | cons field rest ih =>
    obtain ⟨k, v⟩ := field
    unfold insert
    split
    · rfl
    · split
      · rename_i hkey
        subst hkey
        rw [lookup_cons, lookup_cons]
        split <;> rfl
      · rename_i hne
        rw [lookup_cons, lookup_cons, ih]
        by_cases hk : k = other
        · rw [if_pos hk, if_neg (hk ▸ hne), if_pos hk]
        · rw [if_neg hk, if_neg hk]

theorem mem_insert {key : String} {value : Raw} {fields : List (String × Raw)}
    {f : String × Raw} (h : f ∈ insert key value fields) : f = (key, value) ∨ f ∈ fields := by
  induction fields with
  | nil => exact .inl (List.mem_singleton.mp h)
  | cons field rest ih =>
    unfold insert at h
    split at h
    · exact List.mem_cons.mp h
    · split at h
      · exact (List.mem_cons.mp h).imp_right (List.mem_cons_of_mem _)
      · cases List.mem_cons.mp h with
        | inl hf => exact .inr (hf ▸ List.mem_cons_self)
        | inr hf => exact (ih hf).imp_right (List.mem_cons_of_mem _)

-- Fields in ascending order of their keys, each of which is there once.
def Ascending (fields : List (String × Raw)) : Prop := fields.Pairwise fun a b => a.1 < b.1

theorem Ascending.insert (key : String) (value : Raw) {fields : List (String × Raw)}
    (h : Ascending fields) : Ascending (insert key value fields) := by
  induction fields with
  | nil => exact List.pairwise_singleton _ _
  | cons field rest ih =>
    obtain ⟨k, v⟩ := field
    obtain ⟨hfirst, hrest⟩ := List.pairwise_cons.mp h
    unfold Raw.insert
    split
    · rename_i hlt
      refine List.pairwise_cons.mpr ⟨fun f hf => ?_, h⟩
      cases List.mem_cons.mp hf with
      | inl hk => exact hk ▸ hlt
      | inr hf => exact hlt.trans (hfirst f hf)
    · split
      · rename_i hkey
        subst hkey
        exact List.pairwise_cons.mpr ⟨hfirst, hrest⟩
      · rename_i hlt hne
        refine List.pairwise_cons.mpr ⟨fun f hf => ?_, ih hrest⟩
        cases mem_insert hf with
        | inl hk => exact hk ▸ lt_of_le_of_ne (not_lt.mp hlt) (Ne.symm hne)
        | inr hf => exact hfirst f hf

-- What comes after the first of ascending fields has other keys.
theorem Ascending.lookup_tail {key : String} {value : Raw} {rest : List (String × Raw)}
    (h : Ascending ((key, value) :: rest)) : lookup key rest = none := by
  have hne := (List.pairwise_cons.mp h).1
  induction rest with
  | nil => rfl
  | cons field rest ih =>
    have hlt := hne field List.mem_cons_self
    rw [lookup_cons, if_neg hlt.ne']
    have hsub := ((List.sublist_cons_self field rest).cons_cons (key, value))
    exact ih (h.sublist hsub) fun f hf => hne f (List.mem_cons_of_mem _ hf)

-- Settings in which all tables have their keys in ascending order.
inductive Ordered : Raw → Prop where
  | leaf (origin : Origin) (l : Leaf) : Ordered (.leaf origin l)
  | list (origin : Origin) {items : List Raw} (hitems : ∀ r ∈ items, Ordered r) :
    Ordered (.list origin items)
  | table (origin : Origin) {fields : List (String × Raw)} (hkeys : Ascending fields)
    (hfields : ∀ f ∈ fields, Ordered f.2) : Ordered (.table origin fields)

theorem ordered_empty (origin : Origin) : Ordered (.table origin []) :=
  .table origin List.Pairwise.nil fun _ hf => absurd hf List.not_mem_nil

section Insertion

variable {key : String} {value : Raw} {fields : List (String × Raw)}

theorem ordered_insert (hvalue : Ordered value) (h : ∀ f ∈ fields, Ordered f.2) :
    ∀ f ∈ insert key value fields, Ordered f.2 := by
  intro f hf
  cases mem_insert hf with
  | inl heq => exact heq ▸ hvalue
  | inr hf => exact h f hf

-- Inserts fields one after the other.
def insertAll (fields upper : List (String × Raw)) : List (String × Raw) :=
  upper.foldl (fun fields f => insert f.1 f.2 fields) fields

theorem ascending_insertAll (upper : List (String × Raw)) (h : Ascending fields) :
    Ascending (insertAll fields upper) := by
  induction upper generalizing fields with
  | nil => exact h
  | cons f upper ih => exact ih (h.insert f.1 f.2)

theorem mem_insertAll {upper : List (String × Raw)} {f : String × Raw}
    (h : f ∈ insertAll fields upper) : f ∈ fields ∨ f ∈ upper := by
  induction upper generalizing fields with
  | nil => exact .inl h
  | cons g upper ih =>
    cases ih h with
    | inl hf =>
      cases mem_insert hf with
      | inl hg => exact .inr (hg ▸ List.mem_cons_self)
      | inr hf => exact .inl hf
    | inr hf => exact .inr (List.mem_cons_of_mem _ hf)

theorem lookup_insertAll (other : String) {upper : List (String × Raw)} (h : Ascending upper) :
    lookup other (insertAll fields upper) = (lookup other upper).or (lookup other fields) := by
  induction upper generalizing fields with
  | nil => rfl
  | cons f upper ih =>
    obtain ⟨k, v⟩ := f
    have hstep : insertAll fields ((k, v) :: upper) = insertAll (insert k v fields) upper := rfl
    rw [hstep, ih (List.pairwise_cons.mp h).2, lookup_insert, lookup_cons]
    by_cases hk : k = other
    · subst hk
      rw [if_pos rfl, if_pos rfl, h.lookup_tail]
      rfl
    · rw [if_neg hk, if_neg hk]

theorem insert_of_forall_lt (value : Raw) (h : ∀ f ∈ fields, f.1 < key) :
    insert key value fields = fields ++ [(key, value)] := by
  induction fields with
  | nil => rfl
  | cons field rest ih =>
    obtain ⟨k, v⟩ := field
    have hlt : k < key := h (k, v) List.mem_cons_self
    rw [insert, if_neg hlt.not_gt, if_neg hlt.ne', ih fun f hf => h f (List.mem_cons_of_mem _ hf)]
    rfl

-- Fields in ascending order come one after the other.
theorem insertAll_of_ascending {upper : List (String × Raw)} (h : Ascending (fields ++ upper)) :
    insertAll fields upper = fields ++ upper := by
  induction upper generalizing fields with
  | nil => exact (List.append_nil fields).symm
  | cons f upper ih =>
    have hlast : insert f.1 f.2 fields = fields ++ [f] :=
      insert_of_forall_lt f.2 fun g hg => (List.pairwise_append.mp h).2.2 g hg f List.mem_cons_self
    have hstep : insertAll fields (f :: upper) = insertAll (insert f.1 f.2 fields) upper := rfl
    rw [List.append_cons] at h ⊢
    rw [hstep, hlast, ih h]

end Insertion

section Merge

-- The fields of a table that lies over another one.
def mergedFields (under upper : List (String × Raw)) : List (String × Raw) :=
  insertAll (mergeFields under upper) (upper.filter fun f => (lookup f.1 under).isNone)

theorem merge_tables (below above : Origin) (under upper : List (String × Raw)) :
    merge (.table below under) (.table above upper) = .table above (mergedFields under upper) := by
  rw [merge]
  rfl

-- Over or under a table without fields nothing changes.
theorem merge_empty_left (below above : Origin) {upper : List (String × Raw)}
    (h : Ascending upper) : merge (.table below []) (.table above upper) = .table above upper := by
  have hall : upper.filter (fun f => (lookup f.1 []).isNone) = upper :=
    List.filter_eq_self.mpr fun _ _ => rfl
  rw [merge_tables, mergedFields, hall]
  exact congrArg _ (insertAll_of_ascending h)

theorem mergeFields_nil (under : List (String × Raw)) : mergeFields under [] = under := by
  induction under with
  | nil => rfl
  | cons field under ih =>
    rw [mergeFields]
    exact congrArg _ ih

theorem merge_empty_right (below above : Origin) (under : List (String × Raw)) :
    merge (.table below under) (.table above []) = .table above under := by
  rw [merge_tables, mergedFields, mergeFields_nil]
  rfl

theorem mergeFields_cons (k : String) (v : Raw) (under upper : List (String × Raw)) :
    mergeFields ((k, v) :: under) upper =
      (k, ((lookup k upper).map v.merge).getD v) :: mergeFields under upper := by
  rw [mergeFields]
  cases lookup k upper <;> rfl

theorem lookup_mergeFields (key : String) (under upper : List (String × Raw)) :
    lookup key (mergeFields under upper) =
      (lookup key under).map fun v => ((lookup key upper).map v.merge).getD v := by
  induction under with
  | nil => rfl
  | cons field under ih =>
    obtain ⟨k, v⟩ := field
    rw [mergeFields_cons, lookup_cons, lookup_cons]
    by_cases hk : k = key
    · rw [if_pos hk, if_pos hk, hk]
      rfl
    · rw [if_neg hk, if_neg hk, ih]

theorem lookup_filter_isNone (key : String) (under upper : List (String × Raw)) :
    lookup key (upper.filter fun f => (lookup f.1 under).isNone) =
      if (lookup key under).isNone then lookup key upper else none := by
  induction upper with
  | nil => exact (ite_self _).symm
  | cons field upper ih =>
    obtain ⟨k, v⟩ := field
    rw [List.filter_cons, lookup_cons]
    by_cases hk : k = key
    · subst hk
      split
      · rw [lookup_cons, if_pos rfl, if_pos rfl]
      · rename_i hsome
        rw [ih, if_neg hsome]
    · rw [if_neg hk, ← ih]
      split
      · exact if_neg hk
      · rfl

-- A key is looked up in both tables, and what is found is merged.
theorem lookup_mergedFields (key : String) (under : List (String × Raw))
    {upper : List (String × Raw)} (hupper : Ascending upper) :
    lookup key (mergedFields under upper) =
      Option.merge merge (lookup key under) (lookup key upper) := by
  rw [mergedFields, lookup_insertAll key (hupper.sublist List.filter_sublist),
    lookup_filter_isNone, lookup_mergeFields]
  cases lookup key under with
  | none => cases lookup key upper <;> rfl
  | some v => cases lookup key upper <;> rfl

theorem keys_mergeFields (under upper : List (String × Raw)) :
    (mergeFields under upper).map (·.1) = under.map (·.1) := by
  induction under with
  | nil => rfl
  | cons field under ih =>
    rw [mergeFields_cons, List.map_cons, List.map_cons, ih]

theorem Ascending.mergeFields {under : List (String × Raw)} (h : Ascending under)
    (upper : List (String × Raw)) : Ascending (mergeFields under upper) := by
  have hkeys : ((Raw.mergeFields under upper).map (·.1)).Pairwise (· < ·) := by
    rw [keys_mergeFields, List.pairwise_map]
    exact h
  exact List.pairwise_map.mp hkeys

theorem mem_of_lookup {key : String} {value : Raw} {fields : List (String × Raw)}
    (h : lookup key fields = some value) : (key, value) ∈ fields := by
  induction fields with
  | nil => cases h
  | cons field rest ih =>
    obtain ⟨k, v⟩ := field
    rw [lookup_cons] at h
    split at h
    · rename_i hk
      obtain rfl := Option.some.inj h
      exact hk ▸ List.mem_cons_self
    · exact List.mem_cons_of_mem _ (ih h)

-- A field of merged ones is a field below, or what such a field is merged to.
theorem mem_mergeFields {under upper : List (String × Raw)} {f : String × Raw}
    (h : f ∈ mergeFields under upper) :
    f ∈ under ∨ ∃ a b, (f.1, a) ∈ under ∧ (f.1, b) ∈ upper ∧ f.2 = merge a b := by
  induction under with
  | nil => cases h
  | cons field under ih =>
    obtain ⟨k, v⟩ := field
    rw [mergeFields_cons] at h
    cases List.mem_cons.mp h with
    | inl hf =>
      subst hf
      cases habove : lookup k upper with
      | none => exact .inl List.mem_cons_self
      | some above =>
        exact .inr ⟨v, above, List.mem_cons_self, mem_of_lookup habove, rfl⟩
    | inr hf =>
      refine (ih hf).imp (List.mem_cons_of_mem _) ?_
      rintro ⟨a, b, ha, hb, hmerge⟩
      exact ⟨a, b, List.mem_cons_of_mem _ ha, hb, hmerge⟩

-- A field of merged tables is a field of one of them, or what two of one key are merged to.
theorem mem_mergedFields {under upper : List (String × Raw)} {f : String × Raw}
    (h : f ∈ mergedFields under upper) :
    f ∈ under ∨ f ∈ upper ∨ ∃ a b, (f.1, a) ∈ under ∧ (f.1, b) ∈ upper ∧ f.2 = merge a b := by
  cases mem_insertAll h with
  | inl hf => exact (mem_mergeFields hf).imp_right .inr
  | inr hf => exact .inr (.inl (List.mem_of_mem_filter hf))

theorem Ordered.merge {a b : Raw} (ha : Ordered a) (hb : Ordered b) : Ordered (merge a b) := by
  induction ha generalizing b with
  | leaf origin l => exact hb
  | list origin hitems => exact hb
  | @table below under hkeys hfields ih =>
    cases hb with
    | leaf origin l => exact .leaf origin l
    | list origin hitems => exact .list origin hitems
    | @table above upper hkeys' hfields' =>
      rw [merge_tables]
      refine .table above (ascending_insertAll _ (hkeys.mergeFields upper)) fun f hf => ?_
      rcases mem_mergedFields hf with hf | hf | ⟨a, b, ha, hb, hmerge⟩
      · exact hfields f hf
      · exact hfields' f hf
      · rw [hmerge]
        exact ih (f.1, a) ha (hfields' (f.1, b) hb)

end Merge

section Document

mutual

theorem ordered_ofToml (origin : Origin) (v : Toml.Value) : Ordered (ofToml origin v) := by
  cases v with
  | bool b => exact .leaf origin _
  | int n => exact .leaf origin _
  | double x => exact .leaf origin _
  | string s => exact .leaf origin _
  | time s =>
    refine .table origin (List.pairwise_singleton _ _) fun f hf => ?_
    rw [List.mem_singleton.mp hf]
    exact .leaf origin _
  | array items => exact .list origin (ordered_ofTomlItems origin items)
  | table fields =>
    exact .table origin (ascending_ofTomlFields origin fields) (ordered_ofTomlFields origin fields)

theorem ordered_ofTomlItems (origin : Origin) (items : List Toml.Value) :
    ∀ r ∈ ofTomlItems origin items, Ordered r := by
  intro r hr
  cases items with
  | nil => cases hr
  | cons v items =>
    cases List.mem_cons.mp hr with
    | inl h => exact h ▸ ordered_ofToml origin v
    | inr h => exact ordered_ofTomlItems origin items r h

theorem ordered_ofTomlFields (origin : Origin) (fields : List (String × Toml.Value)) :
    ∀ f ∈ ofTomlFields origin fields, Ordered f.2 := by
  cases fields with
  | nil => exact fun f hf => absurd hf List.not_mem_nil
  | cons field fields =>
    exact ordered_insert (ordered_ofToml origin field.2) (ordered_ofTomlFields origin fields)

theorem ascending_ofTomlFields (origin : Origin) (fields : List (String × Toml.Value)) :
    Ascending (ofTomlFields origin fields) := by
  cases fields with
  | nil => exact List.Pairwise.nil
  | cons field fields => exact (ascending_ofTomlFields origin fields).insert _ _

end

end Document

end Raw

theorem ordered_layerOfText {path text : String} {r : Raw} (h : layerOfText path text = .ok r) :
    r.Ordered := by
  unfold layerOfText at h
  split at h
  · cases h
    exact Raw.ordered_ofToml _ _
  · cases h

theorem ordered_layerOfFile {d : Files.Disk} {path : String} {r : Raw}
    (h : layerOfFile d path = .ok r) : r.Ordered := by
  unfold layerOfFile at h
  split at h
  · exact ordered_layerOfText h
  · cases h

namespace Environment

open Toml (Reading)

-- Whether a reader gives settings in order only.
def ReadsOrdered (value : List Char → Reading Raw) : Prop :=
  ∀ cs v rest, value cs = some (v, rest) → v.Ordered

section Reader

variable {value : List Char → Reading Raw}

theorem ordered_of_readItems (hvalue : ReadsOrdered value) (fuel : Nat) {cs rest : List Char}
    {items : List Raw} (h : readItems value fuel cs = some (items, rest)) :
    ∀ r ∈ items, r.Ordered := by
  induction fuel generalizing cs items rest with
  | zero => cases h
  | succ fuel ih =>
    unfold readItems at h
    split at h
    · cases h
      exact fun r hr => absurd hr List.not_mem_nil
    · split at h
      · rename_i v tail hv
        obtain ⟨⟨others, after⟩, hothers, hitems⟩ := Option.map_eq_some_iff.mp h
        cases hitems
        exact List.forall_mem_cons.mpr ⟨hvalue _ _ _ hv, ih hothers⟩
      · rename_i v tail hv
        cases h
        exact List.forall_mem_singleton.mpr (hvalue _ _ _ hv)
      · cases h

theorem ordered_of_readPairs (hvalue : ReadsOrdered value) (fuel : Nat) {cs rest : List Char}
    {before fields : List (String × Raw)} (hbefore : Raw.Ascending before)
    (hinside : ∀ f ∈ before, f.2.Ordered)
    (h : readPairs value fuel before cs = some (fields, rest)) :
    (Raw.table .environment fields).Ordered := by
  induction fuel generalizing cs before fields rest with
  | zero => cases h
  | succ fuel ih =>
    unfold readPairs at h
    split at h
    · cases h
      exact .table _ hbefore hinside
    · split at h
      · rename_i key tail hkey
        split at h
        · rename_i v after hv
          exact ih (hbefore.insert key v) (Raw.ordered_insert (hvalue _ _ _ hv) hinside) h
        · rename_i v after hv
          cases h
          exact .table _ (hbefore.insert key v) (Raw.ordered_insert (hvalue _ _ _ hv) hinside)
        · cases h
      · cases h

end Reader

theorem readsOrdered_readValue (size depth : Nat) : ReadsOrdered (readValue size depth) := by
  induction depth with
  | zero => exact fun cs v rest h => by cases h
  | succ depth ih =>
    intro cs v rest h
    unfold readValue at h
    dsimp only at h
    obtain ⟨⟨read, after⟩, hread, hv⟩ := Option.map_eq_some_iff.mp h
    cases hv
    split at hread
    · cases hread
      exact .leaf _ _
    · cases hread
      exact .leaf _ _
    · obtain ⟨⟨fields, tail⟩, hfields, hv⟩ := Option.map_eq_some_iff.mp hread
      cases hv
      exact ordered_of_readPairs ih size List.Pairwise.nil
        (fun f hf => absurd hf List.not_mem_nil) hfields
    · obtain ⟨⟨items, tail⟩, hitems, hv⟩ := Option.map_eq_some_iff.mp hread
      cases hv
      exact .list _ (ordered_of_readItems ih size hitems)
    · obtain ⟨⟨s, tail⟩, -, hv⟩ := Option.bind_eq_some_iff.mp hread
      cases hv
      exact .leaf _ _
    · cases hread
      exact .leaf _ _
    · cases hread
    · cases hread
      exact .leaf _ _

theorem ordered_ofText (text : String) : (ofText text).Ordered := by
  unfold ofText
  dsimp only
  split
  · rename_i v hv
    exact readsOrdered_readValue _ _ _ _ _ hv
  · exact .leaf _ _

theorem ordered_nest {value : Raw} (h : value.Ordered) (keys : List String) :
    (nest value keys).Ordered := by
  induction keys with
  | nil => exact h
  | cons key keys ih =>
    exact .table _ (List.pairwise_singleton _ _) (List.forall_mem_singleton.mpr ih)

theorem read_concat (entries : List (String × String)) (name text : String) :
    read (entries ++ [(name, text)]) =
      match keysOf name with
      | some keys => (read entries).merge (nest (ofText text) keys)
      | none => read entries := by
  unfold read
  rw [List.foldl_append]
  rfl

theorem ordered_read (entries : List (String × String)) : (read entries).Ordered := by
  induction entries using List.reverseRecOn with
  | nil => exact Raw.ordered_empty _
  | append_singleton entries entry ih =>
    rw [read_concat]
    split
    · exact ih.merge (ordered_nest (ordered_ofText _) _)
    · exact ih

-- An environment without settings says nothing.
theorem read_eq_empty {entries : List (String × String)} (h : ∀ e ∈ entries, keysOf e.1 = none) :
    read entries = .table .environment [] := by
  induction entries using List.reverseRecOn with
  | nil => rfl
  | append_singleton entries entry ih =>
    obtain ⟨hentries, hentry⟩ := List.forall_mem_append.mp h
    rw [read_concat, List.forall_mem_singleton.mp hentry]
    exact ih hentries

theorem splitName_ne_nil (cs : List Char) : splitName cs ≠ [] := by
  unfold splitName
  split
  · exact List.cons_ne_nil _ _
  · exact List.cons_ne_nil _ _
  · split
    · exact List.cons_ne_nil _ _
    · split <;> exact List.cons_ne_nil _ _

theorem ne_nil_of_keysOf {name : String} {keys : List String} (h : keysOf name = some keys) :
    keys ≠ [] := by
  unfold keysOf at h
  dsimp only at h
  split at h
  · split at h
    · cases h
    · rw [← Option.some.inj h]
      exact mt List.map_eq_nil_iff.mp (splitName_ne_nil _)
  · cases h

-- What the environment says is a table, as the name of a setting has at least one key.
theorem exists_read_eq_table (entries : List (String × String)) :
    ∃ origin fields, read entries = .table origin fields := by
  induction entries using List.reverseRecOn with
  | nil => exact ⟨_, _, rfl⟩
  | append_singleton entries entry ih =>
    rw [read_concat]
    split
    · rename_i keys hkeys
      obtain ⟨key, keys, rfl⟩ := List.exists_cons_of_ne_nil (ne_nil_of_keysOf hkeys)
      obtain ⟨origin, fields, hread⟩ := ih
      rw [hread, nest, Raw.merge_tables]
      exact ⟨_, _, rfl⟩
    · exact ih

end Environment

end Likeness.Settings
