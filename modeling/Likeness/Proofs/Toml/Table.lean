import Likeness.Toml.Value

namespace Likeness.Toml

namespace Item

variable {key : String} {item : Item} {fields : List (String × Item)}

theorem find?_eq_none_iff : find? key fields = none ↔ key ∉ fields.map (·.1) := by
  induction fields with
  | nil => simp [find?]
  | cons entry rest ih =>
    obtain ⟨k, old⟩ := entry
    by_cases h : k = key
    · simp [find?, h]
    · simp [find?, h, ih, Ne.symm h]

theorem put_fresh (h : key ∉ fields.map (·.1)) : put key item fields = fields ++ [(key, item)] := by
  induction fields with
  | nil => rfl
  | cons entry rest ih =>
    obtain ⟨k, old⟩ := entry
    simp only [List.map_cons, List.mem_cons, not_or] at h
    rw [put, if_neg (Ne.symm h.1), ih h.2]
    rfl

theorem find?_put : find? key (put key item fields) = some item := by
  induction fields with
  | nil => simp [put, find?]
  | cons entry rest ih =>
    obtain ⟨k, old⟩ := entry
    by_cases h : k = key
    · simp [put, find?, h]
    · simp [put, find?, h, ih]

theorem put_put (first : Item) : put key item (put key first fields) = put key item fields := by
  induction fields with
  | nil => simp [put]
  | cons entry rest ih =>
    obtain ⟨k, old⟩ := entry
    by_cases h : k = key
    · simp [put, h]
    · simp [put, h, ih]

mutual

-- A value as it stands in a document that gives every table by its header.
def ofValue : Value → Item
  | .table fields => .table false false (ofFields fields)
  | v => .value v

def ofFields : List (String × Value) → List (String × Item)
  | [] => []
  | (key, v) :: rest => (key, ofValue v) :: ofFields rest

end

mutual

theorem toValue_ofValue : (v : Value) → toValue (ofValue v) = v
  | .table fields => by rw [ofValue, toValue, toFields_ofFields fields]
  | .bool _ | .int _ | .double _ | .string _ | .time _ | .array _ => rfl

theorem toFields_ofFields : (fields : List (String × Value)) → toFields (ofFields fields) = fields
  | [] => rfl
  | (key, v) :: rest => by rw [ofFields, toFields, toValue_ofValue v, toFields_ofFields rest]

end

theorem ofFields_append (fields more : List (String × Value)) :
    ofFields (fields ++ more) = ofFields fields ++ ofFields more := by
  induction fields with
  | nil => rfl
  | cons entry rest ih =>
    obtain ⟨key, v⟩ := entry
    rw [List.cons_append, ofFields, ofFields, ih]
    rfl

theorem map_fst_ofFields (fields : List (String × Value)) :
    (ofFields fields).map (·.1) = fields.map (·.1) := by
  induction fields with
  | nil => rfl
  | cons entry rest ih =>
    obtain ⟨key, v⟩ := entry
    rw [ofFields, List.map_cons, ih]
    rfl

end Item

namespace Table

-- Adds fields after those of a table, if no key is given twice.
def grow (more : List (String × Item)) (t : Table) : Option Table :=
  if (more.map (·.1)).Nodup ∧ ∀ key ∈ more.map (·.1), key ∉ t.fields.map (·.1) then
    some { t with fields := t.fields ++ more }
  else none

theorem grow_eq_some_iff {more : List (String × Item)} {t t' : Table} :
    grow more t = some t' ↔ ((more.map (·.1)).Nodup ∧
      ∀ key ∈ more.map (·.1), key ∉ t.fields.map (·.1)) ∧
        { t with fields := t.fields ++ more } = t' := by
  rw [grow]
  split
  next h => exact ⟨fun heq => ⟨h, Option.some.inj heq⟩, fun heq => congrArg some heq.2⟩
  next h => exact ⟨nofun, fun heq => absurd heq.1 h⟩

-- The two marks of a table, which tell how it came about.
def Alike (t t' : Table) : Prop := t.implied = t'.implied ∧ t.dotted = t'.dotted

theorem alike_grow {more : List (String × Item)} {t t' : Table} (h : grow more t = some t') :
    Alike t t' := by
  obtain ⟨-, rfl⟩ := grow_eq_some_iff.mp h
  exact ⟨rfl, rfl⟩

theorem update_append (change : Table → Option Table) (path more : List String) (t : Table) :
    update false change (path ++ more) t = update false (update false change more) path t := by
  induction path generalizing t with
  | nil => rfl
  | cons key path ih => simp only [List.cons_append, update, ih]

section Step

variable {key : String} {t sub : Table} (change : Table → Option Table) (path : List String)

theorem update_none (h : Item.find? key t.fields = none) :
    update false change (key :: path) t =
      (update false change path ⟨true, false, []⟩).map fun sub => t.put key sub.item := by
  simp [update, h]

theorem update_table (h : Item.find? key t.fields = some sub.item) :
    update false change (key :: path) t =
      (update false change path sub).map fun sub => t.put key sub.item := by
  simp [update, h, item]

theorem update_tables {last : List (String × Item)} {others : List (List (String × Item))}
    (h : Item.find? key t.fields = some (.tables (last :: others))) :
    update false change (key :: path) t = (update false change path ⟨false, false, last⟩).map
      fun sub => t.put key (.tables (sub.fields :: others)) := by
  simp [update, h]

theorem put_put (first second : Item) : (t.put key first).put key second = t.put key second := by
  simp [put, Item.put_put]

end Step

-- A change that is made in two steps at one table is made in two steps wherever the table stands.
theorem update_split {change first second : Table → Option Table}
    (halike : ∀ t t', first t = some t' → Alike t t')
    (hsplit : ∀ t t', change t = some t' → ∃ between, first t = some between ∧
      second between = some t') {path : List String} {t t' : Table}
    (h : update false change path t = some t') :
    ∃ between, update false first path t = some between ∧ Alike t between ∧
      update false second path between = some t' := by
  induction path generalizing t t' with
  | nil =>
    obtain ⟨between, hfirst, hsecond⟩ := hsplit t t' h
    exact ⟨between, hfirst, halike t between hfirst, hsecond⟩
  | cons key path ih =>
    -- what the second step finds is what the first one has put there
    have hthen {sub sub' : Table} (hsecond : update false second path sub = some sub') :
        update false second (key :: path) (t.put key sub.item) = some (t.put key sub'.item) := by
      rw [update_table second path Item.find?_put, hsecond, Option.map_some, put_put]
    cases hfind : Item.find? key t.fields with
    | none =>
      rw [update_none change path hfind, Option.map_eq_some_iff] at h
      obtain ⟨sub', hsub, rfl⟩ := h
      obtain ⟨sub, hfirst, -, hsecond⟩ := ih hsub
      refine ⟨t.put key sub.item, ?_, ⟨rfl, rfl⟩, hthen hsecond⟩
      rw [update_none first path hfind, hfirst, Option.map_some]
    | some found =>
      cases found with
      | value v => simp [update, hfind] at h
      | table implied dotted fields =>
        have htable : Item.find? key t.fields = some (item ⟨implied, dotted, fields⟩) := hfind
        rw [update_table change path htable, Option.map_eq_some_iff] at h
        obtain ⟨sub', hsub, rfl⟩ := h
        obtain ⟨sub, hfirst, -, hsecond⟩ := ih hsub
        refine ⟨t.put key sub.item, ?_, ⟨rfl, rfl⟩, hthen hsecond⟩
        rw [update_table first path htable, hfirst, Option.map_some]
      | tables all =>
        cases all with
        | nil => simp [update, hfind] at h
        | cons last others =>
          rw [update_tables change path hfind, Option.map_eq_some_iff] at h
          obtain ⟨sub', hsub, rfl⟩ := h
          obtain ⟨sub, hfirst, ⟨himplied, hdotted⟩, hsecond⟩ := ih hsub
          have hsame : (⟨false, false, sub.fields⟩ : Table) = sub := by
            cases sub
            simp_all
          refine ⟨t.put key (.tables (sub.fields :: others)), ?_, ⟨rfl, rfl⟩, ?_⟩
          · rw [update_tables first path hfind, hfirst, Option.map_some]
          · rw [update_tables second path Item.find?_put, hsame, hsecond, Option.map_some, put_put]

theorem update_congr {first second : Table → Option Table}
    (h : ∀ t t', first t = some t' → second t = some t') {path : List String} {t t' : Table}
    (hfirst : update false first path t = some t') : update false second path t = some t' := by
  induction path generalizing t t' with
  | nil => exact h t t' hfirst
  | cons key path ih =>
    cases hfind : Item.find? key t.fields with
    | none =>
      rw [update_none first path hfind, Option.map_eq_some_iff] at hfirst
      obtain ⟨sub, hsub, rfl⟩ := hfirst
      rw [update_none second path hfind, ih hsub, Option.map_some]
    | some found =>
      cases found with
      | value v => simp [update, hfind] at hfirst
      | table implied dotted fields =>
        have htable : Item.find? key t.fields = some (item ⟨implied, dotted, fields⟩) := hfind
        rw [update_table first path htable, Option.map_eq_some_iff] at hfirst
        obtain ⟨sub, hsub, rfl⟩ := hfirst
        rw [update_table second path htable, ih hsub, Option.map_some]
      | tables all =>
        cases all with
        | nil => simp [update, hfind] at hfirst
        | cons last others =>
          rw [update_tables first path hfind, Option.map_eq_some_iff] at hfirst
          obtain ⟨sub, hsub, rfl⟩ := hfirst
          rw [update_tables second path hfind, ih hsub, Option.map_some]

-- What finds nothing to change after a change at some table finds nothing to change wherever the
-- table stands.
theorem update_again {change second : Table → Option Table}
    (halike : ∀ t t', change t = some t' → Alike t t')
    (hsecond : ∀ t t', change t = some t' → second t' = some t') {path : List String}
    {t t' : Table} (h : update false change path t = some t') :
    update false second path t' = some t' := by
  obtain ⟨between, hfirst, -, hthen⟩ :=
    update_split halike (fun t t' h => ⟨t', h, hsecond t t' h⟩) h
  rw [h, Option.some.injEq] at hfirst
  rwa [← hfirst] at hthen

-- The tables on a path are all there.
def Stands (path : List String) (t : Table) : Prop := update false some path t = some t

section Grow

variable {key : String} {more others : List (String × Item)} {path : List String} {t t' : Table}

theorem update_grow_append (h : update false (grow (more ++ others)) path t = some t') :
    ∃ between, update false (grow more) path t = some between ∧
      update false (grow others) path between = some t' := by
  have hsplit (t t' : Table) (h : grow (more ++ others) t = some t') :
      ∃ between, grow more t = some between ∧ grow others between = some t' := by
    obtain ⟨⟨hnodup, hfresh⟩, rfl⟩ := grow_eq_some_iff.mp h
    rw [List.map_append, List.nodup_append] at hnodup
    rw [List.map_append] at hfresh
    refine ⟨_, grow_eq_some_iff.mpr ⟨⟨hnodup.1, fun key hkey => hfresh key (by simp [hkey])⟩, rfl⟩,
      grow_eq_some_iff.mpr ⟨⟨hnodup.2.1, fun key hkey => ?_⟩, by simp⟩⟩
    rw [List.map_append, List.mem_append, not_or]
    exact ⟨hfresh key (List.mem_append_right _ hkey), fun hmore =>
      hnodup.2.2 key hmore key hkey rfl⟩
  obtain ⟨between, hfirst, -, hsecond⟩ := update_split (fun _ _ => alike_grow) hsplit h
  exact ⟨between, hfirst, hsecond⟩

theorem notMem_of_grow {item : Item} (h : grow [(key, item)] t = some t') :
    key ∉ t.fields.map (·.1) ∧ t' = t.put key item := by
  obtain ⟨⟨-, hfresh⟩, rfl⟩ := grow_eq_some_iff.mp h
  have hkey := hfresh key (by simp)
  exact ⟨hkey, by rw [put, Item.put_fresh hkey]⟩

theorem stands_of_grow (h : update false (grow more) path t = some t') : Stands path t' :=
  update_again (fun _ _ => alike_grow) (fun _ _ _ => rfl) h

theorem eq_of_grow_nil (hstands : Stands path t) (h : update false (grow []) path t = some t') :
    t' = t := by
  have hsome : grow [] = some := by
    funext t
    simp [grow]
  rw [hsome, hstands] at h
  exact (Option.some.inj h).symm

theorem insert_of_grow {v : Value} (h : update false (grow [(key, .value v)]) path t = some t') :
    update false (insert [] key v) path t = some t' := by
  refine update_congr (fun t t' h => ?_) h
  obtain ⟨hfresh, rfl⟩ := notMem_of_grow h
  simp [insert, update, Item.find?_eq_none_iff.mpr hfresh]

-- A new table is opened first, and then its fields are added to it.
theorem openTable_of_grow {fields : List (String × Item)} (hfields : (fields.map (·.1)).Nodup)
    (h : update false (grow [(key, .table false false fields)]) path t = some t') :
    ∃ opened, openTable path key t = some opened ∧ Stands (path ++ [key]) opened ∧
      update false (grow fields) (path ++ [key]) opened = some t' := by
  have hsplit (t t' : Table) (h : grow [(key, .table false false fields)] t = some t') :
      ∃ opened, grow [(key, .table false false [])] t = some opened ∧
        update false (grow fields) [key] opened = some t' := by
    obtain ⟨hfresh, rfl⟩ := notMem_of_grow h
    have hopened : grow [(key, .table false false [])] t =
        some (t.put key (item ⟨false, false, []⟩)) := by
      refine grow_eq_some_iff.mpr ⟨⟨by simp, by simpa using hfresh⟩, ?_⟩
      rw [put, Item.put_fresh hfresh]
      rfl
    have hgrown : grow fields ⟨false, false, []⟩ = some ⟨false, false, fields⟩ :=
      grow_eq_some_iff.mpr ⟨⟨hfields, by simp⟩, rfl⟩
    refine ⟨_, hopened, ?_⟩
    rw [update_table _ [] Item.find?_put, update, hgrown, Option.map_some, put_put]
    rfl
  have hstands (t t' : Table) (h : grow [(key, .table false false [])] t = some t') :
      update false some [key] t' = some t' := by
    obtain ⟨-, rfl⟩ := notMem_of_grow h
    have hfind : Item.find? key (t.put key (.table false false [])).fields =
      some (item ⟨false, false, []⟩) := Item.find?_put
    rw [update_table some [] hfind, update, Option.map_some, put_put]
    rfl
  obtain ⟨opened, hopened, -, hgrown⟩ := update_split (fun _ _ => alike_grow) hsplit h
  refine ⟨opened, update_congr (fun t t' h => ?_) hopened, ?_, by rwa [update_append]⟩
  · obtain ⟨hfresh, rfl⟩ := notMem_of_grow h
    simp [Item.find?_eq_none_iff.mpr hfresh]
  · rw [Stands, update_append]
    exact update_again (fun _ _ => alike_grow) hstands hopened

end Grow

end Table

end Likeness.Toml
