import Likeness.Proofs.Json.Fields
import Likeness.Proofs.Json.Text
import Likeness.Yaml.Reader

namespace Likeness.Yaml.Value

open Json (insertFields)
open Similarity (Kind)

-- What holds of each value that is made of values it holds of holds of all values.
@[elab_as_elim]
theorem inductionOnParts {motive : Value → Prop} (null : motive .null)
    (bool : ∀ b, motive (.bool b)) (int : ∀ n, motive (.int n)) (double : ∀ x, motive (.double x))
    (string : ∀ s, motive (.string s))
    (sequence : ∀ items, (∀ v ∈ items, motive v) → motive (.sequence items))
    (mapping : ∀ entries, (∀ e ∈ entries, motive e.1 ∧ motive e.2) → motive (.mapping entries))
    (tagged : ∀ tag v, motive v → motive (.tagged tag v)) (v : Value) : motive v := by
  refine @Value.rec motive (fun items => ∀ v ∈ items, motive v)
    (fun entries => ∀ e ∈ entries, motive e.1 ∧ motive e.2) (fun e => motive e.1 ∧ motive e.2)
    null bool int double string sequence mapping tagged ?_ ?_ ?_ ?_ ?_ v
  · simp
  · exact fun v items hv hitems => List.forall_mem_cons.mpr ⟨hv, hitems⟩
  · simp
  · exact fun e entries he hentries => List.forall_mem_cons.mpr ⟨he, hentries⟩
  · exact fun key v hkey hv => ⟨hkey, hv⟩

-- The text that a key is rendered to.
def keyName (key : Value) : String := keyText key.toJson

-- The entries of a mapping as fields, before those of one name are put together.
def namedEntries (entries : List (Value × Value)) : List (String × Json.Value) :=
  entries.map fun e => (e.1.keyName, e.2.toJson)

section Equations

variable (items : List Value) (entries : List (Value × Value))

theorem toJson_sequence : (sequence items).toJson = .array (items.map toJson) := by
  have hitems : itemsToJson items = items.map toJson := by
    induction items with
    | nil => rfl
    | cons v rest ih => rw [itemsToJson, ih, List.map_cons]
  rw [toJson, hitems]

theorem toJson_mapping :
    (mapping entries).toJson = .object (insertFields [] (namedEntries entries)) := by
  have hentries (fields : List (String × Json.Value)) :
      entriesToJson entries fields = insertFields fields (namedEntries entries) := by
    induction entries generalizing fields with
    | nil => rfl
    | cons e rest ih =>
      rw [entriesToJson, ih]
      rfl
  rw [toJson, hentries]

end Equations

-- What a value becomes if nothing of it is lost: the items of a sequence in their order, and as many
-- fields as a mapping has entries, each value under the text of its key. Tags are left out.
inductive Kept : Value → Json.Value → Prop where
  | null : Kept .null .null
  | bool (b : Bool) : Kept (.bool b) (.bool b)
  | int (n : Int) : Kept (.int n) (.number (.int n))
  | double (x : Float) (h : x.isFinite = true) : Kept (.double x) (.double x)
  | notFinite (x : Float) (h : x.isFinite = false) : Kept (.double x) .null
  | string (s : String) : Kept (.string s) (.string s)
  | sequence (items : List Value) (converted : List Json.Value)
    (hlength : converted.length = items.length)
    (h : ∀ pair ∈ items.zip converted, Kept pair.1 pair.2) :
    Kept (.sequence items) (.array converted)
  | mapping (entries : List (Value × Value)) (fields : List (String × Json.Value))
    (hlength : fields.length = entries.length) (hkeys : (fields.map (·.1)).Nodup)
    (hnames : ∀ e ∈ entries, e.1.keyName ∈ fields.map (·.1))
    (h : ∀ e ∈ entries, ∀ v, (e.1.keyName, v) ∈ fields → Kept e.2 v) :
    Kept (.mapping entries) (.object fields)
  | tagged (tag : String) (v : Value) (w : Json.Value) (h : Kept v w) : Kept (.tagged tag v) w

-- Values in which no two keys of one mapping are rendered to one text.
inductive NamesApart : Value → Prop where
  | null : NamesApart .null
  | bool (b : Bool) : NamesApart (.bool b)
  | int (n : Int) : NamesApart (.int n)
  | double (x : Float) : NamesApart (.double x)
  | string (s : String) : NamesApart (.string s)
  | sequence (items : List Value) (h : ∀ v ∈ items, NamesApart v) : NamesApart (.sequence items)
  | mapping (entries : List (Value × Value)) (hnames : (entries.map fun e => e.1.keyName).Nodup)
    (h : ∀ e ∈ entries, NamesApart e.2) : NamesApart (.mapping entries)
  | tagged (tag : String) (v : Value) (h : NamesApart v) : NamesApart (.tagged tag v)

section Entries

variable {entries : List (Value × Value)}

theorem map_fst_namedEntries :
    (namedEntries entries).map (·.1) = entries.map fun e => e.1.keyName := by
  rw [namedEntries, List.map_map]
  rfl

theorem mem_names_iff (name : String) :
    name ∈ (insertFields [] (namedEntries entries)).map (·.1) ↔
      ∃ e ∈ entries, e.1.keyName = name := by
  rw [Json.mem_keys_insertFields_iff, map_fst_namedEntries, List.mem_map]

-- Under each text is the value of the last entry whose key is rendered to it.
theorem mem_fields_iff (name : String) (w : Json.Value) :
    (name, w) ∈ insertFields [] (namedEntries entries) ↔ ∃ before key v after,
      entries = before ++ (key, v) :: after ∧ key.keyName = name ∧ v.toJson = w ∧
        ∀ e ∈ after, e.1.keyName ≠ name := by
  rw [Json.mem_insertFields_iff]
  constructor
  · rintro ⟨before, after, hsplit, hafter⟩
    obtain ⟨entries₁, entries₂, rfl, rfl, hrest⟩ := List.map_eq_append_iff.mp hsplit
    obtain ⟨⟨key, v⟩, entries₂, rfl, he, rfl⟩ := List.map_eq_cons_iff.mp hrest
    obtain ⟨hname, hvalue⟩ := Prod.mk.inj he
    exact ⟨entries₁, key, v, entries₂, rfl, hname, hvalue,
      fun e he => hafter _ (List.mem_map_of_mem he)⟩
  · rintro ⟨before, key, v, after, rfl, rfl, rfl, hafter⟩
    refine ⟨namedEntries before, namedEntries after, ?_, List.forall_mem_map.mpr hafter⟩
    rw [namedEntries, List.map_append, List.map_cons]
    rfl

-- An entry whose key alone is rendered to its text is kept.
theorem mem_fields_of_nodup (h : (entries.map fun e => e.1.keyName).Nodup) {e : Value × Value}
    (he : e ∈ entries) : (e.1.keyName, e.2.toJson) ∈ insertFields [] (namedEntries entries) := by
  obtain ⟨before, after, rfl⟩ := List.append_of_mem he
  refine (mem_fields_iff _ _).mpr ⟨before, e.1, e.2, after, rfl, rfl, rfl, fun e' he' hsame => ?_⟩
  rw [List.map_append, List.map_cons] at h
  have hrest := (List.nodup_append.mp h).2.1
  exact (List.nodup_cons.mp hrest).1 (hsame ▸ List.mem_map_of_mem he')

theorem length_fields_eq_iff : (insertFields [] (namedEntries entries)).length = entries.length ↔
    (entries.map fun e => e.1.keyName).Nodup := by
  rw [← map_fst_namedEntries, ← Json.length_insertFields_eq_iff, namedEntries, List.length_map]

end Entries

-- Nothing is lost just where no two keys of a mapping are rendered to one text.
theorem kept_toJson_iff (v : Value) : Kept v v.toJson ↔ NamesApart v := by
  induction v using inductionOnParts with
  | null => exact ⟨fun _ => .null, fun _ => .null⟩
  | bool b => exact ⟨fun _ => .bool b, fun _ => .bool b⟩
  | int n => exact ⟨fun _ => .int n, fun _ => .int n⟩
  | double x =>
    refine ⟨fun _ => .double x, fun _ => ?_⟩
    rw [toJson]
    split
    · exact .double x ‹_›
    · exact .notFinite x (Bool.eq_false_of_not_eq_true ‹_›)
  | string s => exact ⟨fun _ => .string s, fun _ => .string s⟩
  | sequence items ih =>
    have hpairs : items.zip (items.map toJson) = items.map fun v => (v, v.toJson) := by
      rw [← List.zip_map', List.map_id']
    rw [toJson_sequence]
    constructor
    · intro h
      cases h with | sequence _ _ _ h =>
      rw [hpairs, List.forall_mem_map] at h
      exact .sequence items fun v hv => (ih v hv).mp (h v hv)
    · intro h
      cases h with | sequence _ h =>
      refine .sequence items _ (List.length_map _) ?_
      rw [hpairs, List.forall_mem_map]
      exact fun v hv => (ih v hv).mpr (h v hv)
  | mapping entries ih =>
    rw [toJson_mapping]
    constructor
    · intro h
      cases h with | mapping _ _ hlength _ _ h =>
      have hnames := length_fields_eq_iff.mp hlength
      exact .mapping entries hnames fun e he =>
        (ih e he).2.mp (h e he _ (mem_fields_of_nodup hnames he))
    · intro h
      cases h with | mapping _ hnames h =>
      refine .mapping entries _ (length_fields_eq_iff.mpr hnames)
        (Json.nodup_keys_insertFields _) (fun e he => (mem_names_iff _).mpr ⟨e, he, rfl⟩) ?_
      intro e he w hw
      -- the object has one value under each key
      have hsame := List.inj_on_of_nodup_map (Json.nodup_keys_insertFields _) hw
        (mem_fields_of_nodup hnames he) rfl
      rw [(Prod.mk.inj hsame).2]
      exact (ih e he).2.mpr (h e he)
  | tagged tag v ih =>
    rw [toJson]
    constructor
    · intro h
      cases h with | tagged _ _ _ h =>
      exact .tagged tag v (ih.mp h)
    · intro h
      cases h with | tagged _ _ h =>
      exact .tagged tag v _ (ih.mpr h)

section Names

-- Converted values can be told by their texts.
theorem proper_toJson (v : Value) : v.toJson.Proper := by
  induction v using inductionOnParts with
  | null => exact .null
  | bool b => exact .bool b
  | int n => exact .number _ trivial
  | double x =>
    rw [toJson]
    split
    · exact .number _ ‹_›
    · exact .null
  | string s => exact .string s
  | sequence items ih =>
    rw [toJson_sequence]
    exact .array _ (List.forall_mem_map.mpr ih)
  | mapping entries ih =>
    rw [toJson_mapping]
    refine .object _ (Json.nodup_keys_insertFields _) fun f hf => ?_
    obtain ⟨before, key, v, after, rfl, -, hv, -⟩ := (mem_fields_iff f.1 f.2).mp hf
    rw [← hv]
    exact (ih (key, v) (by simp)).2
  | tagged tag v ih => exact ih

-- A text that is written as a value of another kind is.
def WrittenAs (v w : Json.Value) : Prop :=
  ∃ s, v = .string s ∧ Kind.ofValue w ≠ .string ∧ w.text = s

theorem keyText_of_ne_string {v : Json.Value} (h : Kind.ofValue v ≠ .string) :
    keyText v = v.text := by
  cases v with
  | string s => exact absurd rfl h
  | _ => rfl

theorem eq_string_of_kind {v : Json.Value} (h : Kind.ofValue v = .string) : ∃ s, v = .string s := by
  cases v with
  | string s => exact ⟨s, rfl⟩
  | _ => cases h

theorem keyText_eq_iff {v w : Json.Value} (hv : v.Proper) (hw : w.Proper) :
    keyText v = keyText w ↔ v = w ∨ WrittenAs v w ∨ WrittenAs w v := by
  constructor
  · intro h
    by_cases hv' : Kind.ofValue v = .string
    · obtain ⟨s, rfl⟩ := eq_string_of_kind hv'
      by_cases hw' : Kind.ofValue w = .string
      · obtain ⟨t, rfl⟩ := eq_string_of_kind hw'
        exact .inl (congrArg Json.Value.string h)
      · rw [keyText_of_ne_string hw'] at h
        exact .inr (.inl ⟨s, rfl, hw', h.symm⟩)
    · rw [keyText_of_ne_string hv'] at h
      by_cases hw' : Kind.ofValue w = .string
      · obtain ⟨t, rfl⟩ := eq_string_of_kind hw'
        exact .inr (.inr ⟨t, rfl, hv', h⟩)
      · rw [keyText_of_ne_string hw'] at h
        exact .inl (Json.Value.text_injective hv hw h)
  · rintro (rfl | ⟨s, rfl, hkind, htext⟩ | ⟨s, rfl, hkind, htext⟩)
    · rfl
    · exact htext.symm.trans (keyText_of_ne_string hkind).symm
    · exact (keyText_of_ne_string hkind).trans htext

end Names

-- Converting a value keeps the items of each sequence in their order, and under each text that keys
-- of a mapping are rendered to the last of their values. All entries are kept, at each level, just
-- where no two keys of a mapping are rendered to one text, which is where they convert to one value
-- or one of them is a text that another value is written as.
theorem toJson_kept :
    (∀ items : List Value, (sequence items).toJson = .array (items.map toJson)) ∧
    (∀ entries : List (Value × Value), ∃ fields, (mapping entries).toJson = .object fields ∧
      (fields.map (·.1)).Nodup ∧
      ∀ name w, (name, w) ∈ fields ↔ ∃ before key v after,
        entries = before ++ (key, v) :: after ∧ key.keyName = name ∧ v.toJson = w ∧
          ∀ e ∈ after, e.1.keyName ≠ name) ∧
    (∀ v : Value, Kept v v.toJson ↔ NamesApart v) ∧
    ∀ key key' : Value, key.keyName = key'.keyName ↔ key.toJson = key'.toJson ∨
      WrittenAs key.toJson key'.toJson ∨ WrittenAs key'.toJson key.toJson :=
  ⟨toJson_sequence,
    fun entries => ⟨_, toJson_mapping entries, Json.nodup_keys_insertFields _, mem_fields_iff⟩,
    kept_toJson_iff,
    fun key key' => keyText_eq_iff (proper_toJson key) (proper_toJson key')⟩

-- The value of a document with two entries, under an integer and the text it is written as.
def numbered : Value := .mapping [(.int 1, .string "a"), (.string "1", .string "b")]

def isNumbered : Value → Bool
  | .mapping [(.int n, .string a), (.string s, .string b)] =>
    n == 1 && a == "a" && s == "1" && b == "b"
  | _ => false

theorem eq_numbered {v : Value} (h : v.isNumbered = true) : v = numbered := by
  unfold isNumbered at h
  split at h
  · simp only [Bool.and_eq_true, beq_iff_eq] at h
    obtain ⟨⟨⟨rfl, rfl⟩, rfl⟩, rfl⟩ := h
    rfl
  · cases h

-- The two keys are not the same, and the value under the first is lost.
theorem toJson_not_kept_numbered :
    Value.read "1: a\n\"1\": b\n" = .ok numbered ∧ same (.int 1) (.string "1") = false ∧
      numbered.toJson.text = "\x7b\"1\":\"b\"\x7d" ∧ ¬Kept numbered numbered.toJson := by
  refine ⟨?_, rfl, by decide +kernel, fun h => ?_⟩
  · have hread : (Value.read "1: a\n\"1\": b\n").toOption.any isNumbered = true := by
      decide +kernel
    cases hvalue : Value.read "1: a\n\"1\": b\n" with
    | error _ =>
      rw [hvalue] at hread
      cases hread
    | ok v =>
      rw [hvalue] at hread
      rw [eq_numbered hread]
  · rw [numbered, toJson_mapping] at h
    cases h with | mapping _ _ hlength _ _ _ => exact absurd hlength (by decide +kernel)

end Likeness.Yaml.Value
