import Likeness.Proofs.Json.Number

namespace Likeness.Json

namespace Value

-- What holds of each value that is made of values it holds of holds of all values.
@[elab_as_elim]
theorem inductionOnParts {motive : Value → Prop} (null : motive .null)
    (bool : ∀ b, motive (.bool b)) (number : ∀ n, motive (.number n))
    (string : ∀ s, motive (.string s))
    (array : ∀ items, (∀ v ∈ items, motive v) → motive (.array items))
    (object : ∀ fields, (∀ f ∈ fields, motive f.2) → motive (.object fields)) (v : Value) :
    motive v := by
  refine @Value.rec motive (fun items => ∀ v ∈ items, motive v)
    (fun fields => ∀ f ∈ fields, motive f.2) (fun f => motive f.2)
    null bool number string array object ?_ ?_ ?_ ?_ ?_ v
  · simp
  · exact fun v items hv hitems => List.forall_mem_cons.mpr ⟨hv, hitems⟩
  · simp
  · exact fun f fields hf hfields => List.forall_mem_cons.mpr ⟨hf, hfields⟩
  · exact fun key v hv => hv

-- Values as documents have them: doubles are finite, and no object has a key twice.
inductive Proper : Value → Prop where
  | null : Proper .null
  | bool (b : Bool) : Proper (.bool b)
  | number (n : Number) (h : n.IsFinite) : Proper (.number n)
  | string (s : String) : Proper (.string s)
  | array (items : List Value) (h : ∀ v ∈ items, Proper v) : Proper (.array items)
  | object (fields : List (String × Value)) (hkeys : (fields.map (·.1)).Nodup)
    (h : ∀ f ∈ fields, Proper f.2) : Proper (.object fields)

section Proper

variable (n : Number) (items : List Value) (fields : List (String × Value))

@[simp] theorem proper_null : Proper .null := .null

@[simp] theorem proper_bool (b : Bool) : Proper (.bool b) := .bool b

@[simp] theorem proper_string (s : String) : Proper (.string s) := .string s

@[simp] theorem proper_number_iff : Proper (.number n) ↔ n.IsFinite := by
  refine ⟨fun h => ?_, .number n⟩
  cases h with | number _ h => exact h

@[simp] theorem proper_array_iff : Proper (.array items) ↔ ∀ v ∈ items, Proper v := by
  refine ⟨fun h => ?_, .array items⟩
  cases h with | array _ h => exact h

@[simp] theorem proper_object_iff : Proper (.object fields) ↔
    (fields.map (·.1)).Nodup ∧ ∀ f ∈ fields, Proper f.2 := by
  refine ⟨fun h => ?_, fun h => .object fields h.1 h.2⟩
  cases h with | object _ hkeys h => exact ⟨hkeys, h⟩

end Proper

end Value

section Lookup

variable {key : String} {v : Value} {fields : List (String × Value)}

theorem mem_of_lookup (h : lookup key fields = some v) : (key, v) ∈ fields := by
  induction fields with
  | nil => cases h
  | cons field rest ih =>
    obtain ⟨k, w⟩ := field
    rw [lookup] at h
    split at h
    · rename_i hk
      rw [Option.some.injEq] at h
      rw [hk, h]
      exact List.mem_cons_self
    · exact List.mem_cons_of_mem _ (ih h)

theorem lookup_eq_none_iff : lookup key fields = none ↔ key ∉ fields.map (·.1) := by
  induction fields with
  | nil => simp [lookup]
  | cons field rest ih =>
    obtain ⟨k, w⟩ := field
    rw [lookup]
    split
    · rename_i hk
      simp [hk]
    · rename_i hk
      rw [ih, List.map_cons, List.mem_cons, not_or]
      exact ⟨fun h => ⟨Ne.symm hk, h⟩, fun h => h.2⟩

theorem lookup_eq_some_iff (hkeys : (fields.map (·.1)).Nodup) :
    lookup key fields = some v ↔ (key, v) ∈ fields := by
  refine ⟨mem_of_lookup, fun h => ?_⟩
  cases hfound : lookup key fields with
  | none => exact absurd (List.mem_map_of_mem h) (lookup_eq_none_iff.mp hfound)
  | some w =>
    have hpair := List.inj_on_of_nodup_map hkeys (mem_of_lookup hfound) h rfl
    rw [(Prod.mk.inj hpair).2]

end Lookup

end Likeness.Json
