import Likeness.Proofs.Duplicates.Site
import Likeness.Resources.Document

namespace Likeness.Resources

open Duplicates Json

mutual

-- The keys that lead to each value that is met, in the order of the visits.
def chainsFields (depth : Nat) : List (String × Value) → List (List String)
  | [] => []
  | (key, value) :: rest =>
    [key] :: ((chainsBelow (depth + 1) value).map (key :: ·) ++ chainsFields depth rest)

def chainsBelow (depth : Nat) : Value → List (List String)
  | .object fields => if depthLimit < depth then [] else chainsFields depth fields
  | _ => []

end

def joinChain (path : String) (chain : List String) : String := chain.foldl joinKey path

namespace Visit

def place? : Visit → Option Place
  | .place p => some p
  | .tooDeep _ _ => none

end Visit

namespace Document

def places (d : Document) : List Place := d.visits.filterMap Visit.place?

-- The key paths of the values of a document, as they are reported.
def keyPaths (d : Document) : List String := (chainsBelow 1 d.value).map (joinChain "")

end Document

theorem catalogue_eq (ds : List Document) : catalogue ds = ds.flatMap Document.places := by
  rw [catalogue, List.filterMap_flatMap]
  rfl

mutual

theorem places_visitFields (file : Files.Path) (path : String) (depth : Nat)
    (fields : List (String × Value)) :
    ((visitFields file path depth fields).filterMap Visit.place?).map (·.occurrence) =
      (chainsFields depth fields).map fun chain => ⟨file, .keyPath (joinChain path chain), none⟩ := by
  cases fields with
  | nil => simp [visitFields, chainsFields]
  | cons field rest =>
    obtain ⟨key, value⟩ := field
    have hbelow := places_visitBelow file (joinKey path key) (depth + 1) value
    have hrest := places_visitFields file path depth rest
    rw [visitFields, chainsFields, List.filterMap_cons_some (f := Visit.place?) rfl,
      List.filterMap_append,
      List.map_cons, List.map_append, hbelow, hrest, List.map_cons, List.map_append, List.map_map]
    rfl

theorem places_visitBelow (file : Files.Path) (path : String) (depth : Nat) (value : Value) :
    ((visitBelow file path depth value).filterMap Visit.place?).map (·.occurrence) =
      (chainsBelow depth value).map fun chain => ⟨file, .keyPath (joinChain path chain), none⟩ := by
  cases value with
  | object fields =>
    rw [visitBelow, chainsBelow]
    split
    · rfl
    · exact places_visitFields file path depth fields
  | _ => rfl

end

theorem Document.map_occurrence_places (d : Document) :
    d.places.map (·.occurrence) = d.keyPaths.map fun path => ⟨d.file, .keyPath path, none⟩ := by
  rw [places, visits, places_visitBelow, keyPaths, List.map_map]
  rfl

mutual

-- Whether the fields of each object have different keys.
def distinctFields : List (String × Value) → Bool
  | [] => true
  | (key, value) :: rest =>
    !(rest.map (·.1)).contains key && distinctBelow value && distinctFields rest

def distinctBelow : Value → Bool
  | .object fields => distinctFields fields
  | _ => true

end

theorem exists_head_of_mem_chainsFields (depth : Nat) (fields : List (String × Value)) :
    ∀ chain ∈ chainsFields depth fields, ∃ key ∈ fields.map (·.1), chain.head? = some key := by
  induction fields with
  | nil => simp [chainsFields]
  | cons field rest ih =>
    intro chain hchain
    simp only [chainsFields, List.mem_cons, List.mem_append, List.mem_map] at hchain
    rcases hchain with rfl | ⟨below, -, rfl⟩ | hrest
    · exact ⟨field.1, by simp, rfl⟩
    · exact ⟨field.1, by simp, rfl⟩
    · obtain ⟨key, hkey, hhead⟩ := ih chain hrest
      exact ⟨key, List.mem_cons_of_mem _ hkey, hhead⟩

theorem ne_nil_of_mem_chainsBelow (depth : Nat) (value : Value) :
    ∀ chain ∈ chainsBelow depth value, chain ≠ [] := by
  intro chain hchain
  cases value with
  | object fields =>
    rw [chainsBelow] at hchain
    split at hchain
    · cases hchain
    · obtain ⟨key, -, hhead⟩ := exists_head_of_mem_chainsFields depth fields chain hchain
      rintro rfl
      cases hhead
  | _ => cases hchain

mutual

-- Each value has keys of its own that lead to it, if no object has a key twice.
theorem nodup_chainsFields (depth : Nat) (fields : List (String × Value))
    (h : distinctFields fields = true) : (chainsFields depth fields).Nodup := by
  cases fields with
  | nil => exact List.nodup_nil
  | cons field rest =>
    obtain ⟨key, value⟩ := field
    simp only [distinctFields, Bool.and_eq_true, Bool.not_eq_true', List.contains_eq_mem,
      decide_eq_false_iff_not] at h
    have hother : ∀ chain ∈ chainsFields depth rest, chain.head? ≠ some key := by
      intro chain hchain hhead
      obtain ⟨other, hmem, hhead'⟩ := exists_head_of_mem_chainsFields depth rest chain hchain
      rw [hhead, Option.some.injEq] at hhead'
      exact h.1.1 (hhead' ▸ hmem)
    rw [chainsFields, List.nodup_cons, List.mem_append, List.nodup_append]
    refine ⟨?_, ?_, nodup_chainsFields depth rest h.2, ?_⟩
    · rintro (hbelow | hrest)
      · obtain ⟨below, hmem, heq⟩ := List.mem_map.mp hbelow
        exact ne_nil_of_mem_chainsBelow _ value below hmem (List.cons.inj heq).2
      · exact hother _ hrest rfl
    · exact (nodup_chainsBelow (depth + 1) value h.1.2).map fun _ _ heq => (List.cons.inj heq).2
    · rintro _ hbelow _ hrest rfl
      obtain ⟨below, -, rfl⟩ := List.mem_map.mp hbelow
      exact hother _ hrest rfl

theorem nodup_chainsBelow (depth : Nat) (value : Value) (h : distinctBelow value = true) :
    (chainsBelow depth value).Nodup := by
  cases value with
  | object fields =>
    rw [chainsBelow]
    split
    · exact List.nodup_nil
    · exact nodup_chainsFields depth fields h
  | _ => exact List.nodup_nil

end

theorem joinChain_eq_intercalate (chain : List String) (path : String) (hpath : path ≠ "") :
    joinChain path chain = ".".intercalate (path :: chain) := by
  induction chain generalizing path with
  | nil => simp [joinChain]
  | cons key rest ih =>
    have hnext : path ++ "." ++ key ≠ "" := by simp [String.append_eq_empty_iff]
    have hcons : joinChain path (key :: rest) = joinChain (path ++ "." ++ key) rest := by
      rw [joinChain, List.foldl_cons, joinKey, if_neg hpath, joinChain]
    rw [hcons, ih _ hnext, String.intercalate_cons_append, String.intercalate_cons_cons]

-- Keys can be read back from the path they are joined to, if the first one is not empty and none
-- has a point in it.
theorem joinChain_injective {chain other : List String} (hne : chain ≠ []) (hne' : other ≠ [])
    (hhead : chain.head? ≠ some "") (hhead' : other.head? ≠ some "")
    (hpoint : ∀ key ∈ chain, '.' ∉ key.toList) (hpoint' : ∀ key ∈ other, '.' ∉ key.toList)
    (h : joinChain "" chain = joinChain "" other) : chain = other := by
  have hjoin : ∀ c : List String, c ≠ [] → c.head? ≠ some "" →
      joinChain "" c = ".".intercalate c := by
    rintro (_ | ⟨key, rest⟩) hc hkey
    · exact absurd rfl hc
    · exact joinChain_eq_intercalate rest key (by simpa using hkey)
  rw [hjoin chain hne hhead, hjoin other hne' hhead'] at h
  have hsplit := String.toList_split_intercalate hpoint
  rw [if_neg hne] at hsplit
  have hsplit' := String.toList_split_intercalate hpoint'
  rw [if_neg hne'] at hsplit'
  rw [← hsplit, ← hsplit']
  exact congrArg (fun path : String => (path.split '.').toList.map (·.copy)) h

-- Keys that tell the values of a document apart when they are joined: the document itself has no
-- empty key, and no key has a point in it.
structure Document.Plain (d : Document) : Prop where
  head_ne : ∀ chain ∈ chainsBelow 1 d.value, chain.head? ≠ some ""
  no_point : ∀ chain ∈ chainsBelow 1 d.value, ∀ key ∈ chain, '.' ∉ key.toList

theorem Document.Plain.nodup_keyPaths {d : Document} (h : d.Plain)
    (hkeys : distinctBelow d.value = true) : d.keyPaths.Nodup := by
  refine (nodup_chainsBelow 1 d.value hkeys).map_on fun chain hchain other hother heq => ?_
  exact joinChain_injective (ne_nil_of_mem_chainsBelow _ _ _ hchain)
    (ne_nil_of_mem_chainsBelow _ _ _ hother) (h.head_ne _ hchain) (h.head_ne _ hother)
    (h.no_point _ hchain) (h.no_point _ hother) heq

end Likeness.Resources
