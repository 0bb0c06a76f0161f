import Likeness.Functions.Index
import Likeness.Proofs.Duplicates.Log

namespace Likeness

open Duplicates Number ShapedFunction

namespace ShapedFunction

-- Functions without a name are passed over.
def named (fs : List ShapedFunction) : List ShapedFunction := fs.filter (·.name ≠ "")

def ofDigest (digest : String) (fs : List ShapedFunction) : List ShapedFunction :=
  fs.filter (·.digest = digest)

def ofShape (shape : Shape) (fs : List ShapedFunction) : List ShapedFunction :=
  fs.filter (·.shape = shape)

-- The places of functions, each once.
def places (fs : List ShapedFunction) : List Occurrence :=
  Occurrence.distinct (fs.map occurrence)

theorem named_concat (fs : List ShapedFunction) (f : ShapedFunction) :
    named (fs ++ [f]) = if f.name = "" then named fs else named fs ++ [f] := by
  rw [named, List.filter_append]
  by_cases h : f.name = "" <;> simp [h, named]

theorem ofDigest_concat (digest : String) (fs : List ShapedFunction) (f : ShapedFunction) :
    ofDigest digest (fs ++ [f]) =
      if f.digest = digest then ofDigest digest fs ++ [f] else ofDigest digest fs := by
  rw [ofDigest, List.filter_append]
  by_cases h : f.digest = digest <;> simp [h, ofDigest]

theorem ofDigest_eq_nil_iff (digest : String) (fs : List ShapedFunction) :
    ofDigest digest fs = [] ↔ digest ∉ fs.map ShapedFunction.digest := by
  simp [ofDigest]

end ShapedFunction

namespace FunctionIndex

variable {α : Type} [Scalar α]

-- Adds a function and records what is found.
def insertInto (state : FunctionIndex × Registry α) (f : ShapedFunction) :
    FunctionIndex × Registry α :=
  let (index, found) := state.1.insert f
  (index, state.2.recordAll found.toList)

-- The index and the registry after functions are added one after the other.
def feed (fs : List ShapedFunction) : FunctionIndex × Registry α :=
  fs.foldl insertInto (.empty, .empty)

-- What is found for a function after the first one of its shape.
def found (first f : ShapedFunction) : Finding α :=
  ⟨.functions, f.digest, .function first.name f.shape, Scalar.one, [first.occurrence, f.occurrence]⟩

theorem found_key (first f : ShapedFunction) : (found first f : Finding α).key = f.digest := rfl

-- What is found among functions of one shape: each one but the first is a repetition.
def repeats : List ShapedFunction → List (Finding α)
  | [] => []
  | first :: others => others.map (found first)

theorem insert_eq (index : FunctionIndex) (f : ShapedFunction) (hname : f.name ≠ "") :
    (index.insert f : FunctionIndex × Option (Finding α)) =
      match index.find? f.digest with
      | none => (⟨index.firstSeen ++ [(f.digest, f)]⟩, none)
      | some first => (index, some (found first f)) := by
  simp only [insert, hname, if_false]
  rfl

-- What holds after functions with names were added: the index has the first one of each digest, and
-- the log of a digest tells the repetitions of its first one.
structure Fed (fs : List ShapedFunction) (index : FunctionIndex) (log : List (Finding α)) :
    Prop where
  find?_eq (digest : String) : index.find? digest = (ofDigest digest fs).head?
  digests_eq : index.firstSeen.map (·.1) = (fs.map ShapedFunction.digest).eraseDups
  ofKey_eq (key : String) : ofKey key log = repeats (ofDigest key fs)
  category_eq : ∀ f ∈ log, f.category = .functions

theorem fed_nil : Fed [] empty ([] : List (Finding α)) :=
  ⟨fun _ => rfl, rfl, fun _ => rfl, by simp⟩

theorem find?_append (index : FunctionIndex) (f : ShapedFunction) (digest : String) :
    FunctionIndex.find? ⟨index.firstSeen ++ [(f.digest, f)]⟩ digest =
      (index.find? digest).or (if f.digest = digest then some f else none) := by
  simp only [find?, List.find?_append]
  by_cases h : f.digest = digest <;>
    cases (index.firstSeen.find? (·.1 == digest)) <;> simp [h]

theorem repeats_concat (first f : ShapedFunction) (others : List ShapedFunction) :
    (repeats (first :: others ++ [f]) : List (Finding α)) =
      repeats (first :: others) ++ [found first f] := by simp [repeats]

-- A function of a new digest is the first one, of which nothing is found.
theorem Fed.first {fs : List ShapedFunction} {index : FunctionIndex} {log : List (Finding α)}
    (h : Fed fs index log) (f : ShapedFunction) (hnew : index.find? f.digest = none) :
    Fed (fs ++ [f]) ⟨index.firstSeen ++ [(f.digest, f)]⟩ log := by
  have hnil : ofDigest f.digest fs = [] := by
    rw [← List.head?_eq_none_iff, ← h.find?_eq, hnew]
  refine ⟨fun digest => ?_, ?_, fun key => ?_, h.category_eq⟩
  · rw [find?_append, h.find?_eq, ofDigest_concat]
    by_cases hd : f.digest = digest
    · subst hd
      simp [hnil]
    · simp [hd]
  · rw [List.map_append, h.digests_eq, List.map_append, List.map_singleton, List.map_singleton,
      eraseDups_concat, if_neg ((ofDigest_eq_nil_iff _ fs).mp hnil)]
  · rw [h.ofKey_eq, ofDigest_concat]
    by_cases hd : f.digest = key
    · subst hd
      simp [hnil, repeats]
    · rw [if_neg hd]

-- A function of a known digest repeats the first one.
theorem Fed.again {fs : List ShapedFunction} {index : FunctionIndex} {log : List (Finding α)}
    (h : Fed fs index log) (f first : ShapedFunction)
    (hfirst : index.find? f.digest = some first) :
    Fed (fs ++ [f]) index (log ++ [found first f]) := by
  rw [h.find?_eq] at hfirst
  obtain ⟨others, hothers⟩ : ∃ others, ofDigest f.digest fs = first :: others :=
    List.head?_eq_some_iff.mp hfirst
  have hmem : f.digest ∈ fs.map ShapedFunction.digest := by
    by_contra hne
    rw [← ofDigest_eq_nil_iff, hothers] at hne
    cases hne
  refine ⟨fun digest => ?_, ?_, fun key => ?_, ?_⟩
  · rw [h.find?_eq, ofDigest_concat]
    by_cases hd : f.digest = digest
    · subst hd
      simp [hothers]
    · rw [if_neg hd]
  · rw [h.digests_eq, List.map_append, List.map_singleton, eraseDups_concat, if_pos hmem]
  · rw [ofKey_concat, found_key, h.ofKey_eq, ofDigest_concat]
    by_cases hd : f.digest = key
    · subst hd
      rw [if_pos rfl, if_pos rfl, hothers, repeats_concat]
    · rw [if_neg hd, if_neg hd]
  · simpa [found, or_imp, forall_and] using h.category_eq

theorem Fed.insert {fs : List ShapedFunction} {index : FunctionIndex} {log : List (Finding α)}
    (h : Fed (named fs) index log) (f : ShapedFunction) :
    Fed (named (fs ++ [f])) (index.insert (α := α) f).1 (log ++ (index.insert f).2.toList) := by
  rw [named_concat]
  by_cases hname : f.name = ""
  · simpa [FunctionIndex.insert, hname] using h
  · rw [if_neg hname, insert_eq index f hname]
    cases hfind : index.find? f.digest with
    | none => simpa using h.first f hfind
    | some first => simpa using h.again f first hfind

theorem feed_concat (fs : List ShapedFunction) (f : ShapedFunction) :
    (feed (fs ++ [f]) : FunctionIndex × Registry α) = insertInto (feed fs) f := by
  rw [feed, List.foldl_append]
  rfl

-- Whatever functions are added, the index and the registry go back to one log.
theorem fed_feed (fs : List ShapedFunction) :
    ∃ log : List (Finding α), Fed (named fs) (feed (α := α) fs).1 log ∧
      (feed fs).2 = Registry.empty.recordAll log := by
  induction fs using List.reverseRecOn with
  | nil => exact ⟨[], fed_nil, rfl⟩
  | append_singleton fs f ih =>
    obtain ⟨log, hfed, hregistry⟩ := ih
    refine ⟨log ++ ((feed (α := α) fs).1.insert f).2.toList, ?_, ?_⟩
    · rw [feed_concat]
      exact hfed.insert f
    · rw [feed_concat, Registry.recordAll_append, ← hregistry]
      rfl

-- The registry is the one that the findings among the functions make.
theorem feed_registry (fs : List ShapedFunction) :
    (feed fs).2 = (Registry.empty : Registry α).recordAll (empty.findings fs) := by
  suffices h : ∀ (index : FunctionIndex) (r : Registry α),
      (fs.foldl insertInto (index, r)).2 = r.recordAll (index.findings fs) from h empty .empty
  induction fs with
  | nil => exact fun index r => rfl
  | cons f fs ih =>
    intro index r
    rcases hinsert : index.insert (α := α) f with ⟨next, _ | finding⟩ <;>
      rw [List.foldl_cons, insertInto, findings, hinsert, ih] <;> rfl

theorem category_of_mem_findings (index : FunctionIndex) (fs : List ShapedFunction) :
    ∀ found ∈ index.findings (α := α) fs, found.category = .functions := by
  induction fs generalizing index with
  | nil => simp [findings]
  | cons f fs ih =>
    by_cases hname : f.name = ""
    · simpa [findings, insert, hname] using ih index
    · rw [findings, insert_eq index f hname]
      cases hfind : index.find? f.digest with
      | none => exact ih _
      | some first => exact List.forall_mem_cons.mpr ⟨rfl, ih _⟩

theorem similarity_of_mem_findings (index : FunctionIndex) (fs : List ShapedFunction) :
    ∀ found ∈ index.findings (α := α) fs, found.similarity = Scalar.one := by
  induction fs generalizing index with
  | nil => simp [findings]
  | cons f fs ih =>
    by_cases hname : f.name = ""
    · simpa [findings, insert, hname] using ih index
    · rw [findings, insert_eq index f hname]
      cases hfind : index.find? f.digest with
      | none => exact ih _
      | some first => exact List.forall_mem_cons.mpr ⟨rfl, ih _⟩

end FunctionIndex

end Likeness
