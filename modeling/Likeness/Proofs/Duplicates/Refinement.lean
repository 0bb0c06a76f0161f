import Likeness.Proofs.Duplicates.Log

namespace Likeness.Duplicates

open Number

variable {α : Type} [Scalar α]

namespace Group

theorem raise_cases (a b : α) : raise a b = a ∨ raise a b = Scalar.limit b := by
  unfold raise
  split <;> simp

variable [OrderedScalar α]

theorem le_raise (a b : α) (ha : Scalar.isNumber a) (hb : Scalar.isNumber b) :
    Scalar.le a (raise a b) = true ∧ Scalar.le (Scalar.limit b) (raise a b) = true := by
  have hlimit := Scalar.isNumber_limit hb
  unfold raise
  split
  · rename_i hlt
    exact ⟨Scalar.le_of_lt hlt, hlimit⟩
  · rename_i hlt
    exact ⟨ha, Scalar.le_of_not_lt ha hlimit (Bool.not_eq_true _ ▸ hlt)⟩

-- A score that is raised again and again ends as the highest of all.
theorem foldl_raise (scores : List α) (first : α) (hfirst : Scalar.isNumber first)
    (hn : ∀ s ∈ scores, Scalar.isNumber s) :
    (scores.foldl raise first = first ∨ ∃ s ∈ scores, scores.foldl raise first = Scalar.limit s) ∧
      Scalar.le first (scores.foldl raise first) = true ∧
      ∀ s ∈ scores, Scalar.le (Scalar.limit s) (scores.foldl raise first) = true := by
  induction scores generalizing first with
  | nil => exact ⟨.inl rfl, hfirst, by simp⟩
  | cons s scores ih =>
    obtain ⟨hs, hscores⟩ := List.forall_mem_cons.mp hn
    obtain ⟨hleft, hright⟩ := le_raise first s hfirst hs
    have hraised : Scalar.isNumber (raise first s) = true :=
      (OrderedScalar.isNumber_of_le _ _ hleft).2
    obtain ⟨hmem, hle, hall⟩ := ih (raise first s) hraised hscores
    rw [List.foldl_cons]
    refine ⟨?_, OrderedScalar.le_trans _ _ _ hleft hle, List.forall_mem_cons.mpr
      ⟨OrderedScalar.le_trans _ _ _ hright hle, hall⟩⟩
    rcases hmem with h | ⟨t, ht, h⟩
    · rw [h]
      rcases raise_cases first s with h | h
      · exact .inl h
      · exact .inr ⟨s, List.mem_cons_self, h⟩
    · exact .inr ⟨t, List.mem_cons_of_mem _ ht, h⟩

end Group

-- What the findings about one key tell of its group.
structure Tells (log : List (Finding α)) (g : Group α) : Prop where
  -- the representative of the first one
  representative_eq : log.head?.map (·.representative) = some g.representative
  -- the highest of their scores, each brought into [0, 1]
  similarity_mem : ∃ f ∈ log, g.similarity = Scalar.limit f.similarity
  le_similarity : ∀ f ∈ log, Scalar.le (Scalar.limit f.similarity) g.similarity
  -- all their occurrences, without those at the site of an earlier one
  occurrences_eq : g.occurrences = Occurrence.distinct (log.flatMap (·.occurrences))

theorem tells_of_gather [OrderedScalar α] {log : List (Finding α)} {g : Group α}
    (h : gather log = some g) (hn : ∀ f ∈ log, Scalar.isNumber f.similarity) : Tells log g := by
  cases log with
  | nil => simp [gather] at h
  | cons f rest =>
    obtain ⟨hf, hrest⟩ := List.forall_mem_cons.mp hn
    have hscores : ∀ s ∈ rest.map (·.similarity), Scalar.isNumber s := by simpa using hrest
    obtain ⟨hmem, hle, hall⟩ := Group.foldl_raise _ _ (Scalar.isNumber_limit hf) hscores
    rw [gather, Option.some.injEq] at h
    subst h
    refine ⟨rfl, ?_, List.forall_mem_cons.mpr ⟨hle, by simpa using hall⟩, rfl⟩
    rcases hmem with heq | ⟨s, hs, heq⟩
    · exact ⟨f, List.mem_cons_self, heq⟩
    · obtain ⟨x, hx, rfl⟩ := List.mem_map.mp hs
      exact ⟨x, List.mem_cons_of_mem _ hx, heq⟩

namespace Registry

-- A registry that is what a log of findings tells.
structure Agrees (r : Registry α) (log : List (Finding α)) : Prop where
  contains_iff (category : Category) (key : String) :
    r.contains category key = true ↔ ∃ f ∈ log, f.category = category ∧ f.key = key
  -- one group for each key, in the order of the first findings
  keys_eq (category : Category) :
    (r.groups category).map (·.key) = keysOf (ofCategory category log)
  tells (category : Category) : ∀ g ∈ r.groups category,
    g.category = category ∧ Tells (ofKey g.key (ofCategory category log)) g

theorem agrees_recordAll [OrderedScalar α] (log : List (Finding α))
    (hn : ∀ f ∈ log, Scalar.isNumber f.similarity) : (empty.recordAll log).Agrees log := by
  refine ⟨fun category key => ?_, fun category => (follows_recordAll log category).keys_eq,
    fun category g hg => ?_⟩
  · have h := follows_recordAll log category
    rw [contains, h.inStep.isSome_place?_iff, h.mem_keys_iff]
    simp [ofCategory, and_assoc]
  · have hgather := (follows_recordAll log category).gather_eq g hg
    have hsub : ∀ f ∈ ofKey g.key (ofCategory category log), f ∈ log ∧ f.category = category := by
      simp +contextual [ofKey, ofCategory]
    obtain ⟨f, hf, hcategory, -⟩ := exists_mem_of_gather hgather
    exact ⟨hcategory.trans (hsub f hf).2, tells_of_gather hgather fun f hf => hn f (hsub f hf).1⟩

-- A registry refines the log of its findings. It agrees with every part of the log when that part
-- is recorded; each finding gives the number of occurrences it adds to the group of its key and
-- leaves all other groups alone.
theorem recordAll_refines [OrderedScalar α] (log : List (Finding α))
    (hn : ∀ f ∈ log, Scalar.isNumber f.similarity) :
    (∀ n, (empty.recordAll (log.take n)).Agrees (log.take n)) ∧
    ∀ before f after, log = before ++ f :: after →
      let r : Registry α := empty.recordAll before
      let next := (r.record f).1
      (∃ new, (next.shelf f.category).occurrencesAt f.key =
          (r.shelf f.category).occurrencesAt f.key ++ new ∧ (r.record f).2 = new.length) ∧
        ∀ category key, category ≠ f.category ∨ key ≠ f.key →
          (next.shelf category).group? key = (r.shelf category).group? key := by
  constructor
  · intro n
    exact agrees_recordAll _ fun f hf => hn f (List.mem_of_mem_take hf)
  · intro before f after _ r next
    have hfollows := follows_recordAll before f.category
    have hshelf : next.shelf f.category = ((r.shelf f.category).record f).1 := by
      rw [shelf_record, if_pos rfl]
    refine ⟨?_, fun category key hother => ?_⟩
    · rw [hshelf]
      exact hfollows.record_added f
    · by_cases hcategory : f.category = category
      · subst hcategory
        rw [hshelf]
        exact Shelf.group?_record_other hfollows.inStep f key (by simpa using hother)
      · rw [shelf_record, if_neg hcategory]

def rising : List (Finding Float) :=
  [⟨.resources, "k", .value .null, 0.85,
      [⟨"a.json", .keyPath "x", some 1⟩, ⟨"b.json", .keyPath "x", none⟩]⟩,
    ⟨.modules, "k", .module 70, 0.7, [⟨"a.js", .module, none⟩]⟩,
    ⟨.resources, "k", .value (.bool true), 7,
      [⟨"a.json/", .keyPath "x", some 2⟩, ⟨"c.json", .keyPath "x", none⟩]⟩]

theorem recordAll_refines_rising :
    (∀ f ∈ rising, Scalar.isNumber f.similarity) ∧ (empty.recordAll rising).Agrees rising :=
  ⟨by decide, (recordAll_refines rising (by decide)).1 3⟩

end Registry

end Likeness.Duplicates
