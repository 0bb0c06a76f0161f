import Likeness.Proofs.Duplicates.Shelf
import Likeness.Proofs.Number.Order

namespace Likeness.Duplicates

open Number

section Log

variable {α : Type}

-- A log is a list of findings in the order they are recorded. These are its findings about one key.
def ofKey (key : String) (log : List (Finding α)) : List (Finding α) := log.filter (·.key = key)

def ofCategory (category : Category) (log : List (Finding α)) : List (Finding α) :=
  log.filter (·.category = category)

-- The keys of a log in the order of their first findings.
def keysOf (log : List (Finding α)) : List String := (log.map (·.key)).eraseDups

theorem ofKey_concat (key : String) (log : List (Finding α)) (f : Finding α) :
    ofKey key (log ++ [f]) = if f.key = key then ofKey key log ++ [f] else ofKey key log := by
  rw [ofKey, List.filter_append]
  by_cases h : f.key = key <;> simp [h, ofKey]

theorem ofKey_eq_nil_iff (key : String) (log : List (Finding α)) :
    ofKey key log = [] ↔ key ∉ log.map (·.key) := by
  simp [ofKey]

theorem mem_ofKey_ofCategory_iff {log : List (Finding α)} {f : Finding α} {category : Category}
    {key : String} :
    f ∈ ofKey key (ofCategory category log) ↔ f ∈ log ∧ f.category = category ∧ f.key = key := by
  simp [ofKey, ofCategory, and_assoc, and_comm]

theorem ofCategory_ofCategory (category : Category) (log : List (Finding α)) :
    ofCategory category (ofCategory category log) = ofCategory category log := by
  simp [ofCategory]

theorem ofCategory_eq_self {category : Category} {log : List (Finding α)}
    (hlog : ∀ f ∈ log, f.category = category) : ofCategory category log = log :=
  List.filter_eq_self.mpr fun f hf => by simp [hlog f hf]

-- What is recorded of one category after findings of other ones.
theorem ofCategory_append {category : Category} {earlier log : List (Finding α)}
    (hearlier : ∀ f ∈ earlier, f.category ≠ category) (hlog : ∀ f ∈ log, f.category = category) :
    ofCategory category (earlier ++ log) = log := by
  have hnone : ofCategory category earlier = [] := by simpa [ofCategory] using hearlier
  rw [ofCategory, List.filter_append]
  exact (congrArg₂ (· ++ ·) hnone (ofCategory_eq_self hlog)).trans (List.nil_append log)

end Log

variable {α : Type} [Scalar α]

-- What findings of one key make of its group: the first one makes it, each one raises its score,
-- and all together give its occurrences.
def gather : List (Finding α) → Option (Group α)
  | [] => none
  | f :: rest =>
    some ⟨f.category, f.key, f.representative,
      (rest.map (·.similarity)).foldl Group.raise (Scalar.limit f.similarity),
      Occurrence.distinct ((f :: rest).flatMap (·.occurrences))⟩

-- One more finding adds to the group, which it makes if it is the first.
theorem gather_concat (log : List (Finding α)) (f : Finding α) :
    gather (log ++ [f]) = some (f.addTo ((gather log).getD f.firstGroup)) := by
  cases log with
  | nil =>
    have hraise : Group.raise (Scalar.limit f.similarity) f.similarity =
        Scalar.limit f.similarity := by simp [Group.raise, Scalar.lt_self]
    rw [List.nil_append, gather, gather, Option.getD_none, f.addTo_eq f.firstGroup [] rfl]
    simp [Finding.firstGroup, Group.make, hraise]
  | cons first rest =>
    simp only [gather, List.cons_append, Option.getD_some]
    rw [f.addTo_eq _ _ rfl]
    simp [List.flatMap_append]

theorem exists_mem_of_gather {log : List (Finding α)} {g : Group α} (h : gather log = some g) :
    ∃ f ∈ log, g.category = f.category ∧ g.key = f.key := by
  cases log with
  | nil => simp [gather] at h
  | cons f rest =>
    rw [gather, Option.some.injEq] at h
    exact ⟨f, List.mem_cons_self, by rw [← h], by rw [← h]⟩

theorem occurrences_of_gather {log : List (Finding α)} {g : Group α}
    (h : gather log = some g) :
    g.occurrences = Occurrence.distinct (log.flatMap (·.occurrences)) := by
  cases log with
  | nil => simp [gather] at h
  | cons f rest =>
    rw [gather, Option.some.injEq] at h
    rw [← h]

namespace Shelf

def recordAll (s : Shelf α) (log : List (Finding α)) : Shelf α :=
  log.foldl (fun s f => (s.record f).1) s

-- A shelf that holds what a log makes of it.
structure Follows (s : Shelf α) (log : List (Finding α)) : Prop where
  inStep : s.InStep
  keys_eq : s.keys = keysOf log
  gather_eq : ∀ g ∈ s.groups, gather (ofKey g.key log) = some g

theorem follows_empty : (empty : Shelf α).Follows [] := ⟨inStep_empty, rfl, by simp [empty]⟩

theorem Follows.mem_keys_iff {s : Shelf α} {log : List (Finding α)} (h : s.Follows log)
    (key : String) : key ∈ s.keys ↔ key ∈ log.map (·.key) := by
  rw [h.keys_eq, keysOf, List.mem_eraseDups]

-- A group is on the shelf just when the log makes it.
theorem Follows.mem_groups_iff {s : Shelf α} {log : List (Finding α)} (h : s.Follows log)
    (g : Group α) : g ∈ s.groups ↔ gather (ofKey g.key log) = some g := by
  refine ⟨h.gather_eq g, fun hgather => ?_⟩
  obtain ⟨f, hf, -, hkey⟩ := exists_mem_of_gather hgather
  have hmem : g.key ∈ s.keys := by
    rw [h.mem_keys_iff, hkey]
    exact List.mem_map_of_mem (List.mem_of_mem_filter hf)
  obtain ⟨other, hother, hsame⟩ := List.mem_map.mp hmem
  have hboth := h.gather_eq other hother
  rw [hsame, hgather, Option.some.injEq] at hboth
  rwa [hboth]

theorem Follows.keysOf_concat {s : Shelf α} {log : List (Finding α)} (h : s.Follows log)
    (f : Finding α) :
    keysOf (log ++ [f]) = if f.key ∈ s.keys then s.keys else s.keys ++ [f.key] := by
  simp only [h.keys_eq, keysOf, List.map_append, List.map_singleton, eraseDups_concat,
    List.mem_eraseDups]

-- A group of another key is what the log makes of it, with or without one more finding.
theorem Follows.gather_other {s : Shelf α} {log : List (Finding α)} (h : s.Follows log)
    {g : Group α} (hg : g ∈ s.groups) {f : Finding α} (hne : f.key ≠ g.key) :
    gather (ofKey g.key (log ++ [f])) = some g := by
  rw [ofKey_concat, if_neg hne]
  exact h.gather_eq g hg

theorem Follows.record {s : Shelf α} {log : List (Finding α)} (h : s.Follows log)
    (f : Finding α) : (s.record f).1.Follows (log ++ [f]) := by
  have hnodup := h.inStep.nodup_keys
  rcases record_cases h.inStep f with ⟨before, g, after, hgroups, hkey, hrecord⟩ | ⟨hnew, hrecord⟩
  · have hsplit : s.keys = before.map (·.key) ++ g.key :: after.map (·.key) := by
      simp [keys, hgroups]
    refine ⟨h.inStep.record f, ?_, ?_⟩
    · rw [h.keysOf_concat, if_pos (by simp [hsplit, hkey]), hrecord]
      simp [keys, hgroups]
    · rw [hsplit, List.nodup_middle, List.nodup_cons] at hnodup
      have hother : ∀ x, x ∈ before ∨ x ∈ after → f.key ≠ x.key := by
        rintro x hx heq
        apply hnodup.1
        rw [hkey, heq, ← List.map_append]
        exact List.mem_map_of_mem (List.mem_append.mpr hx)
      intro x hx
      rw [hrecord, List.mem_append, List.mem_cons] at hx
      rcases hx with hx | rfl | hx
      · exact h.gather_other (by simp [hgroups, hx]) (hother x (.inl hx))
      · rw [Finding.addTo_key, ofKey_concat, if_pos hkey.symm, gather_concat,
          h.gather_eq g (by simp [hgroups]), Option.getD_some]
      · exact h.gather_other (by simp [hgroups, hx]) (hother x (.inr hx))
  · refine ⟨h.inStep.record f, ?_, ?_⟩
    · rw [h.keysOf_concat, if_neg hnew, hrecord]
      simp [keys]
    · intro x hx
      rw [hrecord, List.mem_append, List.mem_singleton] at hx
      rcases hx with hx | rfl
      · refine h.gather_other hx fun heq => hnew ?_
        rw [heq]
        exact List.mem_map_of_mem hx
      · have hnil : ofKey f.key log = [] := by rwa [ofKey_eq_nil_iff, ← h.mem_keys_iff]
        rw [Finding.addTo_key, Finding.firstGroup_key, ofKey_concat, if_pos rfl, gather_concat, hnil,
          gather, Option.getD_none]

theorem Follows.recordAll {s : Shelf α} {log : List (Finding α)} (h : s.Follows log)
    (more : List (Finding α)) : (s.recordAll more).Follows (log ++ more) := by
  induction more generalizing s log with
  | nil => simpa [Shelf.recordAll] using h
  | cons f more ih => simpa [Shelf.recordAll] using ih (h.record f)

-- The number that a finding gives is the number of occurrences it adds to the group of its key.
theorem Follows.record_added {s : Shelf α} {log : List (Finding α)} (h : s.Follows log)
    (f : Finding α) :
    ∃ new, (s.record f).1.occurrencesAt f.key = s.occurrencesAt f.key ++ new ∧
      (s.record f).2 = new.length := by
  have hstep := h.inStep.record f
  rcases record_cases h.inStep f with ⟨before, g, after, hgroups, hkey, hrecord⟩ | ⟨hnew, hrecord⟩
  · have hg : g ∈ s.groups := by simp [hgroups]
    have hbefore : s.group? f.key = some g := (h.inStep.group?_eq_some_iff g _).mpr ⟨hg, hkey⟩
    have hafter : (s.record f).1.group? f.key = some (f.addTo g) :=
      (hstep.group?_eq_some_iff _ _).mpr ⟨by simp [hrecord], by simpa using hkey⟩
    obtain ⟨new, hnew⟩ := f.addTo_occurrences g _ (occurrences_of_gather (h.gather_eq g hg))
    refine ⟨new, by rw [occurrencesAt, occurrencesAt, hbefore, hafter]; exact hnew, ?_⟩
    rw [hrecord]
    simp [Group.size, hnew]
  · have hbefore : s.group? f.key = none := (s.group?_eq_none_iff f.key).mpr hnew
    have hafter : (s.record f).1.group? f.key = some (f.addTo f.firstGroup) :=
      (hstep.group?_eq_some_iff _ _).mpr ⟨by simp [hrecord], by simp⟩
    refine ⟨(f.addTo f.firstGroup).occurrences, ?_, by rw [hrecord]; rfl⟩
    rw [occurrencesAt, occurrencesAt, hbefore, hafter, Option.elim_none, Option.elim_some,
      List.nil_append]

end Shelf

namespace Registry

theorem recordAll_append (r : Registry α) (log more : List (Finding α)) :
    r.recordAll (log ++ more) = (r.recordAll log).recordAll more := List.foldl_append

-- A finding is recorded on the shelf of its category and nowhere else.
theorem shelf_record (r : Registry α) (f : Finding α) (category : Category) :
    (r.record f).1.shelf category =
      if f.category = category then ((r.shelf category).record f).1 else r.shelf category := by
  cases hf : f.category <;> cases category <;> simp [record, hf, shelf, withShelf]

theorem shelf_recordAll (r : Registry α) (log : List (Finding α)) (category : Category) :
    (r.recordAll log).shelf category = (r.shelf category).recordAll (ofCategory category log) := by
  induction log generalizing r with
  | nil => rfl
  | cons f log ih =>
    have hcons : r.recordAll (f :: log) = (r.record f).1.recordAll log := rfl
    rw [hcons, ih, shelf_record, ofCategory, ofCategory, List.filter_cons]
    by_cases hf : f.category = category <;> simp [hf, Shelf.recordAll]

omit [Scalar α] in
theorem shelf_empty (category : Category) : (empty : Registry α).shelf category = .empty := by
  cases category <;> rfl

-- What a registry holds of a category is what the findings of that category make of it.
theorem follows_recordAll (log : List (Finding α)) (category : Category) :
    ((empty.recordAll log).shelf category).Follows (ofCategory category log) := by
  rw [shelf_recordAll, shelf_empty]
  exact Shelf.follows_empty.recordAll _

theorem follows_of_category {log : List (Finding α)} {category : Category}
    (hlog : ∀ f ∈ log, f.category = category) :
    ((empty.recordAll log).shelf category).Follows log := by
  simpa only [ofCategory_eq_self hlog] using follows_recordAll log category

end Registry

end Likeness.Duplicates
