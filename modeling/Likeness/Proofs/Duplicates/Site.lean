import Likeness.Duplicates.Registry
import Likeness.Proofs.Lists

namespace Likeness

namespace Duplicates

namespace Occurrence

-- What makes an occurrence: the path of its file, as paths are compared, and the place in it.
def site (o : Occurrence) : Files.Steps × Locator := (o.file.steps, o.locator)

theorem sameSite_iff (a b : Occurrence) : a.sameSite b = true ↔ a.site = b.site := by
  simp [sameSite, site]

theorem sameSite_eq_false_iff (a b : Occurrence) : a.sameSite b = false ↔ a.site ≠ b.site := by
  rw [← Bool.not_eq_true, sameSite_iff]

theorem steps_of_site_eq {a b : Occurrence} (h : a.site = b.site) :
    a.file.steps = b.file.steps := (Prod.mk.inj h).1

-- The occurrences of a list without those at the site of an earlier one.
def distinct (os : List Occurrence) : List Occurrence := os.eraseDupsBy sameSite

@[simp] theorem distinct_nil : distinct [] = [] := rfl

theorem distinct_cons (o : Occurrence) (os : List Occurrence) :
    distinct (o :: os) = o :: distinct (os.filter fun p => p.sameSite o = false) :=
  List.eraseDupsBy_cons

-- The sites of what is left are the sites of the list, each once.
theorem map_site_distinct (os : List Occurrence) :
    (distinct os).map site = (os.map site).eraseDups := by
  cases os with
  | nil => rfl
  | cons o os =>
    have hfilter : (os.filter fun p => p.sameSite o = false).map site =
        (os.map site).filter fun s => !s == o.site := by
      rw [List.filter_map]
      congr 2
      funext p
      by_cases h : p.site = o.site <;> simp [sameSite_eq_false_iff, h]
    rw [distinct_cons, List.map_cons, map_site_distinct, hfilter, List.map_cons,
      List.eraseDups_cons]
termination_by os.length
decreasing_by exact Nat.lt_succ_of_le (List.length_filter_le _ _)

theorem mem_site_distinct (os : List Occurrence) (s : Files.Steps × Locator) :
    s ∈ (distinct os).map site ↔ s ∈ os.map site := by
  rw [map_site_distinct, List.mem_eraseDups]

theorem nodup_sites (os : List Occurrence) : ((distinct os).map site).Nodup := by
  rw [map_site_distinct]
  exact nodup_eraseDups _

theorem distinct_eq_self {os : List Occurrence} (h : (os.map site).Nodup) : distinct os = os := by
  refine (eraseDupsBy_sublist _ os).eq_of_length ?_
  rw [← List.length_map site, ← distinct, map_site_distinct, eraseDups_eq_self _ h, List.length_map]

theorem distinct_append (os ps : List Occurrence) :
    distinct (os ++ ps) =
      distinct os ++ distinct (ps.filter fun p => p.site ∉ os.map site) := by
  cases os with
  | nil => simp
  | cons o os =>
    -- an earlier occurrence that is dropped for `o` is at the site of `o`
    have hfilter : ((ps.filter fun p => p.sameSite o = false).filter
        fun p => p.site ∉ (os.filter fun q => q.sameSite o = false).map site) =
        ps.filter fun p => p.site ∉ (o :: os).map site := by
      rw [List.filter_filter]
      congr 1
      funext p
      by_cases h : p.site = o.site
      · simp [sameSite_eq_false_iff, h]
      · have hother (q : Occurrence) (hq : q.site = p.site) : q.site ≠ o.site := by rwa [hq]
        simp [sameSite_eq_false_iff, h]
        grind
    rw [List.cons_append, distinct_cons, List.filter_append, distinct_append, hfilter,
      distinct_cons, List.cons_append]
termination_by os.length
decreasing_by exact Nat.lt_succ_of_le (List.length_filter_le _ _)

theorem distinct_concat (os : List Occurrence) (o : Occurrence) :
    distinct (os ++ [o]) = if o.site ∈ os.map site then distinct os else distinct os ++ [o] := by
  rw [distinct_append]
  by_cases h : o.site ∈ os.map site
  · rw [if_pos h, List.filter_cons_of_neg (by simpa using h), List.filter_nil, distinct_nil,
      List.append_nil]
  · rw [if_neg h, List.filter_cons_of_pos (by simpa using h), List.filter_nil, distinct_cons,
      List.filter_nil, distinct_nil]

theorem distinct_pair_of_ne {o p : Occurrence} (h : o.site ≠ p.site) :
    distinct [o, p] = [o, p] := by
  have hfilter : [p].filter (fun q => q.sameSite o = false) = [p] := by
    simpa [sameSite_eq_false_iff] using h.symm
  rw [distinct_cons, hfilter, distinct_cons, List.filter_nil, distinct_nil]

theorem distinct_pair_of_eq {o p : Occurrence} (h : o.site = p.site) : distinct [o, p] = [o] := by
  have hfilter : [p].filter (fun q => q.sameSite o = false) = [] := by
    simpa [sameSite_eq_false_iff] using h.symm
  rw [distinct_cons, hfilter, distinct_nil]

theorem distinct_concat_of_mem (os : List Occurrence) (o : Occurrence)
    (h : o.site ∈ os.map site) : distinct (os ++ [o]) = distinct os := by
  rw [distinct_concat, if_pos h]

-- What is added to a list counts by what is left of it.
theorem distinct_append_congr {os os' : List Occurrence} (h : distinct os = distinct os')
    (ps : List Occurrence) : distinct (os ++ ps) = distinct (os' ++ ps) := by
  have hsites (p : Occurrence) : p.site ∈ os.map site ↔ p.site ∈ os'.map site := by
    rw [← mem_site_distinct os, h, mem_site_distinct]
  rw [distinct_append, distinct_append, h]
  simp only [hsites]

end Occurrence

namespace Group

section Places

variable {α : Type}

theorem has_iff (g : Group α) (o : Occurrence) :
    g.has o = true ↔ o.site ∈ g.occurrences.map Occurrence.site := by
  simp [has, Occurrence.sameSite_iff]

theorem merge_eq (g : Group α) (o : Occurrence) (os : List Occurrence)
    (h : g.occurrences = Occurrence.distinct os) :
    g.merge o = { g with occurrences := Occurrence.distinct (os ++ [o]) } := by
  have hhas : g.has o = true ↔ o.site ∈ os.map Occurrence.site := by
    rw [has_iff, h, Occurrence.mem_site_distinct]
  rw [merge, Occurrence.distinct_concat, ← h]
  by_cases ho : o.site ∈ os.map Occurrence.site
  · rw [if_pos (hhas.mpr ho), if_pos ho]
  · rw [if_neg (mt hhas.mp ho), if_neg ho]

theorem mergeAll_cons (g : Group α) (o : Occurrence) (os : List Occurrence) :
    g.mergeAll (o :: os) = (g.merge o).mergeAll os := rfl

-- Nothing but the occurrences changes, whatever they were.
theorem mergeAll_frame (g : Group α) (os : List Occurrence) :
    g.mergeAll os = { g with occurrences := (g.mergeAll os).occurrences } := by
  induction os generalizing g with
  | nil => rfl
  | cons o os ih =>
    have hm : g.merge o = { g with occurrences := (g.merge o).occurrences } := by
      rw [merge]
      split <;> rfl
    rw [mergeAll_cons, ih (g.merge o), hm]

theorem mergeAll_eq (g : Group α) (os ps : List Occurrence)
    (h : g.occurrences = Occurrence.distinct os) :
    g.mergeAll ps = { g with occurrences := Occurrence.distinct (os ++ ps) } := by
  induction ps generalizing g os with
  | nil => simp [mergeAll, ← h]
  | cons p ps ih =>
    have hm := merge_eq g p os h
    rw [mergeAll_cons, ih (g.merge p) (os ++ [p]) (by rw [hm]), hm, List.append_assoc,
      List.singleton_append]

end Places

variable {α : Type} [Number.Scalar α]

-- A score that is seen after another one: the higher of both.
def raise (highest similarity : α) : α :=
  if Number.Scalar.lt highest (Number.Scalar.limit similarity) then
    Number.Scalar.limit similarity
  else highest

theorem observe_eq (g : Group α) (similarity : α) :
    g.observe similarity = { g with similarity := raise g.similarity similarity } := by
  simp only [observe, raise]
  split <;> rfl

end Group

namespace Finding

variable {α : Type} [Number.Scalar α] (f : Finding α) (g : Group α)

@[simp] theorem firstGroup_key : f.firstGroup.key = f.key := rfl

@[simp] theorem addTo_key : (f.addTo g).key = g.key := by
  rw [addTo, Group.mergeAll_frame, Group.observe_eq]

-- What a finding does to a group: nothing but its score and its occurrences changes.
theorem addTo_eq (os : List Occurrence) (h : g.occurrences = Occurrence.distinct os) :
    f.addTo g = { g with
      similarity := Group.raise g.similarity f.similarity
      occurrences := Occurrence.distinct (os ++ f.occurrences) } := by
  have hobserve : (g.observe f.similarity).occurrences = Occurrence.distinct os := by
    rw [Group.observe_eq, h]
  rw [addTo, Group.mergeAll_eq _ os _ hobserve, Group.observe_eq]

theorem addTo_occurrences (os : List Occurrence) (h : g.occurrences = Occurrence.distinct os) :
    ∃ new, (f.addTo g).occurrences = g.occurrences ++ new := by
  rw [f.addTo_eq g os h, h]
  exact ⟨_, Occurrence.distinct_append os f.occurrences⟩

end Finding

end Duplicates

end Likeness
