import Likeness.Modules.Module
import Mathlib.Data.List.FinRange
import Mathlib.Data.Sym.Sym2

namespace Likeness

variable {β : Type}

-- The pairs of a list in the order in which each member meets those before it. The members of
-- `before` have met one another already.
def metPairs (before : List β) : List β → List (β × β)
  | [] => []
  | b :: rest => before.map (fun a => (a, b)) ++ metPairs (before ++ [b]) rest

theorem pair_sublist_cons_iff (a b c : β) (bs : List β) :
    [a, b].Sublist (c :: bs) ↔ a = c ∧ b ∈ bs ∨ [a, b].Sublist bs := by
  rw [List.sublist_cons_iff, or_comm]
  simp [eq_comm, and_assoc]

-- Either way of going through a list meets each two of its members once, the earlier one first.
theorem mem_orderedPairs_iff (a b : β) (bs : List β) :
    (a, b) ∈ orderedPairs bs ↔ [a, b].Sublist bs := by
  induction bs with
  | nil => simp [orderedPairs]
  | cons c bs ih =>
    rw [orderedPairs, List.mem_append, ih, pair_sublist_cons_iff]
    simp only [List.mem_map, Prod.mk.injEq]
    grind

theorem map_orderedPairs {γ : Type} (f : β → γ) (bs : List β) :
    orderedPairs (bs.map f) = (orderedPairs bs).map (Prod.map f f) := by
  induction bs with
  | nil => rfl
  | cons b bs ih =>
    rw [List.map_cons, orderedPairs, orderedPairs, ih, List.map_append, List.map_map, List.map_map]
    rfl

theorem pairwise_orderedPairs {r : β → β → Prop} {bs : List β} (h : bs.Pairwise r) :
    (orderedPairs bs).Pairwise fun p q => r p.1 q.1 ∨ p.1 = q.1 ∧ r p.2 q.2 := by
  induction bs with
  | nil => exact List.Pairwise.nil
  | cons b bs ih =>
    obtain ⟨hfirst, hrest⟩ := List.pairwise_cons.mp h
    rw [orderedPairs, List.pairwise_append]
    refine ⟨?_, ih hrest, ?_⟩
    · rw [List.pairwise_map]
      exact hrest.imp fun hr => .inr ⟨rfl, hr⟩
    · intro p hp q hq
      obtain ⟨c, -, rfl⟩ := List.mem_map.mp hp
      have hsublist := (mem_orderedPairs_iff q.1 q.2 bs).mp hq
      exact .inl (hfirst q.1 (hsublist.mem (by simp)))

-- One more member of a list makes no difference where nothing is found for its pairs.
theorem filterMap_orderedPairs_insert {γ : Type} (f : β × β → Option γ) (b : β)
    (before after : List β) (hleft : ∀ a ∈ before, f (a, b) = none)
    (hright : ∀ c ∈ after, f (b, c) = none) :
    (orderedPairs (before ++ b :: after)).filterMap f =
      (orderedPairs (before ++ after)).filterMap f := by
  induction before with
  | nil =>
    have hnil : (after.map fun c => (b, c)).filterMap f = [] := by
      simpa [List.filterMap_eq_nil_iff] using hright
    rw [List.nil_append, orderedPairs, List.filterMap_append, hnil, List.nil_append,
      List.nil_append]
  | cons a before ih =>
    obtain ⟨ha, hrest⟩ := List.forall_mem_cons.mp hleft
    simp only [List.cons_append, orderedPairs, List.filterMap_append, List.map_append,
      List.map_cons, List.filterMap_cons_none ha, ih hrest]

theorem mem_metPairs_iff (a b : β) (before bs : List β) :
    (a, b) ∈ metPairs before bs ↔ a ∈ before ∧ b ∈ bs ∨ [a, b].Sublist bs := by
  induction bs generalizing before with
  | nil => simp [metPairs]
  | cons c bs ih =>
    rw [metPairs, List.mem_append, ih, pair_sublist_cons_iff]
    simp only [List.mem_map, Prod.mk.injEq, List.mem_append, List.mem_cons]
    grind

theorem mem_metPairs_nil_iff (pair : β × β) (bs : List β) :
    pair ∈ metPairs [] bs ↔ [pair.1, pair.2].Sublist bs := by
  rw [mem_metPairs_iff pair.1 pair.2]
  simp

theorem metPairs_concat (before bs : List β) (b : β) :
    metPairs before (bs ++ [b]) = metPairs before bs ++ (before ++ bs).map fun a => (a, b) := by
  induction bs generalizing before with
  | nil => simp [metPairs]
  | cons c bs ih =>
    rw [List.cons_append, metPairs, ih, metPairs, List.append_assoc, List.append_assoc]
    rfl

-- Of two different members of a list one comes first.
theorem pair_sublist_or {a b : β} {bs : List β} (ha : a ∈ bs) (hb : b ∈ bs) (hne : a ≠ b) :
    [a, b].Sublist bs ∨ [b, a].Sublist bs := by
  induction bs with
  | nil => cases ha
  | cons c bs ih =>
    rw [pair_sublist_cons_iff, pair_sublist_cons_iff]
    rcases List.mem_cons.mp ha with rfl | ha'
    · exact .inl (.inl ⟨rfl, (List.mem_cons.mp hb).resolve_left hne.symm⟩)
    · rcases List.mem_cons.mp hb with rfl | hb'
      · exact .inr (.inl ⟨rfl, ha'⟩)
      · exact (ih ha' hb').imp .inr .inr

section Unordered

-- Pairs without an order.
def unordered (pairs : List (β × β)) : List (Sym2 β) := pairs.map fun pair => s(pair.1, pair.2)

theorem unordered_append (pairs more : List (β × β)) :
    unordered (pairs ++ more) = unordered pairs ++ unordered more := List.map_append

theorem unordered_orderedPairs_cons (b : β) (bs : List β) :
    unordered (orderedPairs (b :: bs)) =
      bs.map (fun c => s(b, c)) ++ unordered (orderedPairs bs) := by
  rw [orderedPairs, unordered_append, unordered, List.map_map]
  rfl

theorem unordered_orderedPairs_perm {bs cs : List β} (h : bs.Perm cs) :
    (unordered (orderedPairs bs)).Perm (unordered (orderedPairs cs)) := by
  induction h with
  | nil => exact List.Perm.refl _
  | @cons b bs cs h ih =>
    rw [unordered_orderedPairs_cons, unordered_orderedPairs_cons]
    exact (h.map _).append ih
  | swap b c bs =>
    have hswap : s(b, c) = s(c, b) := Sym2.eq_swap
    simp only [unordered_orderedPairs_cons, List.map_cons, List.cons_append, hswap]
    apply List.Perm.cons
    rw [← List.append_assoc, ← List.append_assoc]
    exact List.perm_append_comm.append_right _
  | trans _ _ ih ih' => exact ih.trans ih'

theorem unordered_metPairs_perm_reverse (bs : List β) :
    (unordered (metPairs [] bs)).Perm (unordered (orderedPairs bs.reverse)) := by
  induction bs using List.reverseRecOn with
  | nil => exact List.Perm.refl _
  | append_singleton bs b ih =>
    have hlast : unordered (bs.map fun a => (a, b)) = bs.map fun a => s(b, a) := by
      rw [unordered, List.map_map]
      exact List.map_congr_left fun a _ => Sym2.eq_swap
    rw [metPairs_concat, unordered_append, List.reverse_concat, unordered_orderedPairs_cons,
      List.nil_append, hlast]
    exact (ih.append (bs.reverse_perm.symm.map _)).trans List.perm_append_comm

-- Which pairs are met does not depend on the order of a list. Their own order does.
theorem unordered_metPairs_perm {bs cs : List β} (h : bs.Perm cs) :
    (unordered (metPairs [] bs)).Perm (unordered (metPairs [] cs)) := by
  have hreverse : bs.reverse.Perm cs.reverse :=
    bs.reverse_perm.trans (h.trans cs.reverse_perm.symm)
  exact (unordered_metPairs_perm_reverse bs).trans
    ((unordered_orderedPairs_perm hreverse).trans (unordered_metPairs_perm_reverse cs).symm)

theorem pair_sublist_of_perm {a b : β} {bs cs : List β} (h : bs.Perm cs)
    (hab : [a, b].Sublist bs) : [a, b].Sublist cs ∨ [b, a].Sublist cs := by
  have hmem : s(a, b) ∈ unordered (metPairs [] cs) := by
    rw [← (unordered_metPairs_perm h).mem_iff]
    exact List.mem_map.mpr ⟨(a, b), (mem_metPairs_nil_iff _ bs).mpr hab, rfl⟩
  obtain ⟨⟨c, d⟩, hcd, hpair⟩ := List.mem_map.mp hmem
  have hsublist := (mem_metPairs_nil_iff _ cs).mp hcd
  rcases Sym2.eq_iff.mp hpair with ⟨rfl, rfl⟩ | ⟨rfl, rfl⟩
  · exact .inl hsublist
  · exact .inr hsublist

-- A test for which it does not matter which of two members comes first counts pairs without an
-- order.
theorem countP_eq_unordered {r : β → β → Bool} {pairs : List (β × β)}
    (hr : ∀ pair ∈ pairs, r pair.1 pair.2 = r pair.2 pair.1) :
    pairs.countP (fun pair => r pair.1 pair.2) =
      (unordered pairs).countP
        (Sym2.lift ⟨fun a b => r a b || r b a, fun _ _ => Bool.or_comm _ _⟩) := by
  rw [unordered, List.countP_map]
  refine List.countP_congr fun pair hpair => ?_
  change _ ↔ (r pair.1 pair.2 || r pair.2 pair.1) = true
  rw [← hr pair hpair, Bool.or_self]

theorem countP_of_unordered_perm {r : β → β → Bool} {pairs pairs' : List (β × β)}
    (h : (unordered pairs).Perm (unordered pairs'))
    (hr : ∀ pair ∈ pairs, r pair.1 pair.2 = r pair.2 pair.1) :
    pairs.countP (fun pair => r pair.1 pair.2) = pairs'.countP fun pair => r pair.1 pair.2 := by
  have hr' : ∀ pair ∈ pairs', r pair.1 pair.2 = r pair.2 pair.1 := by
    intro pair hpair
    obtain ⟨other, hother, hsame⟩ := List.mem_map.mp (h.mem_iff.mpr (List.mem_map_of_mem hpair))
    rcases Sym2.eq_iff.mp hsame with ⟨hfirst, hsecond⟩ | ⟨hfirst, hsecond⟩
    · rw [← hfirst, ← hsecond]
      exact hr other hother
    · rw [← hfirst, ← hsecond]
      exact (hr other hother).symm
  rw [countP_eq_unordered hr, countP_eq_unordered hr']
  exact h.countP_eq _

-- As many pairs pass such a test in any order, either way of going through a list.
theorem countP_metPairs_perm {r : β → β → Bool} {bs cs : List β} (h : bs.Perm cs)
    (hr : ∀ a ∈ bs, ∀ b ∈ bs, r a b = r b a) :
    (metPairs [] bs).countP (fun pair => r pair.1 pair.2) =
      (metPairs [] cs).countP fun pair => r pair.1 pair.2 := by
  refine countP_of_unordered_perm (unordered_metPairs_perm h) fun pair hpair => ?_
  have hsublist := (mem_metPairs_nil_iff pair bs).mp hpair
  exact hr _ (hsublist.mem (by simp)) _ (hsublist.mem (by simp))

theorem countP_orderedPairs_perm {r : β → β → Bool} {bs cs : List β} (h : bs.Perm cs)
    (hr : ∀ a ∈ bs, ∀ b ∈ bs, r a b = r b a) :
    (orderedPairs bs).countP (fun pair => r pair.1 pair.2) =
      (orderedPairs cs).countP fun pair => r pair.1 pair.2 := by
  refine countP_of_unordered_perm (unordered_orderedPairs_perm h) fun pair hpair => ?_
  have hsublist := (mem_orderedPairs_iff pair.1 pair.2 bs).mp hpair
  exact hr _ (hsublist.mem (by simp)) _ (hsublist.mem (by simp))

end Unordered

section Places

theorem map_metPairs {γ : Type} (f : β → γ) (before bs : List β) :
    metPairs (before.map f) (bs.map f) = (metPairs before bs).map (Prod.map f f) := by
  induction bs generalizing before with
  | nil => rfl
  | cons b bs ih =>
    have hnext : before.map f ++ [f b] = (before ++ [b]).map f := by simp
    rw [List.map_cons, metPairs, metPairs, hnext, ih, List.map_append, List.map_map, List.map_map]
    rfl

-- The pairs of the places of a list: the one that is met in ascending order, and for each one
-- those before it.
def placePairs (n : ℕ) : List (Fin n × Fin n) := metPairs [] (List.finRange n)

theorem metPairs_eq_map_placePairs (bs : List β) :
    metPairs [] bs = (placePairs bs.length).map fun pair => (bs[pair.1], bs[pair.2]) := by
  have h := map_metPairs bs.get [] (List.finRange bs.length)
  rw [List.map_get_finRange] at h
  exact h

theorem mem_placePairs_iff {n : ℕ} (i j : Fin n) : (i, j) ∈ placePairs n ↔ i < j := by
  have hsorted := List.pairwise_lt_finRange n
  have hlt {i j : Fin n} (h : [i, j].Sublist (List.finRange n)) : i < j := by
    simpa using hsorted.sublist h
  rw [placePairs, mem_metPairs_iff]
  constructor
  · rintro (⟨h, -⟩ | h)
    · cases h
    · exact hlt h
  · intro h
    have hpair := pair_sublist_or (List.mem_finRange i) (List.mem_finRange j) h.ne
    exact .inr (hpair.resolve_right fun hsub => lt_asymm h (hlt hsub))

-- The pairs of the places of a list in ascending order, the one in front first.
def ascendingPairs (n : ℕ) : List (Fin n × Fin n) := orderedPairs (List.finRange n)

theorem orderedPairs_eq_map_ascendingPairs (bs : List β) :
    orderedPairs bs = (ascendingPairs bs.length).map fun pair => (bs[pair.1], bs[pair.2]) := by
  have h := map_orderedPairs bs.get (List.finRange bs.length)
  rw [List.map_get_finRange] at h
  exact h

theorem mem_ascendingPairs_iff {n : ℕ} (i j : Fin n) : (i, j) ∈ ascendingPairs n ↔ i < j := by
  rw [ascendingPairs, mem_orderedPairs_iff, ← mem_placePairs_iff, placePairs, mem_metPairs_nil_iff]

theorem pairwise_ascendingPairs (n : ℕ) :
    (ascendingPairs n).Pairwise fun p q => p.1 < q.1 ∨ p.1 = q.1 ∧ p.2 < q.2 :=
  pairwise_orderedPairs (List.pairwise_lt_finRange n)

theorem pairwise_metPairs {r : β → β → Prop} (before bs : List β)
    (h : (before ++ bs).Pairwise r) :
    (metPairs before bs).Pairwise fun p q => r p.2 q.2 ∨ p.2 = q.2 ∧ r p.1 q.1 := by
  induction bs generalizing before with
  | nil => exact List.Pairwise.nil
  | cons b bs ih =>
    rw [metPairs, List.pairwise_append]
    refine ⟨?_, ih (before ++ [b]) (by simpa using h), ?_⟩
    · rw [List.pairwise_map]
      exact (List.pairwise_append.mp h).1.imp fun hr => .inr ⟨rfl, hr⟩
    · intro p hp q hq
      obtain ⟨a, -, rfl⟩ := List.mem_map.mp hp
      have hafter := (List.pairwise_cons.mp (List.pairwise_append.mp h).2.1).1
      obtain ⟨c, d⟩ := q
      rcases (mem_metPairs_iff c d _ bs).mp hq with ⟨-, hd⟩ | hsub
      · exact .inl (hafter d hd)
      · exact .inl (hafter d (hsub.mem (by simp)))

-- Each pair of places is met once.
theorem pairwise_placePairs (n : ℕ) :
    (placePairs n).Pairwise fun p q => p.2 < q.2 ∨ p.2 = q.2 ∧ p.1 < q.1 :=
  pairwise_metPairs [] _ (List.pairwise_lt_finRange n)

end Places

end Likeness
