import Mathlib.Algebra.Order.BigOperators.Group.List
import Mathlib.Algebra.Order.Group.Nat
import Mathlib.Data.List.Lex
import Mathlib.Data.List.Range

namespace Likeness.Ways

variable {β γ : Type}

-- What a way leads to. Each of its steps is the number of one of those directly below.
def at? (below : β → List β) : List ℕ → β → Option β
  | [], t => some t
  | i :: way, t => (below t)[i]?.bind (at? below way)

-- All ways that lead somewhere from a root, each once, in the order of a dictionary: a way comes
-- before those that go on from its end, and these before a way to the next one beside it.
structure Lists (below : β → List β) (t : β) (ways : List (List ℕ)) : Prop where
  ascending : ways.Pairwise (· < ·)
  mem_iff : ∀ way, way ∈ ways ↔ (at? below way t).isSome = true

variable {below : β → List β} {t : β}

theorem isSome_at?_cons_iff (i : ℕ) (way : List ℕ) : (at? below (i :: way) t).isSome = true ↔
    ∃ c, (below t)[i]? = some c ∧ (at? below way c).isSome = true := by
  rw [at?, Option.isSome_iff_exists]
  simp only [Option.bind_eq_some_iff, Option.isSome_iff_exists]
  exact exists_comm.trans (exists_congr fun c => exists_and_left)

-- The ways from a root are made of those from each of what is directly below it.
theorem lists_of_below {lists : β → List (List ℕ)}
    (h : ∀ c ∈ below t, Lists below c (lists c)) :
    Lists below t ([] :: (below t).zipIdx.flatMap fun c => (lists c.1).map (c.2 :: ·)) := by
  have hmem {c : β × ℕ} (hc : c ∈ (below t).zipIdx) : (below t)[c.2]? = some c.1 :=
    List.mem_zipIdx_iff_getElem?.mp hc
  refine ⟨List.pairwise_cons.mpr ⟨?_, List.pairwise_flatMap.mpr ⟨?_, ?_⟩⟩, fun way => ?_⟩
  · intro way hway
    obtain ⟨c, -, hway⟩ := List.mem_flatMap.mp hway
    obtain ⟨rest, -, rfl⟩ := List.mem_map.mp hway
    exact List.nil_lt_cons c.2 rest
  · intro c hc
    rw [List.pairwise_map]
    exact (h c.1 (List.mem_of_getElem? (hmem hc))).ascending.imp List.cons_lt_cons_self.mpr
  · -- what is below an earlier one comes before what is below a later one
    have hindex : ((below t).zipIdx.map Prod.snd).Pairwise (· < ·) := by
      rw [List.zipIdx_map_snd]
      exact List.pairwise_lt_range'
    refine (List.pairwise_map.mp hindex).imp fun {c d} hlt way hway other hother => ?_
    obtain ⟨rest, -, rfl⟩ := List.mem_map.mp hway
    obtain ⟨rest', -, rfl⟩ := List.mem_map.mp hother
    exact List.cons_lt_cons_iff.mpr (.inl hlt)
  · cases way with
    | nil => simp [at?]
    | cons i way =>
      rw [isSome_at?_cons_iff, List.mem_cons, or_iff_right (List.cons_ne_nil i way),
        List.mem_flatMap]
      constructor
      · rintro ⟨c, hc, hway⟩
        obtain ⟨rest, hrest, heq⟩ := List.mem_map.mp hway
        obtain ⟨rfl, rfl⟩ := List.cons.inj heq
        have hc := hmem hc
        exact ⟨c.1, hc, ((h c.1 (List.mem_of_getElem? hc)).mem_iff rest).mp hrest⟩
      · rintro ⟨c, hc, hway⟩
        refine ⟨(c, i), List.mem_zipIdx_iff_getElem?.mpr hc, List.mem_map_of_mem ?_⟩
        exact ((h c (List.mem_of_getElem? hc)).mem_iff way).mpr hway

section Walk

variable {walk : β → List γ} {f : β → γ}

theorem length_walk_lt (hwalk : ∀ t, walk t = f t :: (below t).flatMap walk) {c : β}
    (hc : c ∈ below t) : (walk c).length < (walk t).length := by
  rw [hwalk t, List.length_cons, Nat.lt_succ_iff, List.length_flatMap]
  exact List.le_sum_of_mem (List.mem_map_of_mem hc)

-- A walk that takes a root first, and then one after the other of what is directly below it with
-- all that is below that, takes what all ways lead to, in their order.
theorem exists_lists (hwalk : ∀ t, walk t = f t :: (below t).flatMap walk) (t : β) :
    ∃ ways, Lists below t ways ∧ walk t = ways.filterMap fun way => (at? below way t).map f := by
  induction hlength : (walk t).length using Nat.strong_induction_on generalizing t with
  | h length ih =>
    have hbelow : ∀ c ∈ below t, ∃ ways, Lists below c ways ∧
        walk c = ways.filterMap fun way => (at? below way c).map f := by
      intro c hc
      exact ih _ (hlength ▸ length_walk_lt hwalk hc) c rfl
    choose! lists hlists using hbelow
    refine ⟨_, lists_of_below fun c hc => (hlists c hc).1, ?_⟩
    rw [hwalk t, List.filterMap_cons, List.filterMap_flatMap]
    refine congrArg (f t :: ·) ?_
    calc (below t).flatMap walk
        = (below t).zipIdx.flatMap fun c => walk c.1 := by
          rw [← List.flatMap_map Prod.fst, List.zipIdx_map_fst]
      _ = _ := by
          refine List.flatMap_congr fun c hc => ?_
          have hc := List.mem_zipIdx_iff_getElem?.mp hc
          rw [(hlists c.1 (List.mem_of_getElem? hc)).2, List.filterMap_map]
          refine List.filterMap_congr fun way _ => ?_
          rw [Function.comp_apply, at?, hc, Option.bind_some]

end Walk

end Likeness.Ways
