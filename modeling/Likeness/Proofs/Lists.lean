import Mathlib.Data.List.Induction
import Mathlib.Data.List.Nodup
import Mathlib.Data.List.Perm.Basic

namespace Likeness

theorem eraseDupsBy_sublist {β : Type} (r : β → β → Bool) (bs : List β) :
    (bs.eraseDupsBy r).Sublist bs := by
  cases bs with
  | nil => exact List.Sublist.slnil
  | cons b bs =>
    rw [List.eraseDupsBy_cons]
    exact ((eraseDupsBy_sublist r _).trans List.filter_sublist).cons_cons b
termination_by bs.length
decreasing_by exact Nat.lt_succ_of_le (List.length_filter_le _ _)

theorem length_eraseDups_le {β : Type} [BEq β] (bs : List β) :
    bs.eraseDups.length ≤ bs.length := (eraseDupsBy_sublist _ bs).length_le

section Repetitions

variable {β : Type} [BEq β] [LawfulBEq β]

theorem nodup_eraseDups (bs : List β) : bs.eraseDups.Nodup := by
  cases bs with
  | nil => simp
  | cons b bs =>
    rw [List.eraseDups_cons, List.nodup_cons]
    exact ⟨by simp, nodup_eraseDups _⟩
termination_by bs.length
decreasing_by exact Nat.lt_succ_of_le (List.length_filter_le _ _)

-- A list is as long without repetitions just when it has none.
theorem nodup_of_length_eraseDups (bs : List β) (h : bs.eraseDups.length = bs.length) :
    bs.Nodup := by
  rw [← (eraseDupsBy_sublist _ bs).eq_of_length h]
  exact nodup_eraseDups bs

theorem eraseDups_concat (bs : List β) (b : β) :
    (bs ++ [b]).eraseDups = if b ∈ bs then bs.eraseDups else bs.eraseDups ++ [b] := by
  rw [List.eraseDups_append]
  by_cases h : b ∈ bs <;> simp [List.removeAll, h, List.eraseDups_cons]

theorem map_eraseDups {γ : Type} [BEq γ] [LawfulBEq γ] (f : β → γ) (bs : List β)
    (hf : ∀ a ∈ bs, ∀ b ∈ bs, f a = f b → a = b) :
    (bs.map f).eraseDups = bs.eraseDups.map f := by
  induction bs using List.reverseRecOn with
  | nil => rfl
  | append_singleton bs b ih =>
    have hmem : f b ∈ bs.map f ↔ b ∈ bs := by
      refine ⟨fun h => ?_, List.mem_map_of_mem⟩
      obtain ⟨a, ha, hab⟩ := List.mem_map.mp h
      rwa [← hf a (by simp [ha]) b (by simp) hab]
    rw [List.map_append, List.map_singleton, eraseDups_concat, eraseDups_concat,
      ih fun a ha c hc => hf a (by simp [ha]) c (by simp [hc])]
    by_cases h : b ∈ bs <;> simp [hmem, h]

theorem eraseDups_eq_self (bs : List β) (h : bs.Nodup) : bs.eraseDups = bs := by
  induction bs using List.reverseRecOn with
  | nil => rfl
  | append_singleton bs b ih =>
    have hb : b ∉ bs := by simpa using List.disjoint_of_nodup_append h
    rw [eraseDups_concat, if_neg hb, ih h.of_append_left]

end Repetitions

theorem eq_of_countP_eq_one {β : Type} {p : β → Bool} {bs : List β} (h : bs.countP p = 1) {a b : β}
    (ha : a ∈ bs) (hpa : p a = true) (hb : b ∈ bs) (hpb : p b = true) : a = b := by
  rw [List.countP_eq_length_filter, List.length_eq_one_iff] at h
  obtain ⟨c, hc⟩ := h
  have honly {b : β} (hb : b ∈ bs) (hpb : p b = true) : b = c := by
    rw [← List.mem_singleton, ← hc, List.mem_filter]
    exact ⟨hb, hpb⟩
  rw [honly ha hpa, honly hb hpb]

theorem filterMap_eq_map_filter {β γ : Type} (p : β → Bool) (f : β → γ) (bs : List β) :
    bs.filterMap (fun b => if p b then none else some (f b)) =
      (bs.filter fun b => !p b).map f := by
  induction bs with
  | nil => rfl
  | cons b bs ih =>
    rw [List.filterMap_cons, List.filter_cons, ih]
    cases p b <;> rfl

-- Of two tests, the looser one lets more be found just where something that only it admits is.
theorem filterMap_filter_eq_iff {β γ : Type} {p q : β → Bool} (h : ∀ b, q b = true → p b = true)
    (f : β → Option γ) (bs : List β) :
    (bs.filter p).filterMap f = (bs.filter q).filterMap f ↔
      ∀ b ∈ bs, (f b).isSome = true → p b = true → q b = true := by
  let found (test : β → Bool) : List β := bs.filter fun b => (f b).isSome && test b
  constructor
  · intro heq b hb hsome hp
    have hcount (test : β → Bool) : ((bs.filter test).filterMap f).length = (found test).length := by
      rw [List.length_filterMap_eq_countP, List.countP_filter, List.countP_eq_length_filter]
    have hsub : (found q).Sublist (found p) := by
      refine List.monotone_filter_right bs fun b hb => ?_
      rw [Bool.and_eq_true] at hb ⊢
      exact ⟨hb.1, h b hb.2⟩
    have hsame : found q = found p := hsub.eq_of_length (by rw [← hcount, ← hcount, heq])
    have hmem : b ∈ found q := by
      rw [hsame, List.mem_filter, hsome, hp]
      exact ⟨hb, rfl⟩
    exact (Bool.and_eq_true _ _ ▸ (List.mem_filter.mp hmem).2).2
  · intro hall
    rw [List.filterMap_filter, List.filterMap_filter]
    refine List.filterMap_congr fun b hb => ?_
    cases hfound : f b with
    | none => rw [ite_self, ite_self]
    | some c =>
      have hiff : p b = true ↔ q b = true := ⟨hall b hb (by rw [hfound]; rfl), h b⟩
      simp only [hiff]

-- It does not matter which of two lists is gone through in the outer loop, but for the order of
-- what is found.
theorem filterMap_flatMap_perm {β γ δ : Type} (f : β → γ → Option δ) (bs : List β) (cs : List γ) :
    (bs.flatMap fun b => cs.filterMap (f b)).Perm
      (cs.flatMap fun c => bs.filterMap fun b => f b c) := by
  simp only [List.filterMap_eq_flatMap_toList]
  induction bs with
  | nil => simp
  | cons b bs ih =>
    simp only [List.flatMap_cons]
    exact (ih.append_left _).trans (List.flatMap_append_perm cs _ _)

-- What stands before and after the first of some mark is known.
theorem append_cons_inj {β : Type} {mark : β} {as bs cs ds : List β} (ha : mark ∉ as)
    (hc : mark ∉ cs) (h : as ++ mark :: bs = cs ++ mark :: ds) : as = cs ∧ bs = ds := by
  induction as generalizing cs with
  | nil =>
    cases cs with
    | nil => exact ⟨rfl, (List.cons.inj h).2⟩
    | cons c cs =>
      rw [List.nil_append, List.cons_append, List.cons.injEq] at h
      exact absurd (h.1 ▸ List.mem_cons_self) hc
  | cons a as ih =>
    cases cs with
    | nil =>
      rw [List.nil_append, List.cons_append, List.cons.injEq] at h
      exact absurd (h.1 ▸ List.mem_cons_self) ha
    | cons c cs =>
      rw [List.cons_append, List.cons_append, List.cons.injEq] at h
      obtain ⟨rfl, hrest⟩ := h
      obtain ⟨rfl, hb⟩ := ih (mt (List.mem_cons_of_mem _) ha) (mt (List.mem_cons_of_mem _) hc) hrest
      exact ⟨rfl, hb⟩

end Likeness
