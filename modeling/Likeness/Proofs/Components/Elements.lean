import Likeness.Components.Element
import Likeness.Proofs.Similarity.Full

namespace Likeness.Components.Element

open Number Similarity

-- What follows for an element from the elements directly inside of it holds of all elements.
@[elab_as_elim]
theorem inductionOnChildren {motive : Element → Prop}
    (step : ∀ e, (∀ c ∈ e.children, motive c) → motive e) (e : Element) : motive e := by
  refine @Element.rec motive (fun children => ∀ c ∈ children, motive c) ?_ ?_ ?_ e
  · exact fun tag attributes children => step (.mk tag attributes children)
  · simp
  · exact fun c children hc hchildren => List.forall_mem_cons.mpr ⟨hc, hchildren⟩

-- Elements that have no attribute twice, and neither has any element inside of them.
inductive Unrepeated : Element → Prop where
  | intro {e : Element} (attributes : e.attributes.Nodup)
    (children : ∀ c ∈ e.children, Unrepeated c) : Unrepeated e

-- Elements that differ in nothing but the order of attributes, on all levels.
inductive Rearranged : Element → Element → Prop where
  | intro {a b : Element} (tag : a.tag = b.tag) (attributes : a.attributes.Perm b.attributes)
    (children : List.Forall₂ Rearranged a.children b.children) : Rearranged a b

section Formula

variable {α : Type} [Scalar α]

theorem pairScores_eq (as bs : List Element) :
    (pairScores as bs : List α) = (as.zip bs).map fun pair => score pair.1 pair.2 := by
  induction as generalizing bs with
  | nil => simp [pairScores]
  | cons a as ih =>
    cases bs with
    | nil => simp [pairScores]
    | cons b bs => rw [pairScores, ih, List.zip_cons_cons, List.map_cons]

-- What the elements inside of two elements score.
def inside (as bs : List Element) : α :=
  if as.isEmpty && bs.isEmpty then Scalar.one
  else Scalar.sum (pairScores as bs) / Scalar.ofNat (max as.length bs.length)

theorem score_of_tag_ne {a b : Element} (h : a.tag ≠ b.tag) :
    (score a b : α) = Scalar.zero := by
  cases a
  rw [score]
  exact if_pos h

theorem score_of_tag_eq {a b : Element} (h : a.tag = b.tag) :
    (score a b : α) =
      blendElement (sharedPart a.attributes b.attributes) (inside a.children b.children) := by
  cases a
  rw [score]
  exact if_neg (not_not.mpr h)

-- Inside of two elements it does not matter which comes first if it does not for any pair.
theorem inside_comm {as bs : List Element}
    (h : ∀ a ∈ as, ∀ b ∈ bs, (score a b : α) = score b a) :
    (inside as bs : α) = inside bs as := by
  have hpairs : (pairScores as bs : List α) = pairScores bs as := by
    rw [pairScores_eq, pairScores_eq, ← List.zip_swap as bs, List.map_map]
    refine List.map_congr_left fun pair hpair => ?_
    obtain ⟨ha, hb⟩ := List.of_mem_zip hpair
    exact h pair.1 ha pair.2 hb
  rw [inside, inside, hpairs, Bool.and_comm, Nat.max_comm]

-- Without repeated attributes, elements score the same in both directions.
theorem score_comm {a b : Element} (ha : a.Unrepeated) (hb : b.Unrepeated) :
    (score a b : α) = score b a := by
  induction a using inductionOnChildren generalizing b with
  | step a ih =>
    obtain ⟨hattributes, hchildren⟩ := ha
    obtain ⟨hattributes', hchildren'⟩ := hb
    by_cases htag : a.tag = b.tag
    · rw [score_of_tag_eq htag, score_of_tag_eq htag.symm, sharedPart_comm hattributes hattributes',
        inside_comm fun c hc d hd => ih c hc (hchildren c hc) (hchildren' d hd)]
    · rw [score_of_tag_ne htag, score_of_tag_ne (Ne.symm htag)]

end Formula

section Shares

theorem blendElement_mem_shares {attributes children : ℚ} (ha : attributes ∈ shares)
    (hc : children ∈ shares) : blendElement attributes children ∈ shares := by
  obtain ⟨ha₀, ha₁⟩ := ha
  obtain ⟨hc₀, hc₁⟩ := hc
  change (4 / 10 + 3 / 10 * attributes + 3 / 10 * children : ℚ) ∈ shares
  constructor <;> linarith

-- The tag alone gives four tenths, and both other parts have to be whole for a whole.
theorem le_blendElement {attributes children : ℚ} (ha : attributes ∈ shares)
    (hc : children ∈ shares) : 4 / 10 ≤ blendElement attributes children := by
  have ha₀ := ha.1
  have hc₀ := hc.1
  change (4 / 10 : ℚ) ≤ 4 / 10 + 3 / 10 * attributes + 3 / 10 * children
  linarith

theorem blendElement_eq_one_iff {attributes children : ℚ} (ha : attributes ∈ shares)
    (hc : children ∈ shares) :
    blendElement attributes children = 1 ↔ attributes = 1 ∧ children = 1 := by
  obtain ⟨-, ha₁⟩ := ha
  obtain ⟨-, hc₁⟩ := hc
  change (4 / 10 + 3 / 10 * attributes + 3 / 10 * children : ℚ) = 1 ↔ _
  constructor
  · intro h
    constructor <;> linarith
  · rintro ⟨rfl, rfl⟩
    norm_num

theorem length_pairScores (as bs : List Element) :
    (pairScores as bs : List ℚ).length = min as.length bs.length := by
  rw [pairScores_eq, List.length_map, List.length_zip]

theorem inside_mem_shares {as bs : List Element}
    (h : ∀ a ∈ as, ∀ b ∈ bs, (score a b : ℚ) ∈ shares) : (inside as bs : ℚ) ∈ shares := by
  unfold inside
  split
  · exact one_mem_shares
  · refine sum_mem_shares (fun x hx => ?_) ((length_pairScores as bs).trans_le min_le_max)
    rw [pairScores_eq] at hx
    obtain ⟨pair, hpair, rfl⟩ := List.mem_map.mp hx
    obtain ⟨ha, hb⟩ := List.of_mem_zip hpair
    exact h pair.1 ha pair.2 hb

theorem score_mem_shares (a b : Element) : (score a b : ℚ) ∈ shares := by
  induction a using inductionOnChildren generalizing b with
  | step a ih =>
    by_cases htag : a.tag = b.tag
    · rw [score_of_tag_eq htag]
      exact blendElement_mem_shares (sharedPart_mem_shares _ _)
        (inside_mem_shares fun c hc d _ => ih c hc d)
    · rw [score_of_tag_ne htag]
      exact zero_mem_shares

-- Elements inside of two others are all there only if there are as many on both sides, and each
-- scores 1 with the one in its place.
theorem inside_eq_one_iff (as bs : List Element) :
    (inside as bs : ℚ) = 1 ↔ List.Forall₂ (fun a b => (score a b : ℚ) = 1) as bs := by
  have hshares : ∀ x ∈ (pairScores as bs : List ℚ), x ∈ shares := by
    rw [pairScores_eq]
    exact List.forall_mem_map.mpr fun pair _ => score_mem_shares pair.1 pair.2
  unfold inside
  split
  · rename_i hempty
    rw [Bool.and_eq_true, List.isEmpty_iff, List.isEmpty_iff] at hempty
    simp [hempty.1, hempty.2]
  · rename_i hne
    have hlongest : max as.length bs.length ≠ 0 := by
      rw [ne_eq, Nat.max_eq_zero_iff]
      simpa using hne
    rw [Scalar.exact_sum, Scalar.exact_ofNat, ← part,
      part_eq_one_iff hlongest hshares ((length_pairScores as bs).trans_le min_le_max),
      length_pairScores, inf_eq_sup, pairScores_eq, List.forall_mem_map, List.forall₂_iff_zip]
    exact and_congr_right fun _ => ⟨fun h a b hab => h (a, b) hab, fun h pair => h⟩

theorem score_eq_one_iff_inside (a b : Element) :
    (score a b : ℚ) = 1 ↔ a.tag = b.tag ∧ (sharedPart a.attributes b.attributes : ℚ) = 1 ∧
      List.Forall₂ (fun a b => (score a b : ℚ) = 1) a.children b.children := by
  by_cases htag : a.tag = b.tag
  · rw [score_of_tag_eq htag, blendElement_eq_one_iff (sharedPart_mem_shares _ _)
      (inside_mem_shares fun a _ b _ => score_mem_shares a b), inside_eq_one_iff]
    exact (and_iff_right htag).symm
  · simp [score_of_tag_ne htag, htag]

theorem score_self (e : Element) : (score e e : ℚ) = 1 := by
  induction e using inductionOnChildren with
  | step e ih =>
    rw [score_eq_one_iff_inside]
    exact ⟨rfl, sharedPart_self _, List.forall₂_same.mpr ih⟩

theorem score_eq_one_iff_rearranged {a b : Element} (ha : a.Unrepeated) :
    (score a b : ℚ) = 1 ↔ a.Rearranged b := by
  induction a using inductionOnChildren generalizing b with
  | step a ih =>
    obtain ⟨hattributes, hchildren⟩ := ha
    -- each pair inside has an element of `a` first, which the hypothesis of the induction is about
    have hinside : List.Forall₂ (fun c d => (score c d : ℚ) = 1) a.children b.children ↔
        List.Forall₂ Rearranged a.children b.children := by
      rw [List.forall₂_iff_zip, List.forall₂_iff_zip]
      refine and_congr_right fun _ => forall₂_congr fun c d => imp_congr_right fun hpair => ?_
      have hc := (List.of_mem_zip hpair).1
      exact ih c hc (hchildren c hc)
    rw [score_eq_one_iff_inside, sharedPart_eq_one_iff hattributes, hinside]
    constructor
    · rintro ⟨htag, hperm, hall⟩
      exact .intro htag hperm hall
    · rintro ⟨htag, hperm, hall⟩
      exact ⟨htag, hperm, hall⟩

-- Elements of one tag score four tenths at least, those of two tags nothing. All of it is scored
-- just by those that are the same but for the order of attributes.
theorem score_separates {a b : Element} (ha : a.Unrepeated) :
    ((score a b : ℚ) = 1 ↔ a.Rearranged b) ∧ ((score a b : ℚ) = 0 ↔ a.tag ≠ b.tag) ∧
      (a.tag = b.tag → 4 / 10 ≤ (score a b : ℚ)) := by
  have hleast (htag : a.tag = b.tag) : 4 / 10 ≤ (score a b : ℚ) := by
    rw [score_of_tag_eq htag]
    exact le_blendElement (sharedPart_mem_shares _ _)
      (inside_mem_shares fun a _ b _ => score_mem_shares a b)
  refine ⟨score_eq_one_iff_rearranged ha, ⟨fun hzero htag => ?_, fun htag => ?_⟩, hleast⟩
  · have hle := hleast htag
    rw [hzero] at hle
    exact absurd hle (by norm_num)
  · rw [score_of_tag_ne htag, Scalar.exact_zero]

-- An element with some attributes around one with the same.
def framed (attributes : List Attribute) : Element :=
  .mk "div" attributes [.mk "p" attributes []]

theorem score_separates_framed :
    let a := framed [⟨"id", some "x"⟩, ⟨"lang", none⟩]
    let b := framed [⟨"lang", none⟩, ⟨"id", some "x"⟩]
    let c := framed [⟨"id", some "x"⟩]
    a.Unrepeated ∧ (score a b : ℚ) = 1 ∧ (score a c : ℚ) = 161 / 200 ∧
      a.Rearranged b ∧ ¬a.Rearranged c ∧ (score a c : ℚ) ≠ 0 ∧ 4 / 10 ≤ (score a c : ℚ) := by
  intro a b c
  have ha : a.Unrepeated := by
    refine .intro (by decide) fun e he => ?_
    rw [List.mem_singleton.mp he]
    exact .intro (by decide) (by simp [children])
  have hb : (score a b : ℚ) = 1 := by decide +kernel
  have hc : (score a c : ℚ) = 161 / 200 := by decide +kernel
  obtain ⟨hone, hzero, hleast⟩ := score_separates (b := c) ha
  have hapart : ¬a.Rearranged c := by
    rw [← hone, hc]
    norm_num
  exact ⟨ha, hb, hc, (score_separates ha).1.mp hb, hapart, fun h => hzero.mp h rfl, hleast rfl⟩

end Shares

end Likeness.Components.Element
