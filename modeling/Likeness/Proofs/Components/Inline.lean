import Likeness.Components.Component
import Likeness.Proofs.Similarity.Shares
import Mathlib.Data.Finset.Card

namespace Likeness

open Components Number Similarity Syntax

namespace Similarity

-- The common members of two sets as a share of the members of either.
def share {α : Type} [Scalar α] {β : Type} [DecidableEq β] (as bs : Finset β) : α :=
  Scalar.ofNat (as ∩ bs).card / Scalar.ofNat (as ∪ bs).card

section Sets

variable {β : Type} [DecidableEq β]

theorem share_eq_one_iff {as bs : Finset β} (h : (as ∪ bs).Nonempty) :
    (share as bs : ℚ) = 1 ↔ as = bs := by
  have hne : ((as ∪ bs).card : ℚ) ≠ 0 := Nat.cast_ne_zero.mpr h.card_ne_zero
  rw [share, Scalar.exact_ofNat, Scalar.exact_ofNat, div_eq_one_iff_eq hne, Nat.cast_inj]
  constructor
  · intro hcard
    have hsame : as ∩ bs = as ∪ bs :=
      Finset.eq_of_subset_of_card_le Finset.inter_subset_union hcard.ge
    exact inf_eq_sup.mp hsame
  · rintro rfl
    rw [Finset.inter_self, Finset.union_self]

variable [BEq β] [LawfulBEq β]

theorem length_eraseDups (bs : List β) : bs.eraseDups.length = bs.toFinset.card := by
  have hsame : bs.eraseDups.toFinset = bs.toFinset := by
    ext b
    rw [List.mem_toFinset, List.mem_toFinset, List.mem_eraseDups]
  rw [← hsame, List.toFinset_card_of_nodup (nodup_eraseDups bs)]

theorem jaccard_eq_share {α : Type} [Scalar α] {as bs : List β}
    (h : (as.toFinset ∪ bs.toFinset).Nonempty) :
    (jaccard as bs : α) = share as.toFinset bs.toFinset := by
  have hcommon : (as.eraseDups.filter bs.eraseDups.contains).length =
      (as.toFinset ∩ bs.toFinset).card := by
    rw [← List.toFinset_card_of_nodup ((nodup_eraseDups as).filter _)]
    congr 1
    ext b
    simp
  have heither : as.eraseDups.length + bs.eraseDups.length - (as.toFinset ∩ bs.toFinset).card =
      (as.toFinset ∪ bs.toFinset).card := by
    rw [length_eraseDups, length_eraseDups, Finset.card_union]
  simp only [jaccard, hcommon, heither]
  exact if_neg h.card_ne_zero

end Sets

end Similarity

namespace Components.Styles

-- The text that an entry is compared as.
def joined (e : String × String) : String := e.1 ++ ":" ++ e.2

-- The name of the second entry goes on with what the value of the first one starts with.
def Extends (a b : String × String) : Prop :=
  ∃ moved, b.1 = a.1 ++ ":" ++ moved ∧ a.2 = moved ++ ":" ++ b.2

theorem Extends.joined_eq {a b : String × String} (h : Extends a b) : joined a = joined b := by
  obtain ⟨moved, hname, hvalue⟩ := h
  rw [joined, joined, hname, hvalue]
  simp only [String.append_assoc]

theorem toList_joined (e : String × String) : (joined e).toList = e.1.toList ++ ':' :: e.2.toList := by
  rw [joined, String.toList_append, String.toList_append, List.append_assoc]
  rfl

-- One text, split at two of its colons: the second name is the first one and some more.
theorem eq_or_extends_of_split {a b : String × String} {rest : List Char}
    (hname : b.1.toList = a.1.toList ++ rest)
    (hvalue : ':' :: a.2.toList = rest ++ ':' :: b.2.toList) : a = b ∨ Extends a b := by
  cases rest with
  | nil =>
    rw [List.append_nil, String.toList_inj] at hname
    rw [List.nil_append, List.cons.injEq, String.toList_inj] at hvalue
    exact .inl (Prod.ext hname.symm hvalue.2)
  | cons c rest =>
    rw [List.cons_append, List.cons.injEq] at hvalue
    obtain ⟨rfl, hvalue⟩ := hvalue
    refine .inr ⟨String.ofList rest, ?_, ?_⟩
    · rw [← String.toList_inj, hname]
      simp only [String.toList_append, String.toList_ofList, List.append_assoc]
      rfl
    · rw [← String.toList_inj, hvalue]
      simp only [String.toList_append, String.toList_ofList, List.append_assoc]
      rfl

theorem joined_eq_iff {a b : String × String} :
    joined a = joined b ↔ a = b ∨ Extends a b ∨ Extends b a := by
  constructor
  · intro h
    rw [← String.toList_inj, toList_joined, toList_joined] at h
    rcases List.append_eq_append_iff.mp h with ⟨rest, hname, hvalue⟩ | ⟨rest, hname, hvalue⟩
    · exact (eq_or_extends_of_split hname hvalue).imp_right .inl
    · exact (eq_or_extends_of_split hname hvalue).imp Eq.symm .inr
  · rintro (rfl | h | h)
    · rfl
    · exact h.joined_eq
    · exact h.joined_eq.symm

-- No two entries that differ only in the colon at which their text is split.
def Apart (es : Finset (String × String)) : Prop := ∀ a ∈ es, ∀ b ∈ es, ¬ Extends a b

theorem Extends.colon_mem {a b : String × String} (h : Extends a b) : ':' ∈ b.1.toList := by
  obtain ⟨moved, hname, -⟩ := h
  rw [hname, String.toList_append, String.toList_append]
  simp

-- Names of properties have no colon in them, unless they are quoted.
theorem apart_of_plain {es : Finset (String × String)} (h : ∀ e ∈ es, ':' ∉ e.1.toList) :
    Apart es :=
  fun _ _ b hb hab => h b hb hab.colon_mem

theorem not_extends_self (a : String × String) : ¬ Extends a a := by
  rintro ⟨moved, hname, -⟩
  have hlength := congrArg String.length hname
  simp only [String.length_append] at hlength
  have hcolon : ":".length = 1 := rfl
  omega

theorem apart_iff_injOn {es : Finset (String × String)} :
    Apart es ↔ Set.InjOn joined (es : Set (String × String)) := by
  constructor
  · intro h a ha b hb hab
    rcases joined_eq_iff.mp hab with heq | hext | hext
    · exact heq
    · exact absurd hext (h a ha b hb)
    · exact absurd hext (h b hb a ha)
  · intro hinj a ha b hb hext
    obtain rfl := hinj ha hb hext.joined_eq
    exact not_extends_self a hext

-- All entries of some styles.
def entries (maps : List (List (String × String))) : Finset (String × String) :=
  maps.flatten.toFinset

def texts (maps : List (List (String × String))) : Finset String := (entries maps).image joined

section Maps

variable {as bs : List (List (String × String))}

theorem toFinset_map_joined (maps : List (List (String × String))) :
    (maps.flatten.map joined).toFinset = texts maps := by
  ext text
  rw [texts, entries, List.mem_toFinset, List.mem_map, Finset.mem_image]
  simp only [List.mem_toFinset]

theorem inlineScore_eq_jaccard {α : Type} [Scalar α] (h : (entries as ∪ entries bs).Nonempty) :
    inlineScore as bs =
      some (jaccard (as.flatten.map joined) (bs.flatten.map joined) : α) := by
  refine if_neg fun hempty => h.ne_empty ?_
  rw [Bool.and_eq_true, List.isEmpty_iff, List.isEmpty_iff, List.map_eq_nil_iff,
    List.map_eq_nil_iff] at hempty
  rw [entries, entries, hempty.1, hempty.2]
  rfl

theorem inlineScore_eq_share {α : Type} [Scalar α] (h : (entries as ∪ entries bs).Nonempty) :
    inlineScore as bs = some (share (texts as) (texts bs) : α) := by
  have htexts : (texts as ∪ texts bs).Nonempty := by
    rw [texts, texts, ← Finset.image_union]
    exact h.image joined
  rw [inlineScore_eq_jaccard h, jaccard_eq_share, toFinset_map_joined, toFinset_map_joined]
  rwa [toFinset_map_joined, toFinset_map_joined]

theorem card_union_texts_iff :
    (texts as ∪ texts bs).card = (entries as ∪ entries bs).card ↔
      Apart (entries as ∪ entries bs) := by
  rw [texts, texts, ← Finset.image_union, Finset.card_image_iff, apart_iff_injOn]

section Apart

variable (h : Apart (entries as ∪ entries bs))

include h

theorem card_inter_texts :
    (texts as ∩ texts bs).card = (entries as ∩ entries bs).card := by
  have hinj := apart_iff_injOn.mp h
  rw [Finset.coe_union] at hinj
  rw [texts, texts, ← Finset.image_inter_of_injOn _ _ hinj]
  refine Finset.card_image_of_injOn (hinj.mono fun e he => .inl ?_)
  exact Finset.mem_of_mem_inter_left he

theorem share_texts {α : Type} [Scalar α] :
    (share (texts as) (texts bs) : α) = share (entries as) (entries bs) := by
  rw [share, share, card_inter_texts h, card_union_texts_iff.mpr h]

end Apart

end Maps

-- Styles are compared by the texts of their entries. The number of texts that are in both or in
-- either is that of the entries just when no entry goes on with what another one holds, so there
-- the score is the share of the common entries, and 1 just for the same entries.
theorem inlineScore_exact {α : Type} [Scalar α] {as bs : List (List (String × String))}
    (h : (entries as ∪ entries bs).Nonempty) :
    inlineScore as bs = some (share (texts as) (texts bs) : α) ∧
      ((inlineScore as bs : Option ℚ) = some 1 ↔ texts as = texts bs) ∧
      ((texts as ∪ texts bs).card = (entries as ∪ entries bs).card ↔
        Apart (entries as ∪ entries bs)) ∧
      (Apart (entries as ∪ entries bs) →
        inlineScore as bs = some (share (entries as) (entries bs) : α) ∧
          ((inlineScore as bs : Option ℚ) = some 1 ↔ entries as = entries bs)) := by
  have hone : (inlineScore as bs : Option ℚ) = some 1 ↔ texts as = texts bs := by
    rw [inlineScore_eq_share h, Option.some.injEq, share_eq_one_iff]
    rw [texts, texts, ← Finset.image_union]
    exact h.image joined
  refine ⟨inlineScore_eq_share h, hone, card_union_texts_iff, fun hapart => ⟨?_, ?_⟩⟩
  · rw [inlineScore_eq_share h, share_texts hapart]
  · rw [inlineScore_eq_share h, share_texts hapart, Option.some.injEq, share_eq_one_iff h]

-- Two styles without a common entry are taken for the same.
theorem inlineScore_shifted_colon :
    ((Source.parse? .tsx
      "var A=x=><a style=\x7b\x7b\"a:b\":\"c\"\x7d\x7d/>,B=x=><a style=\x7b\x7ba:\"b:c\"\x7d\x7d/>").map
        fun s => (Component.all s "a.tsx").map (·.styles.inline)) =
      some [[[("a:b", "c")]], [[("a", "b:c")]]] ∧
      entries [[("a:b", "c")]] ∩ entries [[("a", "b:c")]] = ∅ ∧
      (inlineScore [[("a:b", "c")]] [[("a", "b:c")]] : Option ℚ) = some 1 := by
  refine ⟨?_, ?_, ?_⟩ <;> decide +kernel

theorem inlineScore_exact_half :
    (entries [[("color", "red")]] ∪
        entries [[("color", "red")], [("color", "red"), ("margin", "a:b")]]).Nonempty ∧
      Apart (entries [[("color", "red")]] ∪
        entries [[("color", "red")], [("color", "red"), ("margin", "a:b")]]) ∧
      (inlineScore [[("color", "red")]]
        [[("color", "red")], [("color", "red"), ("margin", "a:b")]] : Option ℚ) =
        some (1 / 2) := by
  have hne : (entries [[("color", "red")]] ∪
      entries [[("color", "red")], [("color", "red"), ("margin", "a:b")]]).Nonempty := by
    decide +kernel
  have hplain : ∀ e ∈ entries [[("color", "red")]] ∪
      entries [[("color", "red")], [("color", "red"), ("margin", "a:b")]], ':' ∉ e.1.toList := by
    decide +kernel
  have hapart := apart_of_plain hplain
  obtain ⟨-, -, -, hscore⟩ := inlineScore_exact (α := ℚ) hne
  refine ⟨hne, hapart, (hscore hapart).1.trans (congrArg some ?_)⟩
  decide +kernel

end Components.Styles

end Likeness
