import Likeness.Proofs.Lists
import Likeness.Proofs.Modules.Common
import Likeness.Proofs.Similarity.Shares
import Mathlib.Data.Finset.Card

namespace Likeness.Module

open Number Similarity

-- How much two sets have in common: twice the number of common members as a share of the number of
-- members of both. Two empty sets have nothing in common.
def overlap (s t : Finset String) : ℚ := 2 * (s ∩ t).card / (s.card + t.card)

section Overlap

variable (s t : Finset String)

theorem overlap_comm : overlap s t = overlap t s := by
  rw [overlap, overlap, Finset.inter_comm, add_comm]

-- Each common member counts once in either set.
theorem card_common_le : (s ∩ t).card ≤ s.card ∧ (s ∩ t).card ≤ t.card :=
  ⟨Finset.card_le_card Finset.inter_subset_left, Finset.card_le_card Finset.inter_subset_right⟩

theorem overlap_mem_shares : overlap s t ∈ shares := by
  obtain ⟨hfirst, hsecond⟩ := card_common_le s t
  have hcount : 2 * ((s ∩ t).card : ℚ) ≤ s.card + t.card := by
    have hnat : 2 * (s ∩ t).card ≤ s.card + t.card := by omega
    exact_mod_cast hnat
  exact div_mem_shares (by positivity) hcount

theorem overlap_eq_zero_iff : overlap s t = 0 ↔ Disjoint s t := by
  rw [overlap, div_eq_zero_iff, Finset.disjoint_iff_inter_eq_empty, ← Finset.card_eq_zero]
  constructor
  · rintro (hcommon | htotal)
    · exact_mod_cast (mul_eq_zero.mp hcommon).resolve_left two_ne_zero
    · -- without members there are none in common
      have hcard : s.card + t.card = 0 := by exact_mod_cast htotal
      obtain ⟨hfirst, -⟩ := card_common_le s t
      omega
  · intro hnone
    left
    rw [hnone, Nat.cast_zero, mul_zero]

-- A share is all of both sets only if neither has a member of its own.
theorem overlap_eq_one_iff : overlap s t = 1 ↔ s = t ∧ s.Nonempty := by
  constructor
  · intro hone
    have htotal : (s.card + t.card : ℚ) ≠ 0 := by
      intro hzero
      rw [overlap, hzero, div_zero] at hone
      exact zero_ne_one hone
    have hcount : 2 * (s ∩ t).card = s.card + t.card := by
      have hall := (div_eq_one_iff_eq htotal).mp hone
      exact_mod_cast hall
    have hpos : s.card + t.card ≠ 0 := by exact_mod_cast htotal
    obtain ⟨hfirst, hsecond⟩ := card_common_le s t
    have hs : s ∩ t = s := Finset.eq_of_subset_of_card_le Finset.inter_subset_left (by omega)
    have ht : s ∩ t = t := Finset.eq_of_subset_of_card_le Finset.inter_subset_right (by omega)
    exact ⟨hs.symm.trans ht, Finset.card_pos.mp (by omega)⟩
  · rintro ⟨rfl, hne⟩
    have hpos : (0 : ℚ) < s.card := by exact_mod_cast Finset.card_pos.mpr hne
    rw [overlap, Finset.inter_self, ← two_mul, div_self (by positivity)]

-- A member of the first set that comes into the second one counts once more below the line and
-- twice above it.
theorem overlap_le_insert {body : String} (hbody : body ∈ s) :
    overlap s t ≤ overlap s (insert body t) := by
  by_cases hold : body ∈ t
  · rw [Finset.insert_eq_of_mem hold]
  · have hcommon : (s ∩ insert body t).card = (s ∩ t).card + 1 := by
      rw [Finset.inter_insert_of_mem hbody, Finset.card_insert_of_notMem]
      exact fun h => hold (Finset.mem_of_mem_inter_right h)
    have hpos : (0 : ℚ) < s.card := by exact_mod_cast Finset.card_pos.mpr ⟨body, hbody⟩
    have hle : ((s ∩ t).card : ℚ) ≤ s.card := mod_cast (card_common_le s t).1
    rw [overlap, overlap, hcommon, Finset.card_insert_of_notMem hold,
      div_le_div_iff₀ (by positivity) (by positivity)]
    push_cast
    nlinarith

end Overlap

-- The shapes of the functions of a file as a set.
def bodySet (m : Module) : Finset String := m.bodies.toFinset

section Sets

variable {a b : Module}

theorem card_bodySet (ha : a.bodies.Nodup) : a.bodySet.card = a.bodies.length :=
  List.toFinset_card_of_nodup ha

theorem card_inter_bodySet (ha : a.bodies.Nodup) (b : Module) :
    (a.bodySet ∩ b.bodySet).card = (a.bodies.filter b.bodies.contains).length := by
  have hfilter : a.bodySet ∩ b.bodySet = (a.bodies.filter b.bodies.contains).toFinset := by
    ext body
    simp [bodySet]
  rw [hfilter, List.toFinset_card_of_nodup (ha.filter _)]

-- The score of two files is the overlap of their sets, if both are understood.
theorem similarity_eq_overlap (ha : a.bodies.Nodup) (hb : b.bodies.Nodup) :
    (similarity a b : ℚ) =
      if a.parsed = true ∧ b.parsed = true then overlap a.bodySet b.bodySet else 0 := by
  have hunfold : (similarity a b : ℚ) =
      if !a.parsed || !b.parsed || a.bodies.length + b.bodies.length == 0 then 0
      else ((2 * (a.bodies.filter b.bodies.contains).length : ℕ) : ℚ) /
        (a.bodies.length + b.bodies.length : ℕ) := by
    simp [similarity]
  rw [hunfold, overlap, card_inter_bodySet ha, card_bodySet ha, card_bodySet hb]
  by_cases hparsed : a.parsed = true ∧ b.parsed = true
  · rw [if_pos hparsed, hparsed.1, hparsed.2]
    split
    · -- nothing is divided by zero: without bodies the overlap is 0 all the same
      rename_i hempty
      have htotal : a.bodies.length + b.bodies.length = 0 := by simpa using hempty
      have hcast : (a.bodies.length + b.bodies.length : ℚ) = 0 := by exact_mod_cast htotal
      rw [hcast, div_zero]
    · push_cast
      rfl
  · rw [if_neg hparsed, if_pos]
    rcases not_and_or.mp hparsed with h | h <;> simp [h]

-- It does not matter which of two files comes first.
theorem similarity_comm (ha : a.bodies.Nodup) (hb : b.bodies.Nodup) :
    (similarity a b : ℚ) = similarity b a := by
  rw [similarity_eq_overlap ha hb, similarity_eq_overlap hb ha, overlap_comm]
  exact if_congr and_comm rfl rfl

theorem similarity_mem_shares (ha : a.bodies.Nodup) (hb : b.bodies.Nodup) :
    (similarity a b : ℚ) ∈ shares := by
  rw [similarity_eq_overlap ha hb]
  split
  · exact overlap_mem_shares _ _
  · exact zero_mem_shares

theorem similarity_eq_one_iff (ha : a.bodies.Nodup) (hb : b.bodies.Nodup) :
    (similarity a b : ℚ) = 1 ↔
      (a.parsed = true ∧ b.parsed = true) ∧ a.bodySet = b.bodySet ∧ a.bodySet.Nonempty := by
  rw [similarity_eq_overlap ha hb]
  split
  · rename_i hparsed
    rw [overlap_eq_one_iff, and_iff_right hparsed]
  · rename_i hparsed
    exact iff_of_false zero_ne_one fun h => hparsed h.1

theorem similarity_eq_zero_iff (ha : a.bodies.Nodup) (hb : b.bodies.Nodup) :
    (similarity a b : ℚ) = 0 ↔ a.parsed = false ∨ b.parsed = false ∨ ¬Share a b := by
  have hcommon : Disjoint a.bodySet b.bodySet ↔ ¬Share a b := by
    simp [Finset.disjoint_left, bodySet, Share]
  rw [similarity_eq_overlap ha hb, ← or_assoc]
  split
  · rename_i hparsed
    rw [overlap_eq_zero_iff, hcommon, hparsed.1, hparsed.2]
    simp
  · rename_i hparsed
    rw [not_and_or, Bool.not_eq_true, Bool.not_eq_true] at hparsed
    exact iff_of_true rfl (.inl hparsed)

-- A body of the first file that is added to the second one does not lower their score.
theorem similarity_le_of_insert {c : Module} {body : String} (ha : a.bodies.Nodup)
    (hb : b.bodies.Nodup) (hc : c.bodies.Nodup) (hbody : body ∈ a.bodies)
    (hparsed : c.parsed = b.parsed) (hset : c.bodySet = insert body b.bodySet) :
    (similarity a b : ℚ) ≤ similarity a c := by
  rw [similarity_eq_overlap ha hb, similarity_eq_overlap ha hc, hparsed, hset]
  split
  · exact overlap_le_insert _ _ (List.mem_toFinset.mpr hbody)
  · exact le_rfl

end Sets

section Functions

variable (file : Files.Path) (functions : List ShapedFunction)

theorem nodup_ofFunctions : (ofFunctions file functions).bodies.Nodup := nodup_eraseDups _

theorem bodySet_ofFunctions :
    (ofFunctions file functions).bodySet = (functions.map ShapedFunction.digest).toFinset := by
  ext body
  simp [bodySet, ofFunctions]

-- How often and in which order a file has its functions makes no difference.
theorem similarity_ofFunctions_congr {file : Files.Path} {fs gs : List ShapedFunction} {b : Module}
    (hb : b.bodies.Nodup)
    (hsame : ∀ digest, digest ∈ fs.map ShapedFunction.digest ↔
      digest ∈ gs.map ShapedFunction.digest) :
    (similarity (ofFunctions file fs) b : ℚ) = similarity (ofFunctions file gs) b := by
  have hset : (ofFunctions file fs).bodySet = (ofFunctions file gs).bodySet := by
    rw [bodySet_ofFunctions, bodySet_ofFunctions]
    ext digest
    simpa using hsame digest
  rw [similarity_eq_overlap (nodup_ofFunctions file fs) hb,
    similarity_eq_overlap (nodup_ofFunctions file gs) hb, hset]
  rfl

end Functions

-- The score of two files is that of two sets: it does not depend on which file comes first, is a
-- share of a whole, all of it for two equal sets with a member and nothing for sets without a
-- common one, and a body of the one file that is added to the other one does not lower it. How
-- often and in which order a file has its functions makes no difference.
theorem similarity_measures_overlap (a b : Module) (ha : a.bodies.Nodup) (hb : b.bodies.Nodup) :
    (similarity a b : ℚ) = similarity b a ∧
    (0 ≤ (similarity a b : ℚ) ∧ (similarity a b : ℚ) ≤ 1) ∧
    ((similarity a b : ℚ) = 1 ↔
      (a.parsed = true ∧ b.parsed = true) ∧ a.bodySet = b.bodySet ∧ a.bodySet.Nonempty) ∧
    ((similarity a b : ℚ) = 0 ↔ a.parsed = false ∨ b.parsed = false ∨ ¬Share a b) ∧
    (∀ body ∈ a.bodies, ∀ c : Module, c.bodies.Nodup → c.parsed = b.parsed →
      c.bodySet = insert body b.bodySet → (similarity a b : ℚ) ≤ similarity a c) ∧
    ∀ (file : Files.Path) (fs gs : List ShapedFunction),
      (∀ digest, digest ∈ fs.map ShapedFunction.digest ↔ digest ∈ gs.map ShapedFunction.digest) →
        (similarity (ofFunctions file fs) b : ℚ) = similarity (ofFunctions file gs) b := by
  refine ⟨similarity_comm ha hb, similarity_mem_shares ha hb, similarity_eq_one_iff ha hb,
    similarity_eq_zero_iff ha hb, ?_, ?_⟩
  · intro body hbody c hc hparsed hset
    exact similarity_le_of_insert ha hb hc hbody hparsed hset
  · intro file fs gs hsame
    exact similarity_ofFunctions_congr hb hsame

def threeBodies : Module := ⟨"a.js", ["x", "y", "z"], true⟩

def otherBodies : Module := ⟨"b.js", ["w", "x", "y"], true⟩

theorem similarity_measures_overlap_two_of_three :
    threeBodies.bodies.Nodup ∧ otherBodies.bodies.Nodup ∧
      (similarity threeBodies otherBodies : ℚ) = 2 / 3 ∧
      (similarity threeBodies otherBodies : ℚ) ≤
        similarity threeBodies ⟨"b.js", ["w", "x", "y", "z"], true⟩ := by
  have hthree : threeBodies.bodies.Nodup := by decide
  have hother : otherBodies.bodies.Nodup := by decide
  obtain ⟨-, -, -, -, hadded, -⟩ := similarity_measures_overlap threeBodies otherBodies hthree hother
  refine ⟨hthree, hother, by decide +kernel, ?_⟩
  exact hadded "z" (by decide) ⟨"b.js", ["w", "x", "y", "z"], true⟩ (by decide) rfl (by decide)

end Likeness.Module
