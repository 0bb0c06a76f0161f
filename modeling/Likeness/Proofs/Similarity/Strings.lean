import Likeness.Proofs.Similarity.Symmetric
import Likeness.Proofs.Text.Edits

namespace Likeness.Similarity

open Number Text

-- One less the edit distance as a share of the characters of the longer text.
def stringFormula (a b : String) : ℚ :=
  if max a.length b.length = 0 then 1
  else 1 - (editDistance a.toList b.toList : ℚ) / (max a.length b.length : ℕ)

-- A text needs no more edits than the longer one has characters.
theorem stringFormula_mem_shares (a b : String) : stringFormula a b ∈ shares := by
  unfold stringFormula
  split
  · exact ⟨zero_le_one, le_rfl⟩
  · apply one_sub_mem_shares
    have hle := editDistance_le_max a.toList b.toList
    rw [String.length_toList, String.length_toList] at hle
    exact count_mem_shares hle

theorem stringFormula_self (a : String) : stringFormula a a = 1 := by
  have hdistance := (editDistance_eq_zero_iff a.toList a.toList).mpr rfl
  simp [stringFormula, hdistance]

theorem stringFormula_eq_one_iff (a b : String) : stringFormula a b = 1 ↔ a = b := by
  constructor
  · intro h
    unfold stringFormula at h
    split at h
    · rename_i hempty
      rw [Nat.max_eq_zero_iff, String.length_eq_zero_iff, String.length_eq_zero_iff] at hempty
      rw [hempty.1, hempty.2]
    · rename_i hlongest
      have hcast : ((max a.length b.length : ℕ) : ℚ) ≠ 0 := Nat.cast_ne_zero.mpr hlongest
      rw [sub_eq_self, div_eq_zero_iff, or_iff_left hcast, Nat.cast_eq_zero,
        editDistance_eq_zero_iff, String.toList_inj] at h
      exact h
  · rintro rfl
    exact stringFormula_self a

theorem ofStrings_eq (a b : String) : (ofStrings a b : ℚ) = stringFormula a b := by
  unfold ofStrings
  by_cases hsame : a = b
  · subst b
    rw [if_pos rfl, stringFormula_self, Scalar.exact_one]
  · have hmem := stringFormula_mem_shares a b
    rw [if_neg hsame]
    unfold stringFormula at hmem ⊢
    by_cases hempty : max a.length b.length = 0
    · simp [hempty]
    · rw [if_neg hempty] at hmem ⊢
      dsimp only
      rw [if_neg hempty]
      exact clamp_of_mem hmem

theorem ofStrings_eq_one_iff (a b : String) : (ofStrings a b : ℚ) = 1 ↔ a = b := by
  rw [ofStrings_eq, stringFormula_eq_one_iff]

-- The score of two texts is told by the least number of edits that turn one into the other.
theorem ofStrings_least_edits (a b : String) :
    IsLeast {n | EditedIn n a.toList b.toList} (editDistance a.toList b.toList) ∧
    (ofStrings a b : ℚ) = (if a = "" ∧ b = "" then 1
      else 1 - (editDistance a.toList b.toList : ℚ) / (max a.length b.length : ℕ)) ∧
    ((ofStrings a b : ℚ) = 1 ↔ a = b) ∧ (ofStrings a b : ℚ) = ofStrings b a ∧
    (ofStrings a b : ℚ) ∈ shares ∧
    ∀ c : String, editDistance a.toList c.toList ≤
      editDistance a.toList b.toList + editDistance b.toList c.toList := by
  have hempty : max a.length b.length = 0 ↔ a = "" ∧ b = "" := by
    rw [Nat.max_eq_zero_iff, String.length_eq_zero_iff, String.length_eq_zero_iff]
  refine ⟨isLeast_editDistance _ _, ?_, ofStrings_eq_one_iff a b, ofStrings_comm a b,
    ofStrings_mem_shares a b, fun c => editDistance_triangle _ _ _⟩
  rw [ofStrings_eq, stringFormula]
  simp only [hempty]

end Likeness.Similarity
