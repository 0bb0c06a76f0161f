import Likeness.Number.Layout
import Likeness.Proofs.Number.Shortest
import Mathlib.Data.List.TakeWhile

namespace Likeness.Number

section Cut

variable {mark : Char} {as : List Char}

-- What stands before and after the first of some mark.
def cut (mark : Char) (cs : List Char) : List Char × List Char :=
  (cs.takeWhile (· ≠ mark), (cs.dropWhile (· ≠ mark)).drop 1)

theorem cut_of_notMem (h : mark ∉ as) : cut mark as = (as, []) := by
  have hall : ∀ c ∈ as, decide (c ≠ mark) = true := by
    intro c hc
    rw [decide_eq_true_iff]
    rintro rfl
    exact h hc
  rw [cut, List.takeWhile_eq_self_iff.mpr hall, List.dropWhile_eq_nil_iff.mpr hall, List.drop_nil]

theorem cut_append (h : mark ∉ as) (bs : List Char) : cut mark (as ++ mark :: bs) = (as, bs) := by
  have hall : ∀ c ∈ as, decide (c ≠ mark) = true := by
    intro c hc
    rw [decide_eq_true_iff]
    rintro rfl
    exact h hc
  rw [cut, List.takeWhile_append_of_pos hall, List.dropWhile_append_of_pos hall]
  simp

end Cut

section Values

-- What digits stand for, with a point among them or without.
def pointValue (cs : List Char) : ℚ :=
  Nat.ofDigitChars 10 ((cut '.' cs).1 ++ (cut '.' cs).2) 0 / 10 ^ (cut '.' cs).2.length

def exponentValue : List Char → ℤ
  | [] => 0
  | sign :: ds =>
    if sign = '-' then -(Nat.ofDigitChars 10 ds 0 : ℕ) else (Nat.ofDigitChars 10 ds 0 : ℕ)

-- What the text of a number without a sign stands for.
def textValue (cs : List Char) : ℚ :=
  pointValue (cut 'e' cs).1 * 10 ^ exponentValue (cut 'e' cs).2

theorem ofDigitChars_append_zeros (ds : List Char) (n : ℕ) :
    Nat.ofDigitChars 10 (ds ++ Layout.zeros n) 0 = 10 ^ n * Nat.ofDigitChars 10 ds 0 := by
  rw [Nat.ofDigitChars_append, Layout.zeros, Nat.ofDigitChars_replicate_zero]

theorem ofDigitChars_zeros_append (ds : List Char) (n : ℕ) :
    Nat.ofDigitChars 10 (Layout.zeros n ++ ds) 0 = Nat.ofDigitChars 10 ds 0 := by
  rw [Nat.ofDigitChars_append, Layout.zeros, Nat.ofDigitChars_replicate_zero, mul_zero]

end Values

-- The characters that are digits.
def Digits (ds : List Char) : Prop := ∀ c ∈ ds, c.isDigit = true

theorem digits_toDigits (n : ℕ) : Digits (Nat.toDigits 10 n) :=
  fun _ hc => Nat.isDigit_of_mem_toDigits (by decide) (by decide) hc

theorem digits_zeros (n : ℕ) : Digits (Layout.zeros n) := by
  intro c hc
  rw [List.eq_of_mem_replicate hc]
  rfl

namespace Digits

variable {ds es : List Char}

theorem append (hd : Digits ds) (he : Digits es) : Digits (ds ++ es) := by
  intro c hc
  rcases List.mem_append.mp hc with h | h
  · exact hd c h
  · exact he c h

theorem notMem (hd : Digits ds) {mark : Char} (h : mark.isDigit = false) : mark ∉ ds := by
  intro hmem
  rw [hd mark hmem] at h
  cases h

theorem take (hd : Digits ds) (n : ℕ) : Digits (ds.take n) :=
  fun c hc => hd c (List.mem_of_mem_take hc)

theorem drop (hd : Digits ds) (n : ℕ) : Digits (ds.drop n) :=
  fun c hc => hd c (List.mem_of_mem_drop hc)

-- Digits with a point among them.
theorem textValue_point (hd : Digits ds) (he : Digits es) :
    textValue (ds ++ '.' :: es) = Nat.ofDigitChars 10 (ds ++ es) 0 / 10 ^ es.length := by
  have hmark : 'e' ∉ ds ++ '.' :: es := by
    have hds : 'e' ∉ ds := hd.notMem rfl
    have hes : 'e' ∉ es := he.notMem rfl
    simp [hds, hes]
  rw [textValue, cut_of_notMem hmark, pointValue, cut_append (hd.notMem rfl), exponentValue,
    zpow_zero, mul_one]

-- Digits with a point after the first of them, if there are more, and an exponent.
theorem textValue_exponent (hd : Digits (c :: ds)) (exponent : List Char) :
    textValue (c :: ((if ds = [] then [] else '.' :: ds) ++ 'e' :: exponent)) =
      Nat.ofDigitChars 10 (c :: ds) 0 / 10 ^ ds.length * 10 ^ exponentValue exponent := by
  have hc : c ≠ '.' := by
    rintro rfl
    have hpoint : '.' ∉ '.' :: ds := hd.notMem rfl
    exact hpoint List.mem_cons_self
  have hmark : 'e' ∉ c :: (if ds = [] then [] else '.' :: ds) := by
    have he : 'e' ∉ c :: ds := hd.notMem rfl
    split <;> simp_all
  have hpoint : pointValue (c :: (if ds = [] then [] else '.' :: ds)) =
      Nat.ofDigitChars 10 (c :: ds) 0 / 10 ^ ds.length := by
    split
    · rename_i hnil
      rw [pointValue, cut_of_notMem (by simpa using hc.symm), hnil]
      rfl
    · have hone : '.' ∉ [c] := by simpa using hc.symm
      rw [pointValue, ← List.singleton_append, cut_append hone]
      rfl
  rw [textValue, ← List.cons_append, cut_append hmark, hpoint]

end Digits

theorem div_ten_pow (x : ℚ) (n : ℕ) {k : ℤ} (h : k = -n) : x / 10 ^ n = x * 10 ^ k := by
  rw [h, zpow_neg, zpow_natCast, div_eq_mul_inv]

namespace Layout

section Shapes

variable {ds : List Char} {point : ℤ}

theorem toList_placed (integral : String) (ds : List Char) (point : ℤ) :
    (placed integral ds point).toList =
      if point ≤ 0 then ['0'] ++ '.' :: (zeros (-point).toNat ++ ds)
      else if ds.length ≤ point.toNat then
        ds ++ zeros (point.toNat - ds.length) ++ integral.toList
      else ds.take point.toNat ++ '.' :: ds.drop point.toNat := by
  unfold placed
  split
  · simp
  · split
    · simp
    · simp

theorem textValue_placed (hd : Digits ds) :
    textValue (placed ".0" ds point).toList =
      Nat.ofDigitChars 10 ds 0 * 10 ^ (point - ds.length) := by
  have hzero : Digits ['0'] := by simp [Digits]
  rw [toList_placed]
  split
  · have hzeros : ['0'] ++ (zeros (-point).toNat ++ ds) = zeros ((-point).toNat + 1) ++ ds := rfl
    rw [hzero.textValue_point ((digits_zeros _).append hd), hzeros, ofDigitChars_zeros_append]
    refine div_ten_pow _ _ ?_
    rw [List.length_append, zeros, List.length_replicate]
    omega
  · split
    · have hpoint : ".0".toList = '.' :: ['0'] := rfl
      have hzeros : ds ++ zeros (point.toNat - ds.length) ++ ['0'] =
          ds ++ zeros (point.toNat - ds.length + 1) := by
        rw [zeros, zeros, List.replicate_succ', List.append_assoc]
      have hexponent : point - ds.length = (point.toNat - ds.length : ℕ) := by omega
      rw [hpoint, (hd.append (digits_zeros _)).textValue_point hzero, hzeros,
        ofDigitChars_append_zeros, hexponent, zpow_natCast, List.length_singleton, pow_succ]
      push_cast
      ring
    · rw [(hd.take _).textValue_point (hd.drop _), List.take_append_drop]
      refine div_ten_pow _ _ ?_
      rw [List.length_drop]
      omega

theorem toList_scientific (c : Char) (ds : List Char) (exponent : ℤ) :
    (scientific "+" (c :: ds) exponent).toList =
      c :: ((if ds = [] then [] else '.' :: ds) ++ 'e' ::
        (if exponent < 0 then '-' else '+') :: Nat.toDigits 10 exponent.natAbs) := by
  cases ds <;> by_cases h : exponent < 0 <;> simp [scientific, h]

theorem textValue_scientific (hd : Digits ds) (hne : ds ≠ []) (exponent : ℤ) :
    textValue (scientific "+" ds exponent).toList =
      Nat.ofDigitChars 10 ds 0 * 10 ^ (exponent + 1 - ds.length) := by
  obtain ⟨c, ds, rfl⟩ := List.exists_cons_of_ne_nil hne
  have hexponent : exponentValue ((if exponent < 0 then '-' else '+') ::
      Nat.toDigits 10 exponent.natAbs) = exponent := by
    rw [exponentValue, Nat.ofDigitChars_ten_toDigits]
    by_cases h : exponent < 0
    · rw [if_pos h, if_pos rfl]
      omega
    · rw [if_neg h, if_neg (by decide)]
      omega
  rw [toList_scientific, hd.textValue_exponent, hexponent, div_ten_pow _ _ rfl, mul_assoc,
    ← zpow_add₀ (by norm_num), List.length_cons]
  congr 2
  push_cast
  ring

end Shapes

end Layout

-- How the text of a double without a sign looks: it starts with a digit and has a point or an
-- exponent.
structure Decimal.Written (cs : List Char) : Prop where
  head : ∃ c ∈ cs.head?, c.isDigit = true
  plain : ∀ c ∈ cs, c.isDigit = true ∨ c ∈ ['-', '+', '.', 'e']
  marked : '.' ∈ cs ∨ 'e' ∈ cs

namespace Layout

variable {ds : List Char}

theorem written_point {ds es : List Char} (hd : Digits ds) (he : Digits es) (hne : ds ≠ []) :
    Decimal.Written (ds ++ '.' :: es) := by
  obtain ⟨c, ds, rfl⟩ := List.exists_cons_of_ne_nil hne
  refine ⟨⟨c, rfl, hd c List.mem_cons_self⟩, fun d hmem => ?_, .inl (by simp)⟩
  rcases List.mem_append.mp hmem with h | h
  · exact .inl (hd d h)
  · rcases List.mem_cons.mp h with rfl | h
    · exact .inr (by simp)
    · exact .inl (he d h)

theorem written_placed (hd : Digits ds) (hne : ds ≠ []) (point : ℤ) :
    Decimal.Written (placed ".0" ds point).toList := by
  have hzero : Digits ['0'] := by simp [Digits]
  rw [toList_placed]
  split
  · exact written_point hzero ((digits_zeros _).append hd) (by simp)
  · split
    · exact written_point (hd.append (digits_zeros _)) hzero (by simp [hne])
    · refine written_point (hd.take _) (hd.drop _) ?_
      rw [ne_eq, List.take_eq_nil_iff]
      rintro (h | h)
      · omega
      · exact hne h

theorem written_scientific (hd : Digits ds) (hne : ds ≠ []) (exponent : ℤ) :
    Decimal.Written (scientific "+" ds exponent).toList := by
  obtain ⟨c, ds, rfl⟩ := List.exists_cons_of_ne_nil hne
  have hexponent := digits_toDigits exponent.natAbs
  rw [toList_scientific]
  refine ⟨⟨c, rfl, hd c List.mem_cons_self⟩, fun d hmem => ?_, .inr (by simp)⟩
  rcases List.mem_cons.mp hmem with rfl | hmem
  · exact .inl (hd d List.mem_cons_self)
  · rcases List.mem_append.mp hmem with h | h
    · split at h
      · cases h
      · rcases List.mem_cons.mp h with rfl | h
        · exact .inr (by simp)
        · exact .inl (hd d (List.mem_cons_of_mem _ h))
    · rcases List.mem_cons.mp h with rfl | h
      · exact .inr (by simp)
      · rcases List.mem_cons.mp h with rfl | h
        · split <;> exact .inr (by simp)
        · exact .inl (hexponent d h)

end Layout

end Likeness.Number
