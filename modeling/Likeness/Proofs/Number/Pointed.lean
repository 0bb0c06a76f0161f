import Likeness.Number.Reader
import Likeness.Proofs.Number.Finite
import Likeness.Proofs.Number.Layout

namespace Likeness.Number

-- The digits before a point: no zero stands before others.
structure WholeDigits (ds : List Char) : Prop where
  digits : Digits ds
  ne_nil : ds ≠ []
  lead : ds = ['0'] ∨ ∀ c ∈ ds.head?, c ≠ '0'

theorem WholeDigits.head {ds : List Char} (hd : WholeDigits ds) :
    ∃ c cs, ds = c :: cs ∧ c.isDigit = true := by
  obtain ⟨c, cs, rfl⟩ := List.exists_cons_of_ne_nil hd.ne_nil
  exact ⟨c, cs, rfl, hd.digits c List.mem_cons_self⟩

theorem digitChar_ne_zero {n : ℕ} (hpos : 0 < n) (hn : n < 10) : Nat.digitChar n ≠ '0' := by
  revert hpos
  revert n
  decide

theorem head_toDigits {n : ℕ} (hpos : 0 < n) : ∀ c ∈ (Nat.toDigits 10 n).head?, c ≠ '0' := by
  induction n using Nat.strong_induction_on with
  | _ n ih =>
    by_cases hn : n < 10
    · rw [Nat.toDigits_of_lt_base hn]
      simpa using digitChar_ne_zero hpos hn
    · have hge : 10 ≤ n := Nat.le_of_not_lt hn
      have hless : n / 10 < n := by omega
      have hten : 0 < n / 10 := by omega
      obtain ⟨c, cs, hcs⟩ := List.exists_cons_of_ne_nil (@Nat.toDigits_ne_nil (n / 10) 10)
      have hhead := ih (n / 10) hless hten
      rw [Nat.toDigits_of_base_le (by decide) hge]
      rw [hcs] at hhead ⊢
      exact hhead

theorem wholeDigits_toDigits (n : ℕ) : WholeDigits (Nat.toDigits 10 n) := by
  refine ⟨digits_toDigits n, Nat.toDigits_ne_nil, ?_⟩
  rcases Nat.eq_zero_or_pos n with rfl | hpos
  · exact .inl rfl
  · exact .inr (head_toDigits hpos)

theorem not_isNaN_of_isFinite {x : Float} (hx : x.isFinite = true) :
    x.isNaN = false ∧ x.isInf = false := by
  have hfinite : x.toModel.unpack.isFinite = true := hx
  change x.toModel.unpack.isNaN = false ∧ x.toModel.unpack.isInf = false
  cases h : x.toModel.unpack with
  | infinity s =>
    rw [h] at hfinite
    cases hfinite
  | notANumber =>
    rw [h] at hfinite
    cases hfinite
  | zero s => exact ⟨rfl, rfl⟩
  | finite s m e hm => exact ⟨rfl, rfl⟩

namespace Layout

theorem toList_write (n : Layout) {x : Float} (hx : x.isFinite = true) : (n.write x).toList =
    (if isNegative x then ['-'] else []) ++ (n.finite (sizeBits x)).toList := by
  obtain ⟨hnan, hinf⟩ := not_isNaN_of_isFinite hx
  rw [write, hnan, hinf]
  simp only [Bool.false_eq_true, if_false, String.toList_append, isNegative, sizeBits,
    decide_eq_true_eq]
  split <;> rfl

-- The text of a double without a sign: digits, a point and more digits.
def IsPointed (cs : List Char) : Prop :=
  ∃ ds es, cs = ds ++ '.' :: es ∧ WholeDigits ds ∧ Digits es ∧ es ≠ []

theorem isPointed_placed {ds : List Char} (hd : Digits ds) (hne : ds ≠ [])
    (hlead : ∀ c ∈ ds.head?, c ≠ '0') (point : ℤ) : IsPointed (placed ".0" ds point).toList := by
  have hzero : Digits ['0'] := by simp [Digits]
  obtain ⟨c, cs, rfl⟩ := List.exists_cons_of_ne_nil hne
  have hc : c ≠ '0' := hlead c rfl
  rw [toList_placed]
  split
  · exact ⟨['0'], _, rfl, ⟨hzero, by simp, .inl rfl⟩, (digits_zeros _).append hd, by simp⟩
  split
  · refine ⟨_, ['0'], rfl, ⟨hd.append (digits_zeros _), by simp, .inr ?_⟩, hzero, by simp⟩
    simpa using hc
  · rename_i hpoint hlength
    obtain ⟨n, hn⟩ : ∃ n, point.toNat = n + 1 := Nat.exists_eq_add_one.mpr (by omega)
    refine ⟨_, _, rfl, ⟨hd.take _, by simp [hn], .inr ?_⟩, hd.drop _, ?_⟩
    · simpa [hn] using hc
    · rw [ne_eq, List.drop_eq_nil_iff]
      omega

theorem finite_pointed {n : ℕ} (hn : n ≠ 0) : pointed.finite n =
    let decimal := (Binary.ofBits n).shortest.strip 17
    placed ".0" decimal.text (decimal.exponent + decimal.text.length) := by
  simp [pointed, finite, hn]

end Layout

theorem shortest_value_pos {n : ℕ} (hn : n < 2 ^ 63) (hpos : n ≠ 0) :
    0 < (Binary.ofBits n).shortest.value := by
  have hmantissa : 0 < (Binary.ofBits n).mantissa :=
    Nat.pos_of_ne_zero (mt (Binary.mantissa_ofBits_eq_zero_iff hn).mp hpos)
  exact Binary.nearest_pos hmantissa (Binary.nearest_shortest (Binary.stored_ofBits n) hmantissa)

theorem Layout.isPointed_finite {n : ℕ} (hn : n < 2 ^ 63) :
    IsPointed (pointed.finite n).toList := by
  by_cases hzero : n = 0
  · subst hzero
    have hdigit : Digits ['0'] := by simp [Digits]
    exact ⟨['0'], ['0'], rfl, ⟨hdigit, by simp, .inl rfl⟩, hdigit, by simp⟩
  · have hdigits : 0 < ((Binary.ofBits n).shortest.strip 17).digits := by
      have hvalue := shortest_value_pos hn hzero
      rw [← Decimal.value_strip _ 17, Decimal.value] at hvalue
      exact Nat.pos_of_ne_zero fun h => by simp [h] at hvalue
    rw [finite_pointed hzero]
    exact isPointed_placed (digits_toDigits _) Nat.toDigits_ne_nil (head_toDigits hdigits) _

-- Whether the text of a double is read as a double that is equal to it.
def readsBack (x : Float) : Bool := (readDouble (Layout.pointed.write x).toList).any (· == x)

-- It is read as the same double then, as the text of a zero has its sign.
theorem readDouble_write {x : Float} (hx : x.isFinite = true) (h : readsBack x = true) :
    readDouble (Layout.pointed.write x).toList = some x := by
  obtain ⟨y, hy, heq⟩ := (Option.any_eq_true _ _).mp h
  have hvalue := exactValue_of_beq heq
  rcases eq_or_zero_of_exactValue (isFinite_of_beq heq hx) hx hvalue with rfl | ⟨-, hzero⟩
  · exact hy
  · rcases eq_zero_of_sizeBits hzero with rfl | rfl
    · decide +kernel
    · decide +kernel

end Likeness.Number
