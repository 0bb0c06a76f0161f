import Likeness.Json.Text
import Likeness.Proofs.Number.Pointed

namespace Likeness.Json

open Likeness.Number

section Doubles

variable {m n : ℕ} {x : Float}

theorem finite_eq (hn : n ≠ 0) : doubleLayout.finite n =
    let decimal := (Binary.ofBits n).shortest.strip 17
    let exponent := decimal.exponent + decimal.text.length - 1
    if -5 ≤ exponent ∧ exponent < 16 then Layout.placed ".0" decimal.text (exponent + 1)
    else Layout.scientific "+" decimal.text exponent := by
  simp [doubleLayout, Layout.finite, hn]

theorem digits_text (d : Decimal) : Digits d.text := digits_toDigits d.digits

theorem text_ne_nil (d : Decimal) : d.text ≠ [] := Nat.toDigits_ne_nil

theorem written_finite (n : ℕ) : Decimal.Written (doubleLayout.finite n).toList := by
  by_cases hn : n = 0
  · subst hn
    have hzero : Digits ['0'] := by simp [Digits]
    exact Layout.written_point hzero hzero (by simp)
  · rw [finite_eq hn]
    dsimp only
    split
    · exact Layout.written_placed (digits_text _) (text_ne_nil _) _
    · exact Layout.written_scientific (digits_text _) (text_ne_nil _) _

-- Either way the text stands for the shortest decimal.
theorem textValue_finite (hn : n ≠ 0) :
    textValue (doubleLayout.finite n).toList =
      (Binary.ofBits n).shortest.digits * 10 ^ (Binary.ofBits n).shortest.exponent := by
  have hvalue := (Binary.ofBits n).shortest.value_strip 17
  rw [Decimal.value, Decimal.value] at hvalue
  have hdigits (d : Decimal) : Nat.ofDigitChars 10 d.text 0 = d.digits :=
    Nat.ofDigitChars_ten_toDigits
  rw [finite_eq hn]
  dsimp only
  split
  · rw [Layout.textValue_placed (digits_text _), hdigits, ← hvalue]
    congr 2
    ring
  · rw [Layout.textValue_scientific (digits_text _) (text_ne_nil _), hdigits, ← hvalue]
    congr 2
    ring

theorem nearest_textValue (hn : n < 2 ^ 63) (hpos : n ≠ 0) :
    (Binary.ofBits n).Nearest (textValue (doubleLayout.finite n).toList) := by
  rw [textValue_finite hpos]
  refine Binary.nearest_shortest (Binary.stored_ofBits n) (Nat.pos_of_ne_zero ?_)
  rwa [ne_eq, Binary.mantissa_ofBits_eq_zero_iff hn]

theorem textValue_finite_eq_zero_iff (hn : n < 2 ^ 63) :
    textValue (doubleLayout.finite n).toList = 0 ↔ n = 0 := by
  constructor
  · intro h
    by_contra hpos
    have hnearest := nearest_textValue hn hpos
    rw [h] at hnearest
    have hmantissa := mt (Binary.mantissa_ofBits_eq_zero_iff hn).mp hpos
    exact lt_irrefl _ (Binary.nearest_pos (Nat.pos_of_ne_zero hmantissa) hnearest)
  · rintro rfl
    have hone : Digits ['0'] := by simp [Digits]
    have htext : (doubleLayout.finite 0).toList = ['0'] ++ '.' :: ['0'] := rfl
    rw [htext, hone.textValue_point hone]
    simp [Nat.ofDigitChars]

-- Doubles of one text are the same double, as no number rounds to two.
theorem finite_injective (hm : m < 2 ^ 63) (hn : n < 2 ^ 63)
    (h : (doubleLayout.finite m).toList = (doubleLayout.finite n).toList) : m = n := by
  by_cases hzero : m = 0
  · rw [← textValue_finite_eq_zero_iff hm, h, textValue_finite_eq_zero_iff hn] at hzero
    have hzero' := hzero
    rw [← textValue_finite_eq_zero_iff hn, ← h, textValue_finite_eq_zero_iff hm] at hzero'
    omega
  · have hzero' : n ≠ 0 := by
      rwa [ne_eq, ← textValue_finite_eq_zero_iff hn, ← h, textValue_finite_eq_zero_iff hm]
    have hnearest := nearest_textValue hn hzero'
    rw [← h] at hnearest
    obtain ⟨hmantissa, hexponent⟩ := Binary.eq_of_nearest (Binary.stored_ofBits m)
      (Binary.stored_ofBits n) (nearest_textValue hm hzero) hnearest
    exact Binary.ofBits_injective hm hn hmantissa hexponent

theorem toList_writeDouble (hx : x.isFinite = true) : (writeDouble x).toList =
    (if isNegative x then ['-'] else []) ++ (doubleLayout.finite (sizeBits x)).toList := by
  rw [writeDouble, if_pos hx, Layout.toList_write _ hx]

end Doubles

namespace Number

-- JSON has no other doubles.
def IsFinite : Number → Prop
  | .int _ => True
  | .double x => x.isFinite = true

theorem isFinite_toDouble {n : Number} (hn : n.IsFinite) : n.toDouble.isFinite = true := by
  cases n with
  | double x => exact hn
  | int n =>
    rw [toDouble]
    split
    · exact (isFinite_toFloat _).2
    · exact (isFinite_toFloat _).1

def isNegative : Number → Bool
  | .int n => n < 0
  | .double x => Likeness.Number.isNegative x

-- The text of a number without its sign.
def body : Number → List Char
  | .int n => Nat.toDigits 10 n.natAbs
  | .double x => (doubleLayout.finite (sizeBits x)).toList

variable {m n : Number}

theorem toList_text (h : n.IsFinite) :
    n.text.toList = (if n.isNegative then ['-'] else []) ++ n.body := by
  cases n with
  | double x => exact toList_writeDouble h
  | int n =>
    cases n with
    | ofNat n => exact Nat.toList_repr
    | negSucc n =>
      have htext : (int (.negSucc n)).text = "-" ++ Nat.repr (n + 1) := rfl
      have hneg : (int (.negSucc n)).isNegative = true := decide_eq_true (Int.negSucc_lt_zero n)
      rw [htext, String.toList_append, Nat.toList_repr, if_pos hneg]
      rfl

theorem head_body (n : Number) : ∃ c ∈ n.body.head?, c.isDigit = true := by
  cases n with
  | double x => exact (written_finite _).head
  | int n =>
    obtain ⟨c, ds, hds⟩ := List.exists_cons_of_ne_nil (@Nat.toDigits_ne_nil n.natAbs 10)
    refine ⟨c, by rw [body, hds]; rfl, digits_toDigits n.natAbs c ?_⟩
    rw [hds]
    exact List.mem_cons_self

theorem plain_body (n : Number) : ∀ c ∈ n.body, c.isDigit = true ∨ c ∈ ['-', '+', '.', 'e'] := by
  cases n with
  | double x => exact (written_finite _).plain
  | int n => exact fun c hc => .inl (digits_toDigits n.natAbs c hc)

theorem eq_of_body (hsign : m.isNegative = n.isNegative) (hbody : m.body = n.body) : m = n := by
  -- only doubles have a point or an exponent
  have hmarked (k : ℤ) (x : Float) : (int k).body ≠ (double x).body := by
    intro h
    have hdigits := digits_toDigits k.natAbs
    change Digits (int k).body at hdigits
    rw [h] at hdigits
    rcases (written_finite (sizeBits x)).marked with hpoint | he
    · exact hdigits.notMem rfl hpoint
    · exact hdigits.notMem rfl he
  cases m with
  | int k =>
    cases n with
    | int l =>
      have habs : k.natAbs = l.natAbs := by
        have hvalue := congrArg (fun ds => Nat.ofDigitChars 10 ds 0) hbody
        simpa [body] using hvalue
      have hneg : k < 0 ↔ l < 0 := by simpa [isNegative] using hsign
      congr 1
      omega
    | double y => exact absurd hbody (hmarked k y)
  | double x =>
    cases n with
    | int l => exact absurd hbody.symm (hmarked l x)
    | double y =>
      congr 1
      exact eq_of_bits hsign (finite_injective (sizeBits_lt x) (sizeBits_lt y) hbody)

-- Numbers of one text are one number.
theorem text_injective (hm : m.IsFinite) (hn : n.IsFinite) (h : m.text.toList = n.text.toList) :
    m = n := by
  obtain ⟨c, hc, hdigit⟩ := m.head_body
  obtain ⟨d, hd, hdigit'⟩ := n.head_body
  obtain ⟨cs, hcs⟩ := List.head?_eq_some_iff.mp hc
  obtain ⟨ds, hds⟩ := List.head?_eq_some_iff.mp hd
  have hsign {c : Char} (h : c.isDigit = true) : c ≠ '-' := by
    rintro rfl
    cases h
  rw [toList_text hm, toList_text hn, hcs, hds] at h
  cases hneg : m.isNegative <;> cases hneg' : n.isNegative <;> rw [hneg, hneg'] at h
  · exact eq_of_body (hneg.trans hneg'.symm) (by rw [hcs, hds]; exact h)
  · exact absurd (List.cons.inj h).1 (hsign hdigit)
  · exact absurd (List.cons.inj h).1.symm (hsign hdigit')
  · exact eq_of_body (hneg.trans hneg'.symm) (by rw [hcs, hds]; exact (List.cons.inj h).2)

end Number

end Likeness.Json
