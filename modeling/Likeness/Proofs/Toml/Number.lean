import Likeness.Proofs.Number.Pointed
import Likeness.Toml.Scalar

namespace Likeness.Toml

open Number

section Digits

variable {ds es rest : List Char}

theorem readDigits_append (hd : Digits ds) (hne : ds ≠ [])
    (hrest : ∀ c ∈ rest.head?, c.isDigit = false ∧ c ≠ '_') :
    readDigits Char.isDigit (ds ++ rest) = some (ds, rest) := by
  induction ds with
  | nil => exact absurd rfl hne
  | cons c ds ih =>
    have hc : c.isDigit = true := hd c List.mem_cons_self
    have hds : Digits ds := fun d hmem => hd d (List.mem_cons_of_mem _ hmem)
    have hunderscore : ∀ more, ds ++ rest ≠ '_' :: more := by
      intro more heq
      cases ds with
      | nil => exact (hrest '_' (by simp [show rest = '_' :: more from heq])).2 rfl
      | cons d ds =>
        have hd := hds d List.mem_cons_self
        rw [(List.cons.inj heq).1] at hd
        cases hd
    rw [List.cons_append, readDigits]
    · cases ds with
      | nil =>
        have hnext : (rest.head?.map Char.isDigit).getD false = false := by
          cases h : rest.head? with
          | none => rfl
          | some d => simpa using (hrest d h).1
        simp [hc, hnext]
      | cons d ds =>
        have hd := hds d List.mem_cons_self
        have htail := ih hds (by simp)
        simp [hc, hd] at htail ⊢
        rw [htail]
        rfl
    · exact fun more heq => hunderscore more heq

theorem readWhole_append (hd : WholeDigits ds)
    (hrest : ∀ c ∈ rest.head?, c.isDigit = false ∧ c ≠ '_') :
    readWhole (ds ++ rest) = some (ds, rest) := by
  rcases hd.lead with rfl | hlead
  · rfl
  · obtain ⟨c, cs, rfl⟩ := List.exists_cons_of_ne_nil hd.ne_nil
    have hc : c ≠ '0' := hlead c rfl
    rw [List.cons_append, readWhole, ← List.cons_append, readDigits_append hd.digits hd.ne_nil hrest]
    exact fun more heq => hc (List.cons.inj heq).1

-- What comes after a value in a written document.
def Ended (rest : List Char) : Prop := ∀ c ∈ rest.head?, c ∈ ['\n', ',', ']']

theorem Ended.notDigit (h : Ended rest) : ∀ c ∈ rest.head?, c.isDigit = false ∧ c ≠ '_' := by
  intro c hc
  have hmem := h c hc
  revert hmem
  simp only [List.mem_cons, List.not_mem_nil, or_false]
  rintro (rfl | rfl | rfl) <;> decide

theorem ofDigits_eq (hd : Digits ds) (n : ℕ) :
    ds.foldl (fun n c => n * 10 + (hexValue? c).getD 0) n = Nat.ofDigitChars 10 ds n := by
  induction ds generalizing n with
  | nil => rfl
  | cons c ds ih =>
    have hc : c.isDigit = true := hd c List.mem_cons_self
    have hvalue : (hexValue? c).getD 0 = c.toNat - '0'.toNat := by
      simp only [Char.isDigit, Bool.and_eq_true, decide_eq_true_eq] at hc
      have hrange : ('0' ≤ c && c ≤ '9') = true := by simpa [Char.le_def] using hc
      rw [hexValue?, if_pos hrange]
      rfl
    rw [List.foldl_cons, hvalue, ih fun d hmem => hd d (List.mem_cons_of_mem _ hmem),
      Nat.mul_comm]
    rfl

theorem Ended.cases (h : Ended rest) :
    rest = [] ∨ ∃ more, rest = '\n' :: more ∨ rest = ',' :: more ∨ rest = ']' :: more := by
  cases rest with
  | nil => exact .inl rfl
  | cons c more =>
    have hmem := h c rfl
    simp only [List.mem_cons, List.not_mem_nil, or_false] at hmem
    rcases hmem with rfl | rfl | rfl
    · exact .inr ⟨more, .inl rfl⟩
    · exact .inr ⟨more, .inr (.inl rfl)⟩
    · exact .inr ⟨more, .inr (.inr rfl)⟩

theorem readUnsigned_whole (hd : WholeDigits ds) (hend : Ended rest) (negative : Bool) {n : ℤ}
    (hn : n = if negative then -(Nat.ofDigitChars 10 ds 0 : ℤ) else Nat.ofDigitChars 10 ds 0)
    (hint : isInt n = true) :
    readUnsigned negative (ds ++ rest) = some (.int n, rest) := by
  have hwhole := readWhole_append hd hend.notDigit
  have hvalue : ofDigits 10 ds = Nat.ofDigitChars 10 ds 0 := ofDigits_eq hd.digits 0
  obtain ⟨c, cs, rfl, hc⟩ := hd.head
  unfold readUnsigned
  dsimp only
  split
  next heq =>
    rw [(List.cons.inj heq).1] at hc
    cases hc
  next heq =>
    rw [(List.cons.inj heq).1] at hc
    cases hc
  next =>
    rw [hn] at hint ⊢
    rcases hend.cases with rfl | ⟨more, rfl | rfl | rfl⟩ <;>
      simp only [hwhole, hvalue, hint, if_true] <;> rfl

theorem readUnsigned_point (hd : WholeDigits ds) (he : Digits es) (hne : es ≠ [])
    (hend : Ended rest) (negative : Bool) :
    readUnsigned negative (ds ++ '.' :: (es ++ rest)) =
      doubleOf ((if negative then ['-'] else []) ++ (ds ++ '.' :: es)) rest := by
  have hwhole : readWhole (ds ++ '.' :: (es ++ rest)) = some (ds, '.' :: (es ++ rest)) :=
    readWhole_append hd (by simp)
  have hpart : readFraction ('.' :: (es ++ rest)) = some ('.' :: es, rest) := by
    rw [readFraction, readDigits_append he hne hend.notDigit]
    rfl
  obtain ⟨c, cs, rfl, hc⟩ := hd.head
  unfold readUnsigned
  dsimp only
  split
  next heq =>
    rw [(List.cons.inj heq).1] at hc
    cases hc
  next heq =>
    rw [(List.cons.inj heq).1] at hc
    cases hc
  next =>
    simp only [hwhole, hpart]
    rcases hend.cases with rfl | ⟨more, rfl | rfl | rfl⟩ <;> rfl

theorem takeWhile_digits (hd : Digits ds) (hrest : ∀ c ∈ rest.head?, c.isDigit = false) :
    (ds ++ rest).takeWhile Char.isDigit = ds := by
  rw [List.takeWhile_append_of_pos hd]
  cases rest with
  | nil => simp
  | cons c rest => simp [hrest c rfl]

theorem startsMoment_append (hd : Digits ds)
    (hrest : ∀ c ∈ rest.head?, c.isDigit = false ∧ c ∉ ['x', 'o', 'b', '-', ':']) :
    startsMoment (ds ++ rest) = false := by
  unfold startsMoment
  dsimp only
  rw [takeWhile_digits hd fun c hc => (hrest c hc).1,
    List.getElem?_append_right (Nat.le_refl _), Nat.sub_self, ← List.head?_eq_getElem?]
  split <;> simp_all

-- A number that starts with a digit is no date, no time and has no base.
theorem readNumber_unsigned (hd : WholeDigits ds)
    (hrest : ∀ c ∈ rest.head?, c.isDigit = false ∧ c ∉ ['x', 'o', 'b', '-', ':']) :
    readNumber (ds ++ rest) = readUnsigned false (ds ++ rest) := by
  have hmoment := startsMoment_append hd.digits hrest
  -- a letter after a zero would stand right after all digits
  have hbase {x : Char} (hx : x ∈ ['x', 'o', 'b', '-', ':']) (hletter : x.isDigit = false)
      (more : List Char) : ds ++ rest ≠ '0' :: x :: more := by
    intro heq
    obtain ⟨c, cs, rfl, hc⟩ := hd.head
    cases cs with
    | nil =>
      have hnext : rest = x :: more := (List.cons.inj heq).2
      exact (hrest x (by rw [hnext]; rfl)).2 hx
    | cons d cs =>
      have hdigit := hd.digits d (by simp)
      rw [(List.cons.inj (List.cons.inj heq).2).1, hletter] at hdigit
      cases hdigit
  have hsign {x : Char} (hx : x.isDigit = false) (more : List Char) : ds ++ rest ≠ x :: more := by
    intro heq
    obtain ⟨c, cs, rfl, hc⟩ := hd.head
    rw [(List.cons.inj heq).1, hx] at hc
    cases hc
  unfold readNumber
  split
  next heq => exact absurd heq (hbase (by decide) rfl _)
  next heq => exact absurd heq (hbase (by decide) rfl _)
  next heq => exact absurd heq (hbase (by decide) rfl _)
  next heq => exact absurd heq (hsign rfl _)
  next heq => exact absurd heq (hsign rfl _)
  next => simp [hmoment]

-- So does a number with a sign before it.
theorem readNumber_signed (negative : Bool) (hd : WholeDigits ds)
    (hrest : ∀ c ∈ rest.head?, c.isDigit = false ∧ c ∉ ['x', 'o', 'b', '-', ':']) :
    readNumber ((if negative then ['-'] else []) ++ (ds ++ rest)) =
      readUnsigned negative (ds ++ rest) := by
  cases negative with
  | true => rfl
  | false =>
    rw [if_neg Bool.false_ne_true, List.nil_append, readNumber_unsigned hd hrest]

theorem head_signed (negative : Bool) (hd : WholeDigits ds) (rest : List Char) :
    ∃ c more, (if negative then ['-'] else []) ++ (ds ++ rest) = c :: more ∧
      (c.isDigit = true ∨ c = '-') := by
  cases negative with
  | true => exact ⟨'-', _, rfl, .inr rfl⟩
  | false =>
    obtain ⟨c, cs, rfl, hc⟩ := hd.head
    exact ⟨c, _, rfl, .inl hc⟩

theorem Ended.notMoment (h : Ended rest) :
    ∀ c ∈ rest.head?, c.isDigit = false ∧ c ∉ ['x', 'o', 'b', '-', ':'] := by
  rcases h.cases with rfl | ⟨more, rfl | rfl | rfl⟩ <;> simp

end Digits

theorem toList_int (n : ℤ) : (toString n).toList =
    (if decide (n < 0) then ['-'] else []) ++ Nat.toDigits 10 n.natAbs := by
  cases n with
  | ofNat n => exact Nat.toList_repr
  | negSucc n =>
    have hrepr : toString (Int.negSucc n) = "-" ++ Nat.repr (n + 1) := rfl
    have hnegative : decide (Int.negSucc n < 0) = true := decide_eq_true (Int.negSucc_lt_zero n)
    rw [hrepr, String.toList_append, Nat.toList_repr, hnegative]
    simp

theorem readNumber_int (n : ℤ) (hint : isInt n = true) {rest : List Char} (hend : Ended rest) :
    readNumber ((toString n).toList ++ rest) = some (.int n, rest) := by
  have hdigits := wholeDigits_toDigits n.natAbs
  have hvalue : n = if decide (n < 0) then
      -(Nat.ofDigitChars 10 (Nat.toDigits 10 n.natAbs) 0 : ℤ)
      else Nat.ofDigitChars 10 (Nat.toDigits 10 n.natAbs) 0 := by
    rw [Nat.ofDigitChars_ten_toDigits]
    simp only [decide_eq_true_eq]
    omega
  rw [toList_int, List.append_assoc, readNumber_signed _ hdigits hend.notMoment]
  exact readUnsigned_whole hdigits hend _ hvalue hint

-- A double that its text reads back to is read back from a document.
theorem readNumber_double {x : Float} (hx : x.isFinite = true)
    (hread : readDouble (Layout.pointed.write x).toList = some x) {rest : List Char}
    (hend : Ended rest) :
    readNumber ((Layout.pointed.write x).toList ++ rest) = some (.double x, rest) := by
  have hdouble : doubleOf (Layout.pointed.write x).toList rest = some (.double x, rest) := by
    rw [doubleOf, hread]
    simp [(not_isNaN_of_isFinite hx).2]
  rw [Layout.toList_write _ hx] at hdouble ⊢
  obtain ⟨ds, es, htext, hds, hes, hne⟩ := Layout.isPointed_finite (sizeBits_lt x)
  rw [htext] at hdouble ⊢
  rw [List.append_assoc, List.append_assoc, List.cons_append,
    readNumber_signed _ hds (by simp), readUnsigned_point hds hes hne hend]
  exact hdouble

end Likeness.Toml
