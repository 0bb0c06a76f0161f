import Likeness.Syntax.Grammar.Markup

namespace Likeness.Syntax

-- The characters that a name can have. What separates names from what is put beside them is none.
def isPlain (c : Char) : Bool := c ≠ '#' && c ≠ '\x00'

-- Whether all characters from one place up to another one can be in a name.
def PlainFrom (chars : Array Char) (start stop : Nat) : Prop :=
  ∀ i c, start ≤ i → i < stop → chars[i]? = some c → isPlain c = true

theorem plainFrom_self (chars : Array Char) (i : Nat) : PlainFrom chars i i := by
  intro j c hij hji
  omega

theorem PlainFrom.append {chars : Array Char} {i j k : Nat} (hij : PlainFrom chars i j)
    (hjk : PlainFrom chars j k) : PlainFrom chars i k := by
  intro l c hil hlk hc
  by_cases hlj : l < j
  · exact hij l c hil hlj hc
  · exact hjk l c (by omega) hlk hc

theorem plainFrom_succ {chars : Array Char} {i : Nat} {c : Char} (hc : chars[i]? = some c)
    (h : isPlain c = true) : PlainFrom chars i (i + 1) := by
  intro j d hij hji hd
  obtain rfl : j = i := by omega
  rw [hc, Option.some.injEq] at hd
  rwa [← hd]

theorem plainFrom_skipWhile (chars : Array Char) (test : Char → Bool) (i : Nat)
    (htest : ∀ c, test c = true → isPlain c = true) :
    PlainFrom chars i (skipWhile chars test i) := by
  induction i using skipWhile.induct chars test with
  | case1 i hi hc ih =>
    rw [skipWhile, dif_pos hi, if_pos hc]
    exact (plainFrom_succ (Array.getElem?_eq_getElem hi) (htest _ hc)).append ih
  | case2 i hi hc =>
    rw [skipWhile, dif_pos hi, if_neg hc]
    exact plainFrom_self chars i
  | case3 i hi =>
    rw [skipWhile, dif_neg hi]
    exact plainFrom_self chars i

theorem isPlain_of_isWordChar (c : Char) (h : isWordChar c = true) : isPlain c = true := by
  rw [isPlain, Bool.and_eq_true, decide_eq_true_iff, decide_eq_true_iff]
  constructor <;> rintro rfl <;> exact absurd h (by decide)

theorem isPlain_of_isHexDigit (c : Char) (h : isHexDigit c = true) : isPlain c = true := by
  rw [isPlain, Bool.and_eq_true, decide_eq_true_iff, decide_eq_true_iff]
  constructor <;> rintro rfl <;> exact absurd h (by decide)

namespace Reading

theorem getElem?_of_standsAt {chars : Array Char} {c d : Char} {i : Nat}
    (h : standsAt chars [c, d] i = true) : chars[i]? = some c ∧ chars[i + 1]? = some d := by
  simpa [standsAt] using h

-- A word has characters of words and escapes in it, which are all plain.
theorem plainFrom_wordEnd (chars : Array Char) (i fuel : Nat) :
    PlainFrom chars i (wordEnd chars i fuel) := by
  induction fuel generalizing i with
  | zero => exact plainFrom_self chars i
  | succ fuel ih =>
    have hword := plainFrom_skipWhile chars isWordChar i isPlain_of_isWordChar
    rw [wordEnd]
    generalize skipWhile chars isWordChar i = j at hword
    refine hword.append ?_
    split
    · next hescape =>
      obtain ⟨hback, hletter⟩ := getElem?_of_standsAt hescape
      have hsign : PlainFrom chars j (j + 2) :=
        (plainFrom_succ hback (by decide)).append (plainFrom_succ hletter (by decide))
      split
      · next hopen =>
        have hdigits := plainFrom_skipWhile chars isHexDigit (j + 3) isPlain_of_isHexDigit
        generalize skipWhile chars isHexDigit (j + 3) = stop at hdigits
        dsimp only
        split
        · next hclose =>
          rw [Bool.and_eq_true, decide_eq_true_iff, decide_eq_true_iff] at hclose
          exact ((hsign.append (plainFrom_succ hopen (by decide))).append hdigits).append
            ((plainFrom_succ hclose.2 (by decide)).append (ih (stop + 1)))
        · exact plainFrom_self chars j
      · split
        · next hdigits =>
          have hfour : PlainFrom chars (j + 2) (j + 6) := by
            intro k c hjk hkj hc
            have hk := List.all_eq_true.mp hdigits (k - (j + 2)) (List.mem_range.mpr (by omega))
            rw [Nat.add_sub_cancel' hjk, hc] at hk
            exact isPlain_of_isHexDigit c (by simpa using hk)
          exact (hsign.append hfour).append (ih (j + 6))
        · exact plainFrom_self chars j
    · exact plainFrom_self chars j

theorem plainFrom_of_wordAt? {chars : Array Char} {i stop : Nat}
    (h : wordAt? chars i = some stop) : PlainFrom chars i stop := by
  unfold wordAt? at h
  split at h
  · cases h
  · split at h
    · dsimp only at h
      split at h
      · cases h
        exact plainFrom_wordEnd chars i _
      · cases h
    · cases h

theorem plainFrom_hyphenEnd (chars : Array Char) (i : Nat) :
    PlainFrom chars i (Grammar.hyphenEnd chars i) := by
  refine plainFrom_skipWhile chars _ i fun c hc => ?_
  rw [Bool.or_eq_true, decide_eq_true_iff] at hc
  rcases hc with hc | rfl
  · exact isPlain_of_isWordChar c hc
  · decide

-- Whether the text of a span can be a name.
def PlainSpan (chars : Array Char) (span : Span) : Prop := PlainFrom chars span.start span.stop

theorem isPlain_of_mem_textOf {chars : Array Char} {span : Span} (h : PlainSpan chars span) :
    ∀ c ∈ (textOf chars span).toList, isPlain c = true := by
  intro c hc
  simp only [textOf, String.toList_ofList, Array.mem_toList_iff, Array.mem_extract_iff_getElem]
    at hc
  obtain ⟨k, hk, rfl⟩ := hc
  refine h (span.start + k) _ (by omega) (by omega) (Array.getElem?_eq_getElem _)

end Reading

end Likeness.Syntax
