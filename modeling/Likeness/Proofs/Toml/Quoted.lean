import Likeness.Toml.Quoted
import Mathlib.Tactic.SplitIfs

namespace Likeness.Toml

section Characters

variable {c : Char}

theorem isPrintable_of_not_isControl (h : isControl c = false) (hn : c ≠ '\n') :
    isPrintable c = true := by
  by_cases ht : c = '\t'
  · simp [isPrintable, ht]
  · simp [isControl, ht, hn] at h
    simp [isPrintable]
    omega

theorem hexValue?_hexDigit {n : Nat} (hn : n < 16) : hexValue? (hexDigit n) = some n := by
  revert n
  decide

-- A character that is written by its number is below 128.
theorem charOfHex?_control (h : isControl c = true) :
    charOfHex? ['0', '0', hexDigit (c.toNat / 16), hexDigit (c.toNat % 16)] = some c := by
  have hc : c.toNat < 128 := by
    simp [isControl] at h
    omega
  have hhigh := hexValue?_hexDigit (n := c.toNat / 16) (by omega)
  have hlow := hexValue?_hexDigit (n := c.toNat % 16) (by omega)
  have hzero : hexValue? '0' = some 0 := rfl
  have hnumber : c.toNat / 16 * 16 + c.toNat % 16 = c.toNat := by omega
  simp only [charOfHex?, List.foldl_cons, List.foldl_nil, hzero, hhigh, hlow, Nat.zero_mul,
    Nat.zero_add, hnumber]
  rw [if_neg (by simp; omega), Char.ofNat_toNat]

-- How a character other than a double quote is written between double quotes.
inductive Escaped (long : Bool) (c : Char) : List Char → Prop where
  | simple {x : Char} (h : simpleEscape? x = some c) : Escaped long c ['\\', x]
  | number {a b d e : Char} (h : charOfHex? [a, b, d, e] = some c) :
      Escaped long c ['\\', 'u', a, b, d, e]
  | lineBreak (hlong : long = true) (hc : c = '\n') : Escaped long c [c]
  | plain (hp : isPrintable c = true) (hs : c ≠ '\\') : Escaped long c [c]

theorem escaped_escapeChar (long : Bool) (c : Char) : Escaped long c (escapeChar long c) := by
  have hnumber {n : Nat} {d : Char} (h : c.toNat = n) (hd : Char.ofNat n = d) : d = c := by
    rw [← hd, ← h, Char.ofNat_toNat]
  unfold escapeChar
  split
  next h => exact .simple (congrArg some (hnumber h rfl))
  split
  next h => exact .simple (congrArg some h.symm)
  split
  next h =>
    cases long
    · exact .simple (congrArg some h.symm)
    · exact h ▸ .lineBreak rfl h
  split
  next h => exact .simple (congrArg some (hnumber h rfl))
  split
  next h => exact .simple (congrArg some h.symm)
  split
  next h => exact .simple (congrArg some h.symm)
  split
  next h => exact .number (charOfHex?_control h)
  next hn _ _ hs hc =>
    exact .plain (isPrintable_of_not_isControl (by simpa using hc) hn) hs

end Characters

section Basic

variable {c : Char}

theorem readBasic_plain (hp : isPrintable c = true) (hq : c ≠ '"') (hs : c ≠ '\\')
    (rest : List Char) : readBasic (c :: rest) = prepend (some c) (readBasic rest) := by
  rw [readBasic.eq_def]
  split <;> simp_all

theorem readBasic_simple {x : Char} (h : simpleEscape? x = some c) (rest : List Char) :
    readBasic ('\\' :: x :: rest) = prepend (some c) (readBasic rest) := by
  unfold simpleEscape? at h
  split at h <;> first | (cases h; rfl) | cases h

theorem readBasic_escaped {form : List Char} (h : Escaped false c form) (hq : c ≠ '"')
    (rest : List Char) : readBasic (form ++ rest) = prepend (some c) (readBasic rest) := by
  cases h with
  | simple h => exact readBasic_simple h rest
  | @number a b d e h =>
    have hread : readBasic ('\\' :: 'u' :: a :: b :: d :: e :: rest) =
      prepend (charOfHex? [a, b, d, e]) (readBasic rest) := rfl
    exact h ▸ hread
  | lineBreak hlong => cases hlong
  | plain hp hs => exact readBasic_plain hp hq hs rest

theorem readBasic_escape (cs rest : List Char) :
    readBasic (escape false 0 cs ++ '"' :: rest) = some (cs, rest) := by
  induction cs with
  | nil => rfl
  | cons c cs ih =>
    by_cases hq : c = '"'
    · subst hq
      have hread := readBasic_simple (c := '"') (x := '"') rfl (escape false 0 cs ++ '"' :: rest)
      rw [ih] at hread
      exact hread
    · rw [escape, if_neg hq, List.append_assoc,
        readBasic_escaped (escaped_escapeChar false c) hq, ih]
      rfl

end Basic

section Literal

theorem readLiteral_append (cs rest : List Char)
    (h : ∀ c ∈ cs, isPrintable c = true ∧ c ≠ '\x27') :
    readLiteral (cs ++ '\x27' :: rest) = some (cs, rest) := by
  induction cs with
  | nil => rfl
  | cons c cs ih =>
    obtain ⟨hp, hq⟩ := h c List.mem_cons_self
    rw [List.cons_append, readLiteral, if_neg hq, if_pos hp,
      ih fun d hd => h d (List.mem_cons_of_mem _ hd)]
    rfl

end Literal

-- What comes after a quoted text does not start with a quote.
def Closed (rest : List Char) : Prop := ∀ c ∈ rest.head?, c ≠ '"' ∧ c ≠ '\x27'

def closing (quote : Char) (rest : List Char) : List Char := quote :: quote :: quote :: rest

section LongBasic

variable {c : Char} {rest : List Char}

theorem readLongBasic_plain (hp : isPrintable c = true) (hq : c ≠ '"') (hs : c ≠ '\\')
    (rest : List Char) :
    readLongBasic .text (c :: rest) = prepend (some c) (readLongBasic .text rest) := by
  have hn : c ≠ '\n' := by
    rintro rfl
    cases hp
  have hr : c ≠ '\r' := by
    rintro rfl
    cases hp
  rw [readLongBasic.eq_def]
  dsimp only
  split <;> simp_all

theorem readLongBasic_simple {x : Char} (h : simpleEscape? x = some c) (rest : List Char) :
    readLongBasic .text ('\\' :: x :: rest) = prepend (some c) (readLongBasic .text rest) := by
  unfold simpleEscape? at h
  split at h <;> first | (cases h; rfl) | cases h

theorem readLongBasic_escaped {form : List Char} (h : Escaped true c form) (hq : c ≠ '"')
    (rest : List Char) :
    readLongBasic .text (form ++ rest) = prepend (some c) (readLongBasic .text rest) := by
  cases h with
  | simple h => exact readLongBasic_simple h rest
  | @number a b d e h =>
    have hread : readLongBasic .text ('\\' :: 'u' :: a :: b :: d :: e :: rest) =
      prepend (charOfHex? [a, b, d, e]) (readLongBasic .text rest) := rfl
    exact h ▸ hread
  | lineBreak _ hc =>
    subst hc
    rfl
  | plain hp hs => exact readLongBasic_plain hp hq hs rest

theorem readLongBasic_quote (h : ∀ more, rest ≠ '"' :: '"' :: more) :
    readLongBasic .text ('"' :: rest) = prepend (some '"') (readLongBasic .text rest) := by
  have hplain : isPrintable '"' = true := rfl
  rw [readLongBasic.eq_def]
  dsimp only
  split <;> simp_all

-- Up to two quotes of the text itself may stand right before those that close it.
theorem readLongBasic_close (h : Closed rest) (n : Nat) (hn : n ≤ 2) :
    readLongBasic .text (List.replicate n '"' ++ closing '"' rest) =
      some (List.replicate n '"', rest) := by
  match n, hn with
  | 2, _ => rfl
  | 0, _ | 1, _ =>
    cases rest with
    | nil => rfl
    | cons d rest =>
      have hd : d ≠ '"' := (h d (by simp)).1
      rw [readLongBasic.eq_def]
      simp only [closing, List.replicate, List.cons_append, List.nil_append]
      split <;> simp_all
      all_goals next hno heq => exact hno _ heq.symm

theorem escape_head {long : Bool} {run : Nat} (h : ¬(long = true ∧ run < 2) ∨ c ≠ '"')
    (cs : List Char) : ∃ d more, escape long run (c :: cs) = d :: more ∧ d ≠ '"' := by
  by_cases hq : c = '"'
  · have hrun := h.resolve_right (not_not_intro hq)
    exact ⟨'\\', '"' :: escape long 0 cs, by simpa [escape, hq] using hrun, by decide⟩
  · rw [escape, if_neg hq]
    have hform := escaped_escapeChar long c
    generalize escapeChar long c = form at hform
    cases hform with
    | simple | number => exact ⟨'\\', _, rfl, by decide⟩
    | lineBreak | plain => exact ⟨c, _, rfl, hq⟩

theorem escape_quote {run : Nat} (hrun : run < 2) (cs : List Char) :
    escape true run ('"' :: cs) = '"' :: escape true (run + 1) cs := by
  simp [escape, hrun]

-- A quote that is not escaped stands before another one only at the end of a text or before a
-- third one that is escaped.
theorem readLongBasic_escape_quote {run : Nat} {cs : List Char} (h : Closed rest)
    (ih : ∀ run, readLongBasic .text (escape true run cs ++ closing '"' rest) = some (cs, rest)) :
    readLongBasic .text ('"' :: (escape true (run + 1) cs ++ closing '"' rest)) =
      some ('"' :: cs, rest) := by
  have hread (hno : ∀ more, escape true (run + 1) cs ++ closing '"' rest ≠ '"' :: '"' :: more) :
      readLongBasic .text ('"' :: (escape true (run + 1) cs ++ closing '"' rest)) =
        some ('"' :: cs, rest) := by
    rw [readLongBasic_quote hno, ih]
    rfl
  match cs with
  | [] => exact readLongBasic_close h 1 (by decide)
  | d :: cs =>
    by_cases hd : ¬(true = true ∧ run + 1 < 2) ∨ d ≠ '"'
    · obtain ⟨first, more, hform, hfirst⟩ := escape_head hd cs
      refine hread fun others heq => ?_
      rw [hform] at heq
      exact hfirst (List.cons.inj heq).1
    obtain ⟨hrun, hq⟩ := not_or.mp hd
    obtain rfl : d = '"' := Decidable.not_not.mp hq
    obtain rfl : run = 0 := by omega
    have hform := escape_quote Nat.one_lt_two cs
    match cs with
    | [] => exact readLongBasic_close h 2 (by decide)
    | next :: cs =>
      have htwo : ¬(true = true ∧ 2 < 2) := by simp
      obtain ⟨second, more, hsecond, hne⟩ := escape_head (c := next) (.inl htwo) cs
      refine hread fun others heq => ?_
      rw [hform, hsecond] at heq
      exact hne (List.cons.inj (List.cons.inj heq).2).1

theorem readLongBasic_escape (h : Closed rest) (cs : List Char) (run : Nat) :
    readLongBasic .text (escape true run cs ++ closing '"' rest) = some (cs, rest) := by
  induction cs generalizing run with
  | nil => exact readLongBasic_close h 0 (by decide)
  | cons c cs ih =>
    by_cases hq : c = '"'
    · subst hq
      by_cases hrun : run < 2
      · rw [escape_quote hrun]
        exact readLongBasic_escape_quote h ih
      · have hform : escape true run ('"' :: cs) = '\\' :: '"' :: escape true 0 cs := by
          simp [escape, hrun]
        have hread := readLongBasic_simple (c := '"') (x := '"') rfl
          (escape true 0 cs ++ closing '"' rest)
        rw [ih] at hread
        rw [hform]
        exact hread
    · rw [escape, if_neg hq, List.append_assoc,
        readLongBasic_escaped (escaped_escapeChar true c) hq, ih]
      rfl

end LongBasic

section LongLiteral

variable {c : Char} {rest : List Char}

theorem le_longestRun (x : Char) (run : Nat) (cs : List Char) : run ≤ longestRun x run cs := by
  induction cs generalizing run with
  | nil => exact Nat.le_refl run
  | cons c cs ih =>
    unfold longestRun
    split
    · exact Nat.le_trans (Nat.le_succ run) (ih (run + 1))
    · exact Nat.le_max_left _ _

theorem readLongLiteral_plain (hp : isPrintable c = true ∨ c = '\n') (hq : c ≠ '\x27')
    (rest : List Char) :
    readLongLiteral (c :: rest) = prepend (some c) (readLongLiteral rest) := by
  have hr : c ≠ '\r' := by
    rintro rfl
    revert hp
    decide
  have hread : (isPrintable c || decide (c = '\n')) = true := by simpa using hp
  rw [readLongLiteral, if_pos hread]
  · exact fun _ h => absurd h hq
  · exact fun _ h => absurd h hq
  · exact fun _ h => absurd h hq
  · exact fun _ h => absurd h hr

theorem readLongLiteral_quote (h : ∀ more, rest ≠ '\x27' :: '\x27' :: more) :
    readLongLiteral ('\x27' :: rest) = prepend (some '\x27') (readLongLiteral rest) := by
  rw [readLongLiteral, if_pos (by decide)]
  · exact fun _ _ heq => h _ heq
  · exact fun _ _ heq => h _ heq
  · exact fun _ _ heq => h _ heq
  · exact fun _ heq => absurd heq (by decide)

theorem readLongLiteral_close (h : Closed rest) (n : Nat) (hn : n ≤ 2) :
    readLongLiteral (List.replicate n '\x27' ++ closing '\x27' rest) =
      some (List.replicate n '\x27', rest) := by
  have hne (more : List Char) : rest ≠ '\x27' :: more := fun heq =>
    (h '\x27' (by simp [heq])).2 rfl
  match n, hn with
  | 2, _ => rfl
  | 0, _ | 1, _ =>
    simp only [closing, List.replicate, List.cons_append, List.nil_append]
    rw [readLongLiteral] <;> exact fun _ heq => hne _ heq

-- No three quotes stand in a row before those that close a text.
theorem readLongLiteral_append (h : Closed rest) (cs : List Char) (run : Nat)
    (hp : ∀ c ∈ cs, isPrintable c = true ∨ c = '\n') (hrun : longestRun '\x27' run cs ≤ 2) :
    readLongLiteral (cs ++ closing '\x27' rest) = some (cs, rest) := by
  induction cs generalizing run with
  | nil => exact readLongLiteral_close h 0 (by decide)
  | cons c cs ih =>
    have hcs : ∀ d ∈ cs, isPrintable d = true ∨ d = '\n' :=
      fun d hd => hp d (List.mem_cons_of_mem _ hd)
    by_cases hq : c = '\x27'
    · subst hq
      have htail : longestRun '\x27' (run + 1) cs ≤ 2 := by simpa [longestRun] using hrun
      have hread (hno : ∀ more, cs ++ closing '\x27' rest ≠ '\x27' :: '\x27' :: more) :
          readLongLiteral ('\x27' :: cs ++ closing '\x27' rest) = some ('\x27' :: cs, rest) := by
        rw [List.cons_append, readLongLiteral_quote hno, ih (run + 1) hcs htail]
        rfl
      match cs with
      | [] => exact readLongLiteral_close h 1 (by decide)
      | [d] =>
        by_cases hd : d = '\x27'
        · subst hd
          exact readLongLiteral_close h 2 (by decide)
        · exact hread fun more heq => hd (List.cons.inj heq).1
      | d :: next :: cs =>
        refine hread fun more heq => ?_
        obtain rfl : d = '\x27' := (List.cons.inj heq).1
        obtain rfl : next = '\x27' := (List.cons.inj (List.cons.inj heq).2).1
        have hthree := le_longestRun '\x27' (run + 1 + 1 + 1) cs
        simp only [longestRun, if_true] at htail
        omega
    · have htail : longestRun '\x27' 0 cs ≤ 2 := by
        rw [longestRun, if_neg hq] at hrun
        exact Nat.le_trans (Nat.le_max_right _ _) hrun
      rw [List.cons_append, readLongLiteral_plain (hp c List.mem_cons_self) hq, ih 0 hcs htail]
      rfl

end LongLiteral

section Styles

variable {cs rest : List Char}

theorem longestRun_pos {x : Char} (h : x ∈ cs) (run : Nat) : 0 < longestRun x run cs := by
  induction cs generalizing run with
  | nil => cases h
  | cons c cs ih =>
    unfold longestRun
    split
    · have hrun := le_longestRun x (run + 1) cs
      omega
    · have hmem : x ∈ cs := (List.mem_cons.mp h).resolve_left (Ne.symm ‹_›)
      exact Nat.lt_of_lt_of_le (ih hmem 0) (Nat.le_max_right _ _)

theorem style_literal (h : (quotingOf cs).style = .literal) :
    ∀ c ∈ cs, isPrintable c = true ∧ c ≠ '\x27' := by
  have hquoting : cs.any isControl = false ∧ longestRun '\x27' 0 cs = 0 ∧
      cs.any (· = '\n') = false := by
    unfold Quoting.style at h
    split_ifs at h with hbasic hliteral
    simp only [Bool.and_eq_true, Bool.not_eq_true', decide_eq_true_eq] at hliteral
    exact ⟨hliteral.1.1, hliteral.1.2, hliteral.2⟩
  obtain ⟨hcontrol, hsingles, hbreak⟩ := hquoting
  intro c hc
  have hn : c ≠ '\n' := by
    simpa using List.any_eq_false.mp hbreak c hc
  refine ⟨isPrintable_of_not_isControl (by simpa using List.any_eq_false.mp hcontrol c hc) hn, ?_⟩
  rintro rfl
  have hpos := longestRun_pos hc 0
  omega

theorem style_longLiteral (h : (quotingOf cs).style = .longLiteral) :
    (∀ c ∈ cs, isPrintable c = true ∨ c = '\n') ∧ longestRun '\x27' 0 cs ≤ 2 := by
  have hquoting : cs.any isControl = false ∧ longestRun '\x27' 0 cs ≤ 2 := by
    unfold Quoting.style at h
    split_ifs at h with hbasic hliteral hlong hquotes
    simp only [Bool.and_eq_true, Bool.not_eq_true', decide_eq_true_eq] at hquotes
    exact hquotes
  refine ⟨fun c hc => ?_, hquoting.2⟩
  by_cases hn : c = '\n'
  · exact .inr hn
  · have hcontrol : isControl c = false := by simpa using List.any_eq_false.mp hquoting.1 c hc
    exact .inl (isPrintable_of_not_isControl hcontrol hn)

theorem dropBreak_of_ne {c : Char} (hn : c ≠ '\n') (hr : c ≠ '\r') (rest : List Char) :
    dropBreak (c :: rest) = c :: rest := by
  unfold dropBreak
  split <;> simp_all

theorem dropBreak_closing {quote : Char} (h : quote = '"' ∨ quote = '\x27') (rest : List Char) :
    dropBreak (closing quote rest) = closing quote rest := by
  rcases h with rfl | rfl <;> rfl

theorem dropBreak_escape (hn : '\n' ∉ cs) :
    dropBreak (escape true 0 cs ++ closing '"' rest) = escape true 0 cs ++ closing '"' rest := by
  cases cs with
  | nil => exact dropBreak_closing (.inl rfl) rest
  | cons c cs =>
    by_cases hq : c = '"'
    · subst hq
      rfl
    · have hc : c ≠ '\n' := fun heq => hn (heq ▸ List.mem_cons_self)
      rw [escape, if_neg hq, List.append_assoc]
      have hform := escaped_escapeChar true c
      generalize escapeChar true c = form at hform
      cases hform with
      | simple | number => rfl
      | lineBreak _ hbreak => exact absurd hbreak hc
      | plain hp =>
        refine dropBreak_of_ne hc ?_ _
        rintro rfl
        cases hp

theorem dropBreak_literal (hp : ∀ c ∈ cs, isPrintable c = true ∨ c = '\n') (hn : '\n' ∉ cs) :
    dropBreak (cs ++ closing '\x27' rest) = cs ++ closing '\x27' rest := by
  cases cs with
  | nil => exact dropBreak_closing (.inr rfl) rest
  | cons c cs =>
    have hc : c ≠ '\n' := fun heq => hn (heq ▸ List.mem_cons_self)
    refine dropBreak_of_ne hc ?_ _
    rintro rfl
    exact absurd ((hp '\r' List.mem_cons_self).resolve_right hc) (by decide)

-- The break put before a long text that has one is left out again.
theorem dropBreak_opening {body : List Char} (hbody : '\n' ∉ cs → dropBreak body = body) :
    dropBreak ((if cs.any (· = '\n') then ['\n'] else []) ++ body) = body := by
  by_cases hn : '\n' ∈ cs
  · rw [if_pos (by simpa using hn)]
    rfl
  · rw [if_neg (by simpa using hn)]
    exact hbody hn

theorem readQuoted_basic {body : List Char} (h : ∀ more, body ≠ '"' :: '"' :: more) :
    readQuoted ('"' :: body) = (readBasic body).map fun (cs, rest) => (String.ofList cs, rest) := by
  unfold readQuoted
  split <;> simp_all

theorem readQuoted_literal {body : List Char} (h : ∀ more, body ≠ '\x27' :: '\x27' :: more) :
    readQuoted ('\x27' :: body) =
      (readLiteral body).map fun (cs, rest) => (String.ofList cs, rest) := by
  unfold readQuoted
  split <;> simp_all

theorem escape_ne_quotes (h : Closed rest) (more : List Char) :
    escape false 0 cs ++ '"' :: rest ≠ '"' :: '"' :: more := by
  intro heq
  cases cs with
  | nil =>
    have hrest : rest = '"' :: more := (List.cons.inj heq).2
    exact (h '"' (by simp [hrest])).1 rfl
  | cons c cs =>
    have hshort : ¬(false = true ∧ 0 < 2) ∨ c ≠ '"' := by simp
    obtain ⟨d, others, hform, hd⟩ := escape_head hshort cs
    rw [hform] at heq
    exact hd (List.cons.inj heq).1

theorem literal_ne_quotes (h : Closed rest) (hcs : ∀ c ∈ cs, c ≠ '\x27') (more : List Char) :
    cs ++ '\x27' :: rest ≠ '\x27' :: '\x27' :: more := by
  intro heq
  cases cs with
  | nil =>
    have hrest : rest = '\x27' :: more := (List.cons.inj heq).2
    exact (h '\x27' (by simp [hrest])).2 rfl
  | cons c cs => exact hcs c List.mem_cons_self (List.cons.inj heq).1

end Styles

-- A text that is quoted reads back, whichever way it is quoted.
theorem readQuoted_quoteChars (cs : List Char) {rest : List Char} (h : Closed rest) :
    readQuoted (quoteChars cs ++ rest) = some (String.ofList cs, rest) := by
  unfold quoteChars
  dsimp only
  cases hstyle : (quotingOf cs).style with
  | basic =>
    have hquotes : ∀ more, escape false 0 cs ++ '"' :: rest ≠ '"' :: '"' :: more :=
      escape_ne_quotes h
    have hread := readQuoted_basic hquotes
    rw [readBasic_escape] at hread
    simpa using hread
  | literal =>
    have hcs := style_literal hstyle
    have hread := readQuoted_literal (literal_ne_quotes h fun c hc => (hcs c hc).2)
    rw [readLiteral_append cs rest hcs] at hread
    simpa using hread
  | longBasic =>
    have hread : readQuoted (closing '"' ((if cs.any (· = '\n') then ['\n'] else []) ++
        (escape true 0 cs ++ closing '"' rest))) = some (String.ofList cs, rest) := by
      rw [closing, readQuoted, dropBreak_opening dropBreak_escape, readLongBasic_escape h]
      rfl
    simpa [closing] using hread
  | longLiteral =>
    obtain ⟨hp, hsingles⟩ := style_longLiteral hstyle
    have hread : readQuoted (closing '\x27' ((if cs.any (· = '\n') then ['\n'] else []) ++
        (cs ++ closing '\x27' rest))) = some (String.ofList cs, rest) := by
      rw [closing, readQuoted, dropBreak_opening (dropBreak_literal hp),
        readLongLiteral_append h cs 0 hp hsingles]
      rfl
    simpa [closing] using hread

end Likeness.Toml
