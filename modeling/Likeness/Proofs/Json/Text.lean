import Likeness.Json.Reader
import Likeness.Proofs.Json.Value
import Likeness.Similarity.Options
import Mathlib.Tactic.FinCases

namespace Likeness.Json

open Likeness.Similarity (Kind)

section Strings

theorem hexValue?_hexDigit {n : ℕ} (hn : n < 16) : hexValue? (hexDigit n) = some n := by
  revert n
  decide

-- Of the characters below the blank, those without a letter of their own are written by number.
theorem readEscape_control {c : Char} (hc : c.toNat < 32) (rest : List Char) :
    readEscape ('u' :: '0' :: '0' :: hexDigit (c.toNat / 16) :: hexDigit (c.toNat % 16) :: rest) =
      .ok (c, rest) := by
  have hhigh := hexValue?_hexDigit (n := c.toNat / 16) (by omega)
  have hlow := hexValue?_hexDigit (n := c.toNat % 16) (by omega)
  have hzero : hexValue? '0' = some 0 := rfl
  have hnumber : ((0 * 16 + 0) * 16 + c.toNat / 16) * 16 + c.toNat % 16 = c.toNat := by omega
  have hhex : readHex ('0' :: '0' :: hexDigit (c.toNat / 16) :: hexDigit (c.toNat % 16) :: rest) =
      .ok (c.toNat, rest) := by
    rw [readHex, hzero, hhigh, hlow]
    dsimp only
    rw [hnumber]
  have hescape (cs : List Char) : readEscape ('u' :: cs) = readUnicode cs := rfl
  have hlower : ¬(0xDC00 ≤ c.toNat) := by omega
  have hbasic : c.toNat < 0xD800 := by omega
  have hdone : readUnicode ('0' :: '0' :: hexDigit (c.toNat / 16) :: hexDigit (c.toNat % 16) ::
      rest) = .ok (Char.ofNat c.toNat, rest) := by
    rw [readUnicode, hhex]
    simp only [bind, Except.bind]
    rw [if_neg (by simp [hlower]), if_pos (by simp [hbasic])]
    rfl
  rw [hescape, hdone, Char.ofNat_toNat]

-- The reader takes a character from its escaped form, whatever comes next.
theorem readString_escapeChar (c : Char) (read : List Char) (fuel : ℕ) (rest : List Char) :
    readString read (fuel + 1) (escapeChar c ++ rest) = readString (c :: read) fuel rest := by
  have hescaped {form : List Char} (h : readEscape (form ++ rest) = .ok (c, rest)) :
      readString read (fuel + 1) ('\\' :: form ++ rest) = readString (c :: read) fuel rest := by
    rw [List.cons_append, readString, h]
    rfl
  have hnumber {n : ℕ} (h : c.toNat = n) : Char.ofNat n = c := by rw [← h, Char.ofNat_toNat]
  unfold escapeChar
  split
  · rename_i hc
    subst hc
    exact hescaped rfl
  split
  · rename_i hc
    subst hc
    exact hescaped rfl
  split
  · rename_i hc
    subst hc
    exact hescaped rfl
  split
  · rename_i hc
    subst hc
    exact hescaped rfl
  split
  · rename_i hc
    subst hc
    exact hescaped rfl
  split
  · rename_i hc
    exact hescaped (hnumber hc ▸ rfl)
  split
  · rename_i hc
    exact hescaped (hnumber hc ▸ rfl)
  split
  · rename_i hc
    exact hescaped (readEscape_control hc rest)
  · rename_i hquote hslash _ _ _ _ _ hc
    rw [List.singleton_append, readString, if_neg hc]
    · exact hquote
    · exact hslash

-- The reader takes a quoted text back.
theorem readString_flatMap_escapeChar (cs read : List Char) {fuel : ℕ} (hfuel : cs.length < fuel)
    (rest : List Char) : readString read fuel (cs.flatMap escapeChar ++ '"' :: rest) =
      .ok (String.ofList (read.reverse ++ cs), rest) := by
  induction cs generalizing read fuel with
  | nil =>
    obtain ⟨fuel, rfl⟩ := Nat.exists_eq_add_of_lt hfuel
    rw [List.flatMap_nil, List.nil_append, List.append_nil, readString]
  | cons c cs ih =>
    cases fuel with
    | zero => omega
    | succ fuel =>
      rw [List.flatMap_cons, List.append_assoc, readString_escapeChar,
        ih (c :: read) (Nat.succ_lt_succ_iff.mp hfuel)]
      simp

theorem eq_of_quote_append {s t : String} {r r' : List Char}
    (h : (quote s).toList ++ r = (quote t).toList ++ r') : s = t ∧ r = r' := by
  have hbody : s.toList.flatMap escapeChar ++ '"' :: r =
      t.toList.flatMap escapeChar ++ '"' :: r' := by simpa [quote] using h
  have hfuel : s.toList.length < s.toList.length + t.toList.length + 1 := by omega
  have hfuel' : t.toList.length < s.toList.length + t.toList.length + 1 := by omega
  have hread := readString_flatMap_escapeChar s.toList [] hfuel r
  rw [hbody, readString_flatMap_escapeChar t.toList [] hfuel' r', Except.ok.injEq,
    Prod.mk.injEq] at hread
  simp only [List.reverse_nil, List.nil_append, String.ofList_toList] at hread
  exact ⟨hread.1.symm, hread.2.symm⟩

end Strings

-- What comes after a part of a value starts with a comma or a closing bracket.
def Ended (rest : List Char) : Prop := ∀ c ∈ rest.head?, c ∈ [',', ']', '\x7d']

theorem ended_cons {c : Char} (hc : c ∈ [',', ']', '\x7d']) (rest : List Char) :
    Ended (c :: rest) := by simpa [Ended] using hc

section Lists

variable {β : Type} {write : β → List Char} {closing : Char} {r s : List Char}

theorem intercalate_cons_eq_flatMap (a : List Char) (as : List (List Char)) :
    [','].intercalate (a :: as) = a ++ as.flatMap (',' :: ·) := by
  induction as generalizing a with
  | nil => simp
  | cons b as ih =>
    rw [List.intercalate_cons_cons, ih, List.flatMap_cons]
    simp

theorem ended_flatMap (hclosing : closing ∈ [']', '\x7d']) (as : List β) (r : List Char) :
    Ended (as.flatMap (',' :: write ·) ++ closing :: r) := by
  cases as with
  | nil => exact ended_cons (List.mem_cons_of_mem _ hclosing) r
  | cons a as => exact ended_cons List.mem_cons_self _

-- The parts of a list can be told apart if each one can be told from what comes after it.
theorem eq_of_flatMap_append (hclosing : closing ∈ [']', '\x7d']) {as bs : List β}
    (hwrite : ∀ a ∈ as, ∀ b ∈ bs, ∀ r s, Ended r → Ended s →
      write a ++ r = write b ++ s → a = b ∧ r = s)
    (h : as.flatMap (',' :: write ·) ++ closing :: r =
      bs.flatMap (',' :: write ·) ++ closing :: s) : as = bs ∧ r = s := by
  have hcomma : ',' ≠ closing := by
    rintro rfl
    simp at hclosing
  induction as generalizing bs with
  | nil =>
    cases bs with
    | nil => exact ⟨rfl, (List.cons.inj h).2⟩
    | cons b bs => exact absurd (List.cons.inj h).1.symm hcomma
  | cons a as ih =>
    cases bs with
    | nil => exact absurd (List.cons.inj h).1 hcomma
    | cons b bs =>
      simp only [List.flatMap_cons, List.cons_append, List.append_assoc, List.cons.injEq,
        true_and] at h
      obtain ⟨rfl, hrest⟩ := hwrite a List.mem_cons_self b List.mem_cons_self _ _
        (ended_flatMap hclosing as r) (ended_flatMap hclosing bs s) h
      obtain ⟨rfl, rfl⟩ := ih (fun a ha b hb =>
        hwrite a (List.mem_cons_of_mem _ ha) b (List.mem_cons_of_mem _ hb)) hrest
      exact ⟨rfl, rfl⟩

theorem eq_of_intercalate_append (hclosing : closing ∈ [']', '\x7d']) {as bs : List β}
    (hopening : ∀ a, a ∈ as ∨ a ∈ bs → ∃ c ∈ (write a).head?, c ≠ closing)
    (hwrite : ∀ a ∈ as, ∀ b ∈ bs, ∀ r s, Ended r → Ended s →
      write a ++ r = write b ++ s → a = b ∧ r = s)
    (h : [','].intercalate (as.map write) ++ closing :: r =
      [','].intercalate (bs.map write) ++ closing :: s) : as = bs ∧ r = s := by
  -- a list that closes at once has no parts
  have hparts {a : β} {rest x y : List Char} (ha : a ∈ as ∨ a ∈ bs) :
      closing :: x ≠ write a ++ rest ++ y := by
    obtain ⟨c, hc, hne⟩ := hopening a ha
    obtain ⟨cs, hcs⟩ := List.head?_eq_some_iff.mp hc
    rw [hcs]
    exact fun heq => hne (List.cons.inj heq).1.symm
  cases as with
  | nil =>
    cases bs with
    | nil => exact ⟨rfl, (List.cons.inj h).2⟩
    | cons b bs =>
      rw [List.map_cons, intercalate_cons_eq_flatMap] at h
      exact absurd h (hparts (.inr List.mem_cons_self))
  | cons a as =>
    cases bs with
    | nil =>
      rw [List.map_cons, intercalate_cons_eq_flatMap] at h
      exact absurd h.symm (hparts (.inl List.mem_cons_self))
    | cons b bs =>
      simp only [List.map_cons, intercalate_cons_eq_flatMap, List.flatMap_map,
        List.append_assoc] at h
      obtain ⟨rfl, hrest⟩ := hwrite a List.mem_cons_self b List.mem_cons_self _ _
        (ended_flatMap hclosing as r) (ended_flatMap hclosing bs s) h
      obtain ⟨rfl, rfl⟩ := eq_of_flatMap_append hclosing (fun a ha b hb =>
        hwrite a (List.mem_cons_of_mem _ ha) b (List.mem_cons_of_mem _ hb)) hrest
      exact ⟨rfl, rfl⟩

end Lists

namespace Number

def isPlain (c : Char) : Bool := c.isDigit || ['-', '+', '.', 'e'].contains c

theorem isPlain_text {n : Number} (hn : n.IsFinite) : ∀ c ∈ n.text.toList, isPlain c = true := by
  intro c hc
  rw [toList_text hn, List.mem_append] at hc
  rcases hc with hc | hc
  · split at hc
    · obtain rfl := List.mem_singleton.mp hc
      rfl
    · cases hc
  · simpa [isPlain] using plain_body n c hc

theorem takeWhile_isPlain {n : Number} (hn : n.IsFinite) {r : List Char} (hr : Ended r) :
    (n.text.toList ++ r).takeWhile isPlain = n.text.toList := by
  rw [List.takeWhile_append_of_pos (isPlain_text hn)]
  cases r with
  | nil => exact List.append_nil _
  | cons c r =>
    have hc : c ∈ [',', ']', '\x7d'] := hr c rfl
    have hplain : isPlain c = false := by
      fin_cases hc <;> rfl
    rw [List.takeWhile_cons, hplain, if_neg Bool.false_ne_true, List.append_nil]

theorem eq_of_text_append {m n : Number} (hm : m.IsFinite) (hn : n.IsFinite) {r s : List Char}
    (hr : Ended r) (hs : Ended s) (h : m.text.toList ++ r = n.text.toList ++ s) :
    m = n ∧ r = s := by
  have htext : m.text.toList = n.text.toList := by
    rw [← takeWhile_isPlain hm hr, h, takeWhile_isPlain hn hs]
  rw [htext] at h
  exact ⟨text_injective hm hn htext, List.append_cancel_left h⟩

end Number

namespace Value

-- The first character of a text tells the kind of its value.
def kindOf? (c : Char) : Option Kind :=
  if c = '"' then some .string
  else if c = '[' then some .array
  else if c = '\x7b' then some .object
  else if c = 't' || c = 'f' then some .bool
  else if c = 'n' then some .null
  else if c.isDigit || c = '-' then some .number
  else none

theorem toList_text_array (items : List Value) : (array items).text.toList =
    '[' :: ([','].intercalate (items.map fun v => v.text.toList) ++ [']']) := by
  have hitems : itemTexts items = items.map text := by
    induction items with
    | nil => rfl
    | cons v rest ih => rw [itemTexts, ih, List.map_cons]
  rw [text, hitems, String.toList_append, String.toList_append, String.toList_intercalate,
    List.map_map]
  rfl

theorem toList_text_object (fields : List (String × Value)) : (object fields).text.toList =
    '\x7b' :: ([','].intercalate
      (fields.map fun f => (quote f.1).toList ++ ':' :: f.2.text.toList) ++ ['\x7d']) := by
  have hfields : fieldTexts fields = fields.map fun f => quote f.1 ++ ":" ++ f.2.text := by
    induction fields with
    | nil => rfl
    | cons f rest ih => rw [fieldTexts, ih, List.map_cons]
  rw [text, hfields, String.toList_append, String.toList_append, String.toList_intercalate,
    List.map_map]
  simp [Function.comp_def]

theorem kindOf?_eq_number {c : Char} (hc : c.isDigit = true ∨ c = '-') :
    kindOf? c = some .number := by
  have hother {d : Char} (hd : d.isDigit = false) (hd' : d ≠ '-') : c ≠ d := by
    rintro rfl
    rcases hc with hc | hc
    · rw [hd] at hc
      cases hc
    · exact hd' hc
  simp [kindOf?, hother (d := '"'), hother (d := '['), hother (d := '\x7b'), hother (d := 't'),
    hother (d := 'f'), hother (d := 'n'), hc]

theorem head_text {v : Value} (hv : v.Proper) :
    ∃ c ∈ v.text.toList.head?, kindOf? c = some (Kind.ofValue v) := by
  cases hv with
  | null => exact ⟨'n', rfl, rfl⟩
  | bool b =>
    cases b with
    | true => exact ⟨'t', rfl, rfl⟩
    | false => exact ⟨'f', rfl, rfl⟩
  | number n hn =>
    rw [text, Number.toList_text hn]
    split
    · exact ⟨'-', rfl, kindOf?_eq_number (.inr rfl)⟩
    · obtain ⟨c, hc, hdigit⟩ := n.head_body
      exact ⟨c, hc, kindOf?_eq_number (.inl hdigit)⟩
  | string s => exact ⟨'"', by rw [text, quote, String.toList_ofList]; rfl, rfl⟩
  | array items _ => exact ⟨'[', by rw [toList_text_array]; rfl, rfl⟩
  | object fields _ _ => exact ⟨'\x7b', by rw [toList_text_object]; rfl, rfl⟩

theorem kind_eq_of_text_append {v w : Value} (hv : v.Proper) (hw : w.Proper) {r s : List Char}
    (h : v.text.toList ++ r = w.text.toList ++ s) : Kind.ofValue v = Kind.ofValue w := by
  obtain ⟨c, hc, hkind⟩ := head_text hv
  obtain ⟨d, hd, hkind'⟩ := head_text hw
  obtain ⟨cs, hcs⟩ := List.head?_eq_some_iff.mp hc
  obtain ⟨ds, hds⟩ := List.head?_eq_some_iff.mp hd
  rw [hcs, hds] at h
  rw [(List.cons.inj h).1, hkind', Option.some.injEq] at hkind
  exact hkind.symm

-- The text of a value can be told from whatever comes after it.
theorem eq_of_text_append {v w : Value} (hv : v.Proper) (hw : w.Proper) {r s : List Char}
    (hr : Ended r) (hs : Ended s) (h : v.text.toList ++ r = w.text.toList ++ s) :
    v = w ∧ r = s := by
  have hkind := kind_eq_of_text_append hv hw h
  induction v using inductionOnParts generalizing w r s with
  | null =>
    cases w <;> cases hkind
    exact ⟨rfl, List.append_cancel_left h⟩
  | bool b =>
    cases w <;> cases hkind
    rename_i b'
    cases b <;> cases b'
    · exact ⟨rfl, List.append_cancel_left h⟩
    · cases h
    · cases h
    · exact ⟨rfl, List.append_cancel_left h⟩
  | number n =>
    cases w <;> cases hkind
    cases hv with | number _ hn =>
    cases hw with | number _ hn' =>
    obtain ⟨rfl, rfl⟩ := Number.eq_of_text_append hn hn' hr hs h
    exact ⟨rfl, rfl⟩
  | string a =>
    cases w <;> cases hkind
    obtain ⟨rfl, rfl⟩ := eq_of_quote_append h
    exact ⟨rfl, rfl⟩
  | array items ih =>
    cases w <;> cases hkind
    rename_i items'
    cases hv with | array _ hitems =>
    cases hw with | array _ hitems' =>
    rw [toList_text_array, toList_text_array] at h
    simp only [List.cons_append, List.append_assoc, List.nil_append, List.cons.injEq,
      true_and] at h
    have hopening (v : Value) (hv : v ∈ items ∨ v ∈ items') :
        ∃ c ∈ v.text.toList.head?, c ≠ ']' := by
      obtain ⟨c, hc, hkind⟩ := head_text (hv.elim (hitems v) (hitems' v))
      refine ⟨c, hc, ?_⟩
      rintro rfl
      cases hkind
    obtain ⟨rfl, rfl⟩ := eq_of_intercalate_append (by simp) hopening (fun v hv w hw r s hr hs h =>
      ih v hv (hitems v hv) (hitems' w hw) hr hs h
        (kind_eq_of_text_append (hitems v hv) (hitems' w hw) h)) h
    exact ⟨rfl, rfl⟩
  | object fields ih =>
    cases w <;> cases hkind
    rename_i fields'
    cases hv with | object _ _ hfields =>
    cases hw with | object _ _ hfields' =>
    rw [toList_text_object, toList_text_object] at h
    simp only [List.cons_append, List.append_assoc, List.nil_append, List.cons.injEq,
      true_and] at h
    have hopening (f : String × Value) (_ : f ∈ fields ∨ f ∈ fields') :
        ∃ c ∈ ((quote f.1).toList ++ ':' :: f.2.text.toList).head?, c ≠ '\x7d' :=
      ⟨'"', by rw [quote, String.toList_ofList]; rfl, by decide⟩
    obtain ⟨rfl, rfl⟩ := eq_of_intercalate_append (by simp) hopening (fun f hf g hg r s hr hs h => by
      obtain ⟨key, v⟩ := f
      obtain ⟨key', w⟩ := g
      rw [List.append_assoc, List.append_assoc] at h
      obtain ⟨rfl, hvalue⟩ := eq_of_quote_append h
      have hvalue' := (List.cons.inj hvalue).2
      obtain ⟨rfl, rfl⟩ := ih _ hf (hfields _ hf) (hfields' _ hg) hr hs hvalue'
        (kind_eq_of_text_append (hfields _ hf) (hfields' _ hg) hvalue')
      exact ⟨rfl, rfl⟩) h
    exact ⟨rfl, rfl⟩

-- Values of one text are one value.
theorem text_injective {v w : Value} (hv : v.Proper) (hw : w.Proper) (h : v.text = w.text) :
    v = w := by
  have hended : Ended [] := by simp [Ended]
  exact (eq_of_text_append hv hw hended hended (by rw [h])).1

end Value

end Likeness.Json
