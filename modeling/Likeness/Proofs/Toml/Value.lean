import Likeness.Proofs.Toml.Number
import Likeness.Proofs.Toml.Quoted
import Likeness.Toml.Reader
import Likeness.Toml.Text

namespace Likeness.Toml

open Number

-- The values without parts that read back from their text.
inductive Value.Simple : Value → Prop where
  | bool (b : Bool) : Simple (.bool b)
  | int {n : ℤ} (h : isInt n = true) : Simple (.int n)
  | double {x : Float} (hx : x.isFinite = true)
      (hread : readDouble (Layout.pointed.write x).toList = some x) : Simple (.double x)
  | string (s : String) : Simple (.string s)

-- Such values, and arrays of them.
inductive Value.Flat : Value → Prop where
  | simple {v : Value} (h : v.Simple) : Flat v
  | array {items : List Value} (h : ∀ v ∈ items, v.Simple) : Flat (.array items)

section Space

variable {cs : List Char}

-- Nothing is skipped at the start of such a text.
def Visible (cs : List Char) : Prop := ∀ c ∈ cs.head?, c ∉ [' ', '\t', '#', '\n', '\r']

theorem visible_cons {c : Char} (h : c ∉ [' ', '\t', '#', '\n', '\r']) (rest : List Char) :
    Visible (c :: rest) := by simpa [Visible] using h

theorem skipBlanks_visible (h : Visible cs) : skipBlanks cs = cs := by
  cases cs with
  | nil => rfl
  | cons c cs =>
    have hc := h c rfl
    simp only [List.mem_cons, not_or] at hc
    simp [skipBlanks, isBlank, hc.1, hc.2.1]

theorem skipLines_visible (h : Visible cs) (fuel : ℕ) : skipLines fuel cs = cs := by
  cases fuel with
  | zero => rfl
  | succ fuel =>
    rw [skipLines, skipBlanks_visible h]
    cases cs with
    | nil => rfl
    | cons c cs =>
      have hc := h c rfl
      simp only [List.mem_cons, not_or] at hc
      have hcomment : skipComment (c :: cs) = c :: cs := by
        unfold skipComment
        split <;> simp_all
      rw [hcomment]
      split <;> simp_all

theorem skipLines_append {space : List Char} (hspace : ∀ c ∈ space, c = ' ' ∨ c = '\n')
    (h : Visible cs) {fuel : ℕ} (hfuel : space.length < fuel) :
    skipLines fuel (space ++ cs) = cs := by
  induction space generalizing fuel with
  | nil => exact skipLines_visible h fuel
  | cons c space ih =>
    obtain ⟨fuel, rfl⟩ : ∃ n, fuel = n + 1 := Nat.exists_eq_add_one.mpr (by omega)
    have hrest : ∀ d ∈ space, d = ' ' ∨ d = '\n' := fun d hd => hspace d (List.mem_cons_of_mem _ hd)
    rw [List.length_cons] at hfuel
    rcases hspace c List.mem_cons_self with rfl | rfl
    · have hblank : skipBlanks (' ' :: (space ++ cs)) = skipBlanks (space ++ cs) := rfl
      have hmore : space.length < fuel + 1 := by omega
      have hline := ih hrest hmore
      rw [skipLines] at hline ⊢
      rw [List.cons_append, hblank]
      exact hline
    · exact ih hrest (by omega)

theorem skipSpace_append {space : List Char} (hspace : ∀ c ∈ space, c = ' ' ∨ c = '\n')
    (h : Visible cs) : skipSpace (space ++ cs) = cs :=
  skipLines_append hspace h (by rw [List.length_append]; omega)

theorem skipSpace_visible (h : Visible cs) : skipSpace cs = cs := skipLines_visible h _

end Space

section Simple

variable {v : Value} {rest : List Char}

theorem Ended.closed (h : Ended rest) : Closed rest := by
  rcases h.cases with rfl | ⟨more, rfl | rfl | rfl⟩ <;> simp [Closed]

theorem quoteChars_head (cs : List Char) :
    ∃ more, quoteChars cs = '"' :: more ∨ quoteChars cs = '\x27' :: more := by
  unfold quoteChars
  dsimp only
  split
  · exact ⟨_, .inl rfl⟩
  · exact ⟨_, .inr rfl⟩
  · exact ⟨_, .inl rfl⟩
  · exact ⟨_, .inr rfl⟩

theorem toList_string (s : String) : (Value.string s).text.toList = quoteChars s.toList := by
  simp [Value.text, quote]

-- A text in quotes is read as such, and what starts with a digit or a sign as a number.
theorem readValue_quoted (size depth : ℕ) {cs : List Char} (h : (∃ more, cs = '"' :: more) ∨
    ∃ more, cs = '\x27' :: more) :
    readValue size depth cs = (readQuoted cs).map fun (s, rest) => (.string s, rest) := by
  rcases h with ⟨more, rfl⟩ | ⟨more, rfl⟩ <;> cases depth <;> rfl

theorem readValue_number (size depth : ℕ) {c : Char} (hc : c.isDigit = true ∨ c = '-')
    (cs : List Char) : readValue size depth (c :: cs) = readNumber (c :: cs) := by
  have hne : c ∉ ['t', 'f', '"', '\x27', '[', '\x7b'] := by
    rcases hc with hc | rfl
    · rintro hmem
      simp only [List.mem_cons, List.not_mem_nil, or_false] at hmem
      rcases hmem with rfl | rfl | rfl | rfl | rfl | rfl <;> cases hc
    · decide
  simp only [List.mem_cons, List.not_mem_nil, or_false, not_or] at hne
  cases depth <;> unfold readValue <;> split <;> simp_all

theorem head_int (n : ℤ) :
    ∃ c more, (toString n).toList = c :: more ∧ (c.isDigit = true ∨ c = '-') := by
  rw [toList_int]
  simpa using head_signed (decide (n < 0)) (wholeDigits_toDigits n.natAbs) []

theorem head_double {x : Float} (hx : x.isFinite = true) :
    ∃ c more, (Layout.pointed.write x).toList = c :: more ∧ (c.isDigit = true ∨ c = '-') := by
  obtain ⟨ds, es, htext, hds, -⟩ := Layout.isPointed_finite (sizeBits_lt x)
  rw [Layout.toList_write _ hx, htext]
  exact head_signed (isNegative x) hds ('.' :: es)

theorem readValue_simple (h : v.Simple) (size depth : ℕ) (hend : Ended rest) :
    readValue size depth (v.text.toList ++ rest) = some (v, rest) := by
  cases h with
  | bool b => cases b <;> cases depth <;> rfl
  | @int n h =>
    have hread := readNumber_int n h hend
    obtain ⟨c, more, htext, hc⟩ := head_int n
    change readValue size depth ((toString n).toList ++ rest) = _
    rw [htext] at hread ⊢
    rw [List.cons_append, readValue_number size depth hc]
    exact hread
  | @double x hx hread =>
    have hread := readNumber_double hx hread hend
    obtain ⟨c, more, htext, hc⟩ := head_double hx
    change readValue size depth ((Layout.pointed.write x).toList ++ rest) = _
    rw [htext] at hread ⊢
    rw [List.cons_append, readValue_number size depth hc]
    exact hread
  | string s =>
    have hread := readQuoted_quoteChars s.toList hend.closed
    have hhead : (∃ more, quoteChars s.toList ++ rest = '"' :: more) ∨
        ∃ more, quoteChars s.toList ++ rest = '\x27' :: more := by
      obtain ⟨more, htext | htext⟩ := quoteChars_head s.toList
      · exact .inl ⟨_, by rw [htext]; rfl⟩
      · exact .inr ⟨_, by rw [htext]; rfl⟩
    rw [toList_string, readValue_quoted size depth hhead, hread]
    simp

theorem head_simple (h : v.Simple) :
    ∃ c more, v.text.toList = c :: more ∧ c ∉ [' ', '\t', '#', '\n', '\r', ']'] := by
  have hnumber {c : Char} (hc : c.isDigit = true ∨ c = '-') :
      c ∉ [' ', '\t', '#', '\n', '\r', ']'] := by
    rcases hc with hc | rfl
    · intro hmem
      simp only [List.mem_cons, List.not_mem_nil, or_false] at hmem
      rcases hmem with rfl | rfl | rfl | rfl | rfl | rfl <;> cases hc
    · decide
  cases h with
  | bool b => cases b <;> exact ⟨_, _, rfl, by decide⟩
  | @int n =>
    obtain ⟨c, more, htext, hc⟩ := head_int n
    exact ⟨c, more, htext, hnumber hc⟩
  | @double x hx =>
    obtain ⟨c, more, htext, hc⟩ := head_double hx
    exact ⟨c, more, htext, hnumber hc⟩
  | string s =>
    obtain ⟨more, htext | htext⟩ := quoteChars_head s.toList
    · exact ⟨_, _, (toList_string s).trans htext, by decide⟩
    · exact ⟨_, _, (toList_string s).trans htext, by decide⟩

theorem visible_simple (h : v.Simple) (rest : List Char) : Visible (v.text.toList ++ rest) := by
  obtain ⟨c, more, htext, hc⟩ := head_simple h
  rw [htext, List.cons_append]
  refine visible_cons (fun hmem => hc ?_) _
  simp only [List.mem_cons, List.not_mem_nil, or_false] at hmem ⊢
  tauto

end Simple

section Items

variable {items : List Value} {rest : List Char}

theorem ended_cons {c : Char} (hc : c ∈ ['\n', ',', ']']) (rest : List Char) : Ended (c :: rest) := by
  simpa [Ended] using hc

section OneItem

variable {v : Value} (h : v.Simple) (size depth fuel : ℕ) {space : List Char}
  (hspace : ∀ c ∈ space, c = ' ' ∨ c = '\n') (more : List Char)

include h hspace

-- A value of an array, with blanks and breaks before it and others after it.
theorem readItems_comma :
    readItems (readValue size depth) (fuel + 1) (space ++ (v.text.toList ++ ',' :: more)) =
      (readItems (readValue size depth) fuel more).map
        fun (items, rest) => (v :: items, rest) := by
  have hread := readValue_simple h size depth (ended_cons (c := ',') (by decide) more)
  obtain ⟨c, tail, htext, hc⟩ := head_simple h
  have hbracket : c ≠ ']' := fun heq => hc (by simp [heq])
  rw [readItems, skipSpace_append hspace (visible_simple h _)]
  rw [htext, List.cons_append] at hread ⊢
  split
  next heq => exact absurd (List.cons.inj heq).1 hbracket
  next =>
    rw [hread]
    dsimp only
    rw [skipSpace_visible (visible_cons (by decide) more)]
    rfl

theorem readItems_last :
    readItems (readValue size depth) (fuel + 1) (space ++ (v.text.toList ++ ']' :: more)) =
      some ([v], more) := by
  have hread := readValue_simple h size depth (ended_cons (c := ']') (by decide) more)
  obtain ⟨c, tail, htext, hc⟩ := head_simple h
  have hbracket : c ≠ ']' := fun heq => hc (by simp [heq])
  rw [readItems, skipSpace_append hspace (visible_simple h _)]
  rw [htext, List.cons_append] at hread ⊢
  split
  next heq => exact absurd (List.cons.inj heq).1 hbracket
  next =>
    rw [hread]
    dsimp only
    rw [skipSpace_visible (visible_cons (by decide) more)]
    rfl

end OneItem

theorem toList_itemLines (v : Value) (rest : List Value) :
    (String.join (itemLines (v :: rest))).toList = [' ', ' ', ' ', ' '] ++
      (v.text.toList ++ ',' :: '\n' :: (String.join (itemLines rest)).toList) := by
  simp [itemLines]

theorem readItems_lines (h : ∀ v ∈ items, v.Simple) (size depth : ℕ) {fuel : ℕ}
    (hfuel : items.length < fuel) {space : List Char}
    (hspace : ∀ c ∈ space, c = ' ' ∨ c = '\n') (rest : List Char) :
    readItems (readValue size depth) fuel
      (space ++ ((String.join (itemLines items)).toList ++ ']' :: rest)) = some (items, rest) := by
  induction items generalizing fuel space with
  | nil =>
    obtain ⟨fuel, rfl⟩ : ∃ n, fuel = n + 1 := Nat.exists_eq_add_one.mpr (by omega)
    have hvisible : Visible (']' :: rest) := visible_cons (by decide) rest
    have hnone : (String.join (itemLines [])).toList = [] := rfl
    rw [hnone, List.nil_append, readItems, skipSpace_append hspace hvisible]
    rfl
  | cons v items ih =>
    obtain ⟨fuel, rfl⟩ : ∃ n, fuel = n + 1 := Nat.exists_eq_add_one.mpr (by omega)
    rw [List.length_cons] at hfuel
    have hindent : ∀ c ∈ space ++ [' ', ' ', ' ', ' '], c = ' ' ∨ c = '\n' := by
      intro c hc
      rcases List.mem_append.mp hc with hc | hc
      · exact hspace c hc
      · left
        simpa using hc
    have hmore : items.length < fuel := by omega
    have hbreak : ∀ c ∈ ['\n'], c = ' ' ∨ c = '\n' := by simp
    have hitems := ih (fun w hw => h w (List.mem_cons_of_mem _ hw)) hmore hbreak
    have hvalue := readItems_comma (h v List.mem_cons_self) size depth fuel hindent
      ('\n' :: ((String.join (itemLines items)).toList ++ ']' :: rest))
    rw [List.singleton_append] at hitems
    rw [hitems, Option.map_some] at hvalue
    rw [toList_itemLines]
    simpa using hvalue

theorem toList_one (v : Value) : (Value.array [v]).text.toList = ['['] ++ (v.text.toList ++ [']']) := by
  have hjoined : (Value.array [v]).text = "[" ++ v.text ++ "]" := rfl
  rw [hjoined]
  simp

theorem toList_several (v w : Value) (items : List Value) :
    (Value.array (v :: w :: items)).text.toList =
      ['[', '\n'] ++ ((String.join (itemLines (v :: w :: items))).toList ++ [']']) := by
  have hjoined : (Value.array (v :: w :: items)).text =
    "[\n" ++ String.join (itemLines (v :: w :: items)) ++ "]" := rfl
  rw [hjoined]
  simp

theorem length_itemLines (items : List Value) :
    items.length ≤ (String.join (itemLines items)).toList.length := by
  induction items with
  | nil => exact Nat.zero_le _
  | cons v items ih =>
    rw [toList_itemLines]
    simp only [List.length_cons, List.length_append]
    omega

end Items

theorem visible_flat {v : Value} (h : v.Flat) (rest : List Char) :
    Visible (v.text.toList ++ rest) := by
  cases h with
  | simple h => exact visible_simple h rest
  | @array items h =>
    have hbracket : ∃ more, (Value.array items).text.toList = '[' :: more := by
      match items with
      | [] => exact ⟨[']'], rfl⟩
      | [v] => exact ⟨_, by rw [toList_one, List.cons_append]⟩
      | v :: w :: items => exact ⟨_, by rw [toList_several, List.cons_append]⟩
    obtain ⟨more, htext⟩ := hbracket
    rw [htext]
    exact visible_cons (by decide) _

-- Values and arrays of them read back from their text.
theorem readValue_flat {v : Value} (h : v.Flat) {size : ℕ} (depth : ℕ) {rest : List Char}
    (hsize : v.text.toList.length < size) (hend : Ended rest) :
    readValue size (depth + 1) (v.text.toList ++ rest) = some (v, rest) := by
  cases h with
  | simple h => exact readValue_simple h size (depth + 1) hend
  | @array items h =>
    have hread (cs : List Char) : readValue size (depth + 1) ('[' :: cs) =
        (readItems (readValue size depth) size cs).map fun (items, rest) => (.array items, rest) :=
      rfl
    match items with
    | [] =>
      have hsome : 0 < size := by omega
      obtain ⟨more, rfl⟩ : ∃ n, size = n + 1 := Nat.exists_eq_add_one.mpr hsome
      rfl
    | [v] =>
      obtain ⟨fuel, rfl⟩ : ∃ n, size = n + 1 := Nat.exists_eq_add_one.mpr (by omega)
      have hnone : ∀ c ∈ ([] : List Char), c = ' ' ∨ c = '\n' := by simp
      have hitems := readItems_last (h v List.mem_cons_self) (fuel + 1) depth fuel hnone rest
      rw [List.nil_append] at hitems
      rw [toList_one]
      simp only [List.cons_append, List.append_assoc, List.nil_append]
      rw [hread, hitems]
      rfl
    | v :: w :: items =>
      have hlength := length_itemLines (v :: w :: items)
      have hfuel : (v :: w :: items).length < size := by
        rw [toList_several] at hsize
        simp only [List.length_cons, List.length_append] at hsize hlength ⊢
        omega
      have hbreak : ∀ c ∈ ['\n'], c = ' ' ∨ c = '\n' := by simp
      have hitems := readItems_lines h size depth hfuel hbreak rest
      rw [List.singleton_append] at hitems
      rw [toList_several]
      simp only [List.cons_append, List.append_assoc, List.nil_append]
      rw [hread, hitems]
      rfl

end Likeness.Toml
