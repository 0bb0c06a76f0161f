import Likeness.Proofs.Toml.Table
import Likeness.Proofs.Toml.Value

namespace Likeness.Toml

-- A key that is written as it is.
def BareKey (key : String) : Prop := key ≠ "" ∧ key.toList.all isBareKeyChar = true

instance : DecidablePred BareKey := fun key =>
  inferInstanceAs (Decidable (key ≠ "" ∧ key.toList.all isBareKeyChar = true))

section Keys

variable {key : String} {rest : List Char}

theorem writeKey_bare (h : BareKey key) : writeKey key = key := by
  simp [writeKey, h.1, h.2]

theorem BareKey.head (h : BareKey key) :
    ∃ c more, key.toList = c :: more ∧ isBareKeyChar c = true := by
  obtain ⟨c, more, hkey⟩ := List.exists_cons_of_ne_nil fun hnil => h.1 (String.toList_eq_nil_iff.mp hnil)
  have hall := List.all_eq_true.mp h.2
  exact ⟨c, more, hkey, hall c (by simp [hkey])⟩

theorem notMem_of_isBareKeyChar {c : Char} (h : isBareKeyChar c = true) :
    c ∉ [' ', '\t', '#', '\n', '\r', '[', '"', '\x27'] := by
  intro hmem
  simp only [List.mem_cons, List.not_mem_nil, or_false] at hmem
  rcases hmem with rfl | rfl | rfl | rfl | rfl | rfl | rfl | rfl <;> cases h

theorem visible_of_isBareKeyChar {c : Char} (hc : isBareKeyChar c = true) (rest : List Char) :
    Visible (c :: rest) := by
  have hnot := notMem_of_isBareKeyChar hc
  refine visible_cons (fun hmem => hnot ?_) _
  simp only [List.mem_cons, List.not_mem_nil, or_false] at hmem ⊢
  tauto

theorem visible_key (h : BareKey key) (rest : List Char) : Visible (key.toList ++ rest) := by
  obtain ⟨c, more, hkey, hc⟩ := h.head
  rw [hkey]
  exact visible_of_isBareKeyChar hc _

theorem readSimpleKey_append (h : BareKey key) (hrest : ∀ c ∈ rest.head?, isBareKeyChar c = false) :
    readSimpleKey (key.toList ++ rest) = some (key, rest) := by
  have htake : (key.toList ++ rest).takeWhile isBareKeyChar = key.toList := by
    rw [List.takeWhile_append_of_pos (List.all_eq_true.mp h.2)]
    cases rest with
    | nil => simp
    | cons c rest => simp [hrest c rfl]
  obtain ⟨c, more, hkey, hc⟩ := h.head
  have hnot := notMem_of_isBareKeyChar hc
  simp only [List.mem_cons, List.not_mem_nil, or_false, not_or] at hnot
  unfold readSimpleKey
  split
  next heq =>
    rw [hkey] at heq
    exact absurd (List.cons.inj heq).1 hnot.2.2.2.2.2.2.1
  next heq =>
    rw [hkey] at heq
    exact absurd (List.cons.inj heq).1 hnot.2.2.2.2.2.2.2
  next =>
    simp [htake, h.1]

-- A key of one part.
theorem readKey_single (h : BareKey key) (hrest : ∀ c ∈ rest.head?, isBareKeyChar c = false)
    (hdot : ∀ more, skipBlanks rest ≠ '.' :: more) (fuel : ℕ) :
    readKey (fuel + 1) (key.toList ++ rest) = some (([], key), rest) := by
  rw [readKey, readSimpleKey_append h hrest]
  dsimp only
  split
  next heq => exact absurd heq (hdot _)
  next => rfl

-- The keys on the way to a table and its own key, with points between them.
def pathText (path : List String) (key : String) : List Char :=
  path.flatMap (fun step => step.toList ++ ['.']) ++ key.toList

theorem head_pathText {path : List String} (hpath : ∀ step ∈ path, BareKey step)
    (h : BareKey key) :
    ∃ c more, pathText path key = c :: more ∧ isBareKeyChar c = true := by
  cases path with
  | nil => exact h.head
  | cons step path =>
    obtain ⟨c, more, htext, hc⟩ := (hpath step List.mem_cons_self).head
    exact ⟨c, _, by rw [pathText, List.flatMap_cons, htext]; rfl, hc⟩

theorem visible_pathText {path : List String} (hpath : ∀ step ∈ path, BareKey step)
    (h : BareKey key) (rest : List Char) : Visible (pathText path key ++ rest) := by
  obtain ⟨c, more, htext, hc⟩ := head_pathText hpath h
  rw [htext]
  exact visible_of_isBareKeyChar hc _

theorem readKey_path {path : List String} (hpath : ∀ step ∈ path, BareKey step) (h : BareKey key)
    (hrest : ∀ c ∈ rest.head?, isBareKeyChar c = false)
    (hdot : ∀ more, skipBlanks rest ≠ '.' :: more) {fuel : ℕ} (hfuel : path.length < fuel) :
    readKey fuel (pathText path key ++ rest) = some ((path, key), rest) := by
  induction path generalizing fuel with
  | nil =>
    obtain ⟨fuel, rfl⟩ : ∃ n, fuel = n + 1 := Nat.exists_eq_add_one.mpr hfuel
    exact readKey_single h hrest hdot fuel
  | cons step path ih =>
    obtain ⟨fuel, rfl⟩ : ∃ n, fuel = n + 1 := Nat.exists_eq_add_one.mpr (by omega)
    rw [List.length_cons] at hfuel
    have hmore : ∀ other ∈ path, BareKey other :=
      fun other hother => hpath other (List.mem_cons_of_mem _ hother)
    have htext : pathText (step :: path) key ++ rest =
        step.toList ++ '.' :: (pathText path key ++ rest) := by simp [pathText]
    have hdotted : skipBlanks ('.' :: (pathText path key ++ rest)) =
        '.' :: (pathText path key ++ rest) := rfl
    have hstep : readSimpleKey (step.toList ++ '.' :: (pathText path key ++ rest)) =
        some (step, '.' :: (pathText path key ++ rest)) :=
      readSimpleKey_append (hpath step List.mem_cons_self) (by simp; decide)
    rw [htext, readKey, hstep]
    dsimp only
    rw [hdotted]
    change (readKey fuel (skipBlanks (pathText path key ++ rest))).map _ = _
    rw [skipBlanks_visible (visible_pathText hmore h rest), ih hmore (by omega)]
    rfl

theorem toList_path (path : List String) (key : String) :
    (String.intercalate "." (path ++ [key])).toList = pathText path key := by
  induction path with
  | nil => simp [pathText]
  | cons step path ih =>
    rw [List.cons_append, String.intercalate_cons_of_ne_nil (by simp), String.toList_append, ih]
    simp [pathText]

theorem toList_header {path : List String} (hpath : ∀ step ∈ path, BareKey step)
    (h : BareKey key) :
    (header (path ++ [key])).toList = '\n' :: '[' :: (pathText path key ++ [']', '\n']) := by
  have hwritten : (path ++ [key]).map writeKey = path ++ [key] := by
    have hbare : ∀ step ∈ path ++ [key], writeKey step = step := by
      intro step hstep
      rcases List.mem_append.mp hstep with hstep | hstep
      · exact writeKey_bare (hpath step hstep)
      · rw [List.mem_singleton.mp hstep, writeKey_bare h]
    exact (List.map_congr_left hbare).trans (List.map_id' _)
  rw [header, hwritten, String.toList_append, String.toList_append, toList_path]
  simp

end Keys

-- A key and its value.
theorem readPair_flat {key : String} (hkey : BareKey key) {v : Value} (h : v.Flat) {size : ℕ}
    (hsize : v.text.toList.length < size) {rest : List Char} (hend : Ended rest) :
    readPair (readValue size (depthLimit - 1))
      (key.toList ++ ' ' :: '=' :: ' ' :: (v.text.toList ++ rest)) =
        some ((([], key), v), rest) := by
  have hread : readKey (depthLimit - 1) (key.toList ++ ' ' :: '=' :: ' ' ::
      (v.text.toList ++ rest)) = some (([], key), ' ' :: '=' :: ' ' :: (v.text.toList ++ rest)) :=
    readKey_single hkey (by simp; decide) (by simp [skipBlanks, isBlank]) 78
  have hsign : skipBlanks (' ' :: '=' :: ' ' :: (v.text.toList ++ rest)) =
      '=' :: ' ' :: (v.text.toList ++ rest) := by simp [skipBlanks, isBlank]
  have hblank : skipBlanks (' ' :: (v.text.toList ++ rest)) = v.text.toList ++ rest := by
    have hspace : skipBlanks (' ' :: (v.text.toList ++ rest)) =
        skipBlanks (v.text.toList ++ rest) := by simp [skipBlanks, isBlank]
    rw [hspace, skipBlanks_visible (visible_flat h rest)]
  rw [readPair, hread]
  dsimp only
  rw [hsign]
  change (readValue size (depthLimit - 1) (skipBlanks (' ' :: (v.text.toList ++ rest)))).map _ = _
  rw [hblank]
  rw [show depthLimit - 1 = 78 + 1 from rfl, readValue_flat h 78 hsize hend]
  rfl

namespace Document

variable {d d' : Document} {rest : List Char}

-- Reading goes from a state before some lines to a state after them.
def Reads (d : Document) (cs : List Char) (d' : Document) (rest : List Char) : Prop :=
  ∃ lines, lines + rest.length ≤ cs.length ∧
    ∀ fuel, d.readLines (fuel + lines) cs = d'.readLines fuel rest

theorem Reads.refl (d : Document) (cs : List Char) : d.Reads cs d cs :=
  ⟨0, by omega, fun _ => rfl⟩

theorem Reads.trans {between : Document} {cs middle : List Char}
    (h : d.Reads cs between middle) (h' : between.Reads middle d' rest) : d.Reads cs d' rest := by
  obtain ⟨lines, hlength, hread⟩ := h
  obtain ⟨lines', hlength', hread'⟩ := h'
  refine ⟨lines' + lines, by omega, fun fuel => ?_⟩
  rw [← Nat.add_assoc, hread, hread']

theorem readLines_entry {c : Char} {cs more after : List Char} (hcs : skipSpace cs = c :: more)
    (hc : c ≠ '[') (hentry : d.readEntry (c :: more) = some (d', after))
    (hend : readLineEnd after = some rest) (fuel : ℕ) :
    d.readLines (fuel + 1) cs = d'.readLines fuel rest := by
  rw [readLines, hcs]
  dsimp only
  split
  next heq =>
    split at heq
    next hbracket => exact absurd (List.cons.inj hbracket).1 hc
    next => simp [hentry] at heq
  next heq =>
    split at heq
    next hbracket => exact absurd (List.cons.inj hbracket).1 hc
    next =>
      obtain ⟨rfl, rfl⟩ := Prod.mk.inj (Option.some.inj (hentry.symm.trans heq))
      rw [hend]

theorem readLines_header {cs more after : List Char} (hcs : skipSpace cs = '[' :: more)
    (hheader : d.readHeader more = some (d', after)) (hend : readLineEnd after = some rest)
    (fuel : ℕ) : d.readLines (fuel + 1) cs = d'.readLines fuel rest := by
  rw [readLines, hcs]
  simp only [hheader, hend]

theorem readLineEnd_break (rest : List Char) : readLineEnd ('\n' :: rest) = some rest := rfl

-- A pair that can be added to the current table is read.
theorem reads_pair {key : String} (hkey : BareKey key) {v : Value} (h : v.Flat) {root : Table}
    (hroot : Table.update false (Table.insert [] key v) d.current d.root = some root)
    (rest : List Char) :
    d.Reads (key.toList ++ ' ' :: '=' :: ' ' :: (v.text.toList ++ '\n' :: rest)) ⟨root, d.current⟩
      rest := by
  refine ⟨1, by simp only [List.length_append, List.length_cons]; omega, fun fuel => ?_⟩
  have hspace := skipSpace_visible (visible_key hkey
    (' ' :: '=' :: ' ' :: (v.text.toList ++ '\n' :: rest)))
  have hentry : d.readEntry (key.toList ++ ' ' :: '=' :: ' ' :: (v.text.toList ++ '\n' :: rest)) =
      some (⟨root, d.current⟩, '\n' :: rest) := by
    have hsize : v.text.toList.length < (key.toList ++ ' ' :: '=' :: ' ' ::
        (v.text.toList ++ '\n' :: rest)).length + 1 := by
      simp only [List.length_append, List.length_cons]
      omega
    rw [readEntry, readPair_flat hkey h hsize (ended_cons (by decide) rest)]
    dsimp only
    rw [hroot]
    rfl
  obtain ⟨c, more, htext, hc⟩ := hkey.head
  have hbracket : c ≠ '[' := by
    rintro rfl
    cases hc
  rw [htext, List.cons_append] at hspace hentry ⊢
  exact readLines_entry hspace hbracket hentry (readLineEnd_break rest) fuel

-- The header of a table that can be opened is read.
theorem reads_header {path : List String} {key : String} (hpath : ∀ step ∈ path, BareKey step)
    (hkey : BareKey key) (hlength : path.length < depthLimit - 1) {root : Table}
    (hroot : Table.openTable path key d.root = some root) (rest : List Char) :
    d.Reads ((header (path ++ [key])).toList ++ rest) ⟨root, path ++ [key]⟩ rest := by
  refine ⟨1, by rw [toList_header hpath hkey]; simp; omega, fun fuel => ?_⟩
  have hspace : skipSpace ((header (path ++ [key])).toList ++ rest) =
      '[' :: (pathText path key ++ ']' :: '\n' :: rest) := by
    have hbreak : ∀ c ∈ ['\n'], c = ' ' ∨ c = '\n' := by simp
    have hvisible : Visible ('[' :: (pathText path key ++ ']' :: '\n' :: rest)) :=
      visible_cons (by decide) _
    rw [toList_header hpath hkey]
    simpa using skipSpace_append hbreak hvisible
  have hname : readKey (depthLimit - 1) (pathText path key ++ ']' :: '\n' :: rest) =
      some ((path, key), ']' :: '\n' :: rest) :=
    readKey_path hpath hkey (by simp; decide) (by simp [skipBlanks, isBlank]) hlength
  have hheader : d.readHeader (pathText path key ++ ']' :: '\n' :: rest) =
      some (⟨root, path ++ [key]⟩, '\n' :: rest) := by
    obtain ⟨c, more, htext, hc⟩ := head_pathText hpath hkey
    have hbracket : c ≠ '[' := by
      rintro rfl
      cases hc
    have hvisible := skipBlanks_visible (visible_pathText hpath hkey (']' :: '\n' :: rest))
    have hclose : skipBlanks (']' :: '\n' :: rest) = ']' :: '\n' :: rest := by
      simp [skipBlanks, isBlank]
    unfold readHeader
    dsimp only
    split
    next heq =>
      rw [htext, List.cons_append] at heq
      exact absurd (List.cons.inj heq).1 hbracket
    next => simp only [hvisible, hname, Option.map_some, hclose, hroot]
  exact readLines_header hspace hheader (readLineEnd_break rest) fuel

end Document

-- A document that is written in the order of its fields: with bare keys, tables after all values,
-- and tables in one another at most `n` deep.
inductive Orderly : ℕ → List (String × Value) → Prop where
  | values {n : ℕ} {fields : List (String × Value)}
      (h : ∀ f ∈ fields, BareKey f.1 ∧ f.2.Flat) : Orderly n fields
  | table {n : ℕ} {fields inner : List (String × Value)} {key : String}
      (h : Orderly (n + 1) fields) (hkey : BareKey key) (hinner : Orderly n inner)
      (hnodup : (inner.map (·.1)).Nodup) : Orderly (n + 1) (fields ++ [(key, .table inner)])

theorem Orderly.of_keys {n : ℕ} {fields : List (String × Value)} {keys : List String}
    (hfields : fields.map (·.1) = keys) (hkeys : ∀ key ∈ keys, BareKey key)
    (hvalues : ∀ f ∈ fields, f.2.Flat) : Orderly n fields :=
  .values fun f hf => ⟨hkeys f.1 (hfields ▸ List.mem_map_of_mem hf), hvalues f hf⟩

section Lines

variable {key : String} {v : Value} {fields inner : List (String × Value)}

theorem ofValue_flat (h : v.Flat) : Item.ofValue v = .value v := by
  cases h with
  | simple h => cases h <;> rfl
  | array => rfl

theorem valueLines_flat (hkey : BareKey key) (h : v.Flat) (rest : List (String × Value)) :
    (valueLines ((key, v) :: rest)).toList =
      key.toList ++ ' ' :: '=' :: ' ' :: (v.text.toList ++ '\n' :: (valueLines rest).toList) := by
  have hline : valueLines ((key, v) :: rest) =
      writeKey key ++ " = " ++ v.text ++ "\n" ++ valueLines rest := by
    cases h with
    | simple h => cases h <;> rfl
    | array => rfl
  rw [hline, writeKey_bare hkey]
  simp

theorem tableLines_flat (h : ∀ f ∈ fields, f.2.Flat) (path : List String) :
    tableLines path fields = "" := by
  induction fields with
  | nil => simp only [tableLines]
  | cons f rest ih =>
    obtain ⟨key, v⟩ := f
    have hrest := ih fun f hf => h f (List.mem_cons_of_mem _ hf)
    have hv : v.Flat := h (key, v) List.mem_cons_self
    cases hv with
    | simple hv => cases hv <;> simp only [tableLines, hrest]
    | array => simp only [tableLines, hrest]

theorem valueLines_concat (fields : List (String × Value)) :
    valueLines (fields ++ [(key, .table inner)]) = valueLines fields := by
  induction fields with
  | nil => rfl
  | cons f rest ih =>
    obtain ⟨k, v⟩ := f
    cases v <;> simp only [List.cons_append, valueLines, ih]

theorem tableLines_concat (path : List String) (fields : List (String × Value)) :
    tableLines path (fields ++ [(key, .table inner)]) = tableLines path fields ++
      (header (path ++ [key]) ++ (valueLines inner ++ tableLines (path ++ [key]) inner)) := by
  induction fields with
  | nil => simp [tableLines, String.append_assoc]
  | cons f rest ih =>
    obtain ⟨k, v⟩ := f
    cases v <;> simp only [List.cons_append, tableLines, ih, String.append_assoc]

end Lines

namespace Document

variable {d : Document} {root : Table} {fields : List (String × Value)}

theorem reads_values (h : ∀ f ∈ fields, BareKey f.1 ∧ f.2.Flat)
    (hstands : Table.Stands d.current d.root)
    (hroot : Table.update false (Table.grow (Item.ofFields fields)) d.current d.root = some root)
    (rest : List Char) :
    d.Reads ((valueLines fields).toList ++ rest) ⟨root, d.current⟩ rest := by
  induction fields generalizing d with
  | nil =>
    rw [Table.eq_of_grow_nil hstands hroot]
    exact Reads.refl d rest
  | cons f fields ih =>
    obtain ⟨key, v⟩ := f
    obtain ⟨hkey, hv⟩ := h (key, v) List.mem_cons_self
    have hsplit : Item.ofFields ((key, v) :: fields) =
        [(key, .value v)] ++ Item.ofFields fields := by
      rw [Item.ofFields, ofValue_flat hv]
      rfl
    rw [hsplit] at hroot
    obtain ⟨between, hpair, hmore⟩ := Table.update_grow_append hroot
    have hline := reads_pair (d := d) hkey hv (Table.insert_of_grow hpair)
      ((valueLines fields).toList ++ rest)
    have hlines := ih (d := ⟨between, d.current⟩)
      (fun f hf => h f (List.mem_cons_of_mem _ hf)) (Table.stands_of_grow hpair) hmore
    rw [valueLines_flat hkey hv]
    simpa using hline.trans hlines

-- Of a document, first the values are read and then its tables, one after the other.
theorem reads_orderly {n : ℕ} (h : Orderly n fields) (hpath : ∀ step ∈ d.current, BareKey step)
    (hdepth : d.current.length + n ≤ depthLimit - 1) (hstands : Table.Stands d.current d.root)
    (hroot : Table.update false (Table.grow (Item.ofFields fields)) d.current d.root = some root)
    (rest : List Char) :
    ∃ current, d.Reads ((valueLines fields ++ tableLines d.current fields).toList ++ rest)
      ⟨root, current⟩ rest := by
  induction h generalizing d root rest with
  | @values n fields h =>
    rw [tableLines_flat fun f hf => (h f hf).2, String.append_empty]
    exact ⟨d.current, reads_values h hstands hroot rest⟩
  | @table n fields inner key h hkey hinner hnodup ih ihinner =>
    have hitems : Item.ofFields (fields ++ [(key, .table inner)]) =
        Item.ofFields fields ++ [(key, .table false false (Item.ofFields inner))] := by
      rw [Item.ofFields_append]
      simp only [Item.ofFields, Item.ofValue]
    rw [hitems] at hroot
    obtain ⟨between, hfields, htable⟩ := Table.update_grow_append hroot
    rw [← Item.map_fst_ofFields] at hnodup
    obtain ⟨opened, hopened, hthere, hgrown⟩ := Table.openTable_of_grow hnodup htable
    have hinside : ∀ step ∈ d.current ++ [key], BareKey step := by
      intro step hstep
      rcases List.mem_append.mp hstep with hstep | hstep
      · exact hpath step hstep
      · rwa [List.mem_singleton.mp hstep]
    obtain ⟨last, hbody⟩ := ihinner (d := ⟨opened, d.current ++ [key]⟩) hinside
      (by simp only [List.length_append, List.length_singleton]; omega) hthere hgrown rest
    have htext : ((valueLines inner ++ tableLines (d.current ++ [key]) inner).toList ++ rest) =
      (valueLines inner).toList ++ ((tableLines (d.current ++ [key]) inner).toList ++ rest) := by
      rw [String.toList_append, List.append_assoc]
    obtain ⟨current, hbefore⟩ := ih hpath hdepth hstands hfields
      ((header (d.current ++ [key])).toList ++ ((valueLines inner).toList ++
        ((tableLines (d.current ++ [key]) inner).toList ++ rest)))
    have hheader := reads_header (d := ⟨between, current⟩) hpath hkey (by omega) hopened
      ((valueLines inner).toList ++ ((tableLines (d.current ++ [key]) inner).toList ++ rest))
    rw [htext] at hbody
    refine ⟨last, ?_⟩
    rw [valueLines_concat, tableLines_concat]
    simpa using hbefore.trans (hheader.trans hbody)

end Document

-- No document starts with the mark that a reader leaves out.
theorem Orderly.head {n : ℕ} {fields : List (String × Value)} (h : Orderly n fields) :
    ∀ c ∈ (write fields).toList.head?, c ≠ '\ufeff' := by
  induction h with
  | @values n fields h =>
    rw [write, tableLines_flat fun f hf => (h f hf).2, String.append_empty]
    cases fields with
    | nil => simp [valueLines]
    | cons f fields =>
      obtain ⟨key, v⟩ := f
      obtain ⟨hkey, hv⟩ := h (key, v) List.mem_cons_self
      obtain ⟨c, more, htext, hc⟩ := hkey.head
      rw [valueLines_flat hkey hv, htext]
      rintro d hd rfl
      rw [List.cons_append, List.head?_cons, Option.mem_some_iff] at hd
      subst hd
      cases hc
  | @table n fields inner key h hkey hinner hnodup ih ihinner =>
    have htext : (write (fields ++ [(key, .table inner)])).toList = (write fields).toList ++
        ((header [key]).toList ++ (valueLines inner ++ tableLines [key] inner).toList) := by
      rw [write, write, valueLines_concat, tableLines_concat]
      simp
    have hheader := toList_header (List.forall_mem_nil BareKey) hkey
    rw [List.nil_append] at hheader
    rw [htext, hheader]
    cases hwritten : (write fields).toList with
    | nil => simp
    | cons c more =>
      rw [hwritten] at ih
      exact ih

-- Such a document reads back from its text.
theorem read?_write {n : ℕ} {fields : List (String × Value)} (h : Orderly n fields)
    (hnodup : (fields.map (·.1)).Nodup) (hdepth : n ≤ depthLimit - 1) :
    read? (write fields) = some fields := by
  have hgrow : Table.grow (Item.ofFields fields) .empty =
      some ⟨false, false, Item.ofFields fields⟩ :=
    Table.grow_eq_some_iff.mpr
      ⟨⟨by rwa [Item.map_fst_ofFields], by simp [Table.empty]⟩, rfl⟩
  obtain ⟨current, lines, hlines, hread⟩ := Document.reads_orderly (d := .empty) h
    (by simp [Document.empty]) (by simpa [Document.empty] using hdepth) rfl hgrow []
  rw [List.append_nil] at hlines hread
  rw [List.length_nil, Nat.add_zero] at hlines
  have hmark := h.head
  have hwritten : valueLines fields ++ tableLines Document.empty.current fields = write fields := rfl
  rw [hwritten] at hlines hread
  -- one more line is left for the end of the text
  obtain ⟨more, hmore⟩ := Nat.exists_eq_add_of_le hlines
  have hdone : Document.readLines ((write fields).toList.length + 1) .empty (write fields).toList =
      some ⟨⟨false, false, Item.ofFields fields⟩, current⟩ := by
    have hfuel : (write fields).toList.length + 1 = (more + 1) + lines := by omega
    rw [hfuel, hread (more + 1)]
    rfl
  unfold read?
  split
  next rest heq =>
    rw [heq] at hmark
    exact absurd rfl (hmark '\ufeff' rfl)
  next =>
    dsimp only
    rw [hdone, Option.map_some, Item.toFields_ofFields]

end Likeness.Toml
