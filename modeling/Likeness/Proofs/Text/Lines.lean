import Mathlib.Algebra.Ring.Nat
import Mathlib.Data.List.Basic
import Mathlib.Data.String.Basic

namespace Likeness.Text

-- Texts with a mark between them are found again by cutting what they make at that mark.
theorem splitOn_intercalate (mark : Char) {texts : List String}
    (h : ∀ text ∈ texts, mark ∉ text.toList) (hne : texts ≠ []) :
    ((String.intercalate mark.toString texts).toList.splitOn mark).map String.ofList = texts := by
  have hsplit : ([mark].intercalate (texts.map String.toList)).splitOn mark =
      texts.map String.toList :=
    List.splitOn_intercalate mark (List.forall_mem_map.mpr h) (by simpa using hne)
  rw [String.toList_intercalate, Char.toString_eq_singleton, String.toList_singleton, hsplit,
    List.map_map]
  simp

-- How many line feeds a text has.
def lineFeeds (text : String) : ℕ := text.toList.count '\n'

-- How many line feeds some texts have together.
def breaks (texts : List String) : ℕ := (texts.map lineFeeds).sum

-- Whether a text does not go on on another line.
def Unbroken (text : String) : Prop := '\n' ∉ text.toList

instance (text : String) : Decidable (Unbroken text) := by unfold Unbroken; infer_instance

-- Whether a text is one that can be told from others on the lines before and after it.
structure OneLine (text : String) : Prop where
  ne_empty : text ≠ ""
  unbroken : Unbroken text

theorem oneLine_iff (text : String) : OneLine text ↔ text ≠ "" ∧ Unbroken text :=
  ⟨fun h => ⟨h.ne_empty, h.unbroken⟩, fun h => ⟨h.1, h.2⟩⟩

instance (text : String) : Decidable (OneLine text) := decidable_of_iff _ (oneLine_iff text).symm

-- A text cut at its line feeds, which are left out.
def pieces (text : String) : List String := (text.toList.splitOn '\n').map String.ofList

-- The lines of a text in which a line feed stands behind each line.
def lines (text : String) : List String := (pieces text).dropLast

variable {text other : String}

theorem lineFeeds_eq_zero_iff : lineFeeds text = 0 ↔ Unbroken text := List.count_eq_zero

theorem lineFeeds_of_unbroken (h : Unbroken text) : lineFeeds text = 0 :=
  lineFeeds_eq_zero_iff.mpr h

@[simp]
theorem lineFeeds_append (text other : String) :
    lineFeeds (text ++ other) = lineFeeds text + lineFeeds other := by
  simp [lineFeeds, List.count_append]

theorem unbroken_append_iff : Unbroken (text ++ other) ↔ Unbroken text ∧ Unbroken other := by
  simp [Unbroken]

-- A line feed is a byte of its own, so a long text can be searched for it without being decoded.
theorem unbroken_of_bytes (h : (10 : UInt8) ∉ text.toByteArray.data.toList) : Unbroken text := by
  intro hmem
  refine h ?_
  rw [← String.utf8Encode_toList, List.utf8Encode, List.toList_data_toByteArray]
  exact List.mem_flatMap.mpr ⟨'\n', hmem, by decide⟩

theorem OneLine.append (h : OneLine text) (hother : Unbroken other) : OneLine (text ++ other) := by
  refine ⟨fun hempty => h.ne_empty ?_, unbroken_append_iff.mpr ⟨h.unbroken, hother⟩⟩
  exact (String.append_eq_empty_iff.mp hempty).1

theorem length_pieces (text : String) : (pieces text).length = lineFeeds text + 1 := by
  rw [pieces, List.length_map, lineFeeds]
  induction text.toList with
  | nil => rfl
  | cons c cs ih =>
    obtain ⟨first, rest, hcs⟩ := List.exists_cons_of_ne_nil (List.splitOn_ne_nil '\n' cs)
    rw [List.splitOn_cons_eq_if_modifyHead, List.count_cons, hcs, List.modifyHead_cons]
    rw [hcs] at ih
    split
    · rw [List.length_cons, ih]
    · rw [List.length_cons] at ih ⊢
      exact ih

theorem pieces_of_unbroken (h : Unbroken text) : pieces text = [text] := by
  rw [pieces, List.splitOn_eq_singleton h, List.map_singleton, String.ofList_toList]

theorem pieces_append_lineFeed (text other : String) :
    pieces (text ++ "\n" ++ other) = pieces text ++ pieces other := by
  simp only [pieces, String.toList_append, ← List.map_append, ← List.splitOn_append_cons_self]
  rw [List.append_assoc]
  rfl

-- Lines that are written one after the other are read again, each cut where it goes on on another
-- one.
theorem lines_join (texts : List String) :
    lines (String.join (texts.map (· ++ "\n"))) = texts.flatMap pieces := by
  suffices h : pieces (String.join (texts.map (· ++ "\n"))) = texts.flatMap pieces ++ [""] by
    rw [lines, h, List.dropLast_concat]
  induction texts with
  | nil => rfl
  | cons text texts ih =>
    rw [List.map_cons, String.join_cons, pieces_append_lineFeed, ih, List.flatMap_cons,
      List.append_assoc]

@[simp]
theorem breaks_nil : breaks [] = 0 := rfl

@[simp]
theorem breaks_cons (text : String) (texts : List String) :
    breaks (text :: texts) = lineFeeds text + breaks texts := rfl

@[simp]
theorem breaks_append (texts others : List String) :
    breaks (texts ++ others) = breaks texts + breaks others := by
  rw [breaks, List.map_append, List.sum_append, ← breaks, ← breaks]

theorem breaks_flatMap {β : Type} (f : β → List String) (bs : List β) :
    breaks (bs.flatMap f) = (bs.map fun b => breaks (f b)).sum := by
  induction bs with
  | nil => rfl
  | cons b bs ih => rw [List.flatMap_cons, breaks_append, ih, List.map_cons, List.sum_cons]

theorem breaks_eq_zero_iff (texts : List String) :
    breaks texts = 0 ↔ ∀ text ∈ texts, Unbroken text := by
  rw [breaks, List.sum_eq_zero_iff_forall_eq_nat, List.forall_mem_map]
  simp only [lineFeeds_eq_zero_iff]

theorem length_flatMap_pieces (texts : List String) :
    (texts.flatMap pieces).length = texts.length + breaks texts := by
  induction texts with
  | nil => rfl
  | cons text texts ih =>
    rw [List.flatMap_cons, List.length_append, ih, length_pieces, breaks_cons, List.length_cons]
    omega

-- Nothing is cut just when there is no line feed in any of some texts.
theorem flatMap_pieces_eq_self_iff (texts : List String) :
    texts.flatMap pieces = texts ↔ breaks texts = 0 := by
  constructor
  · intro h
    have hlength := length_flatMap_pieces texts
    rw [h] at hlength
    omega
  · intro h
    rw [breaks_eq_zero_iff] at h
    calc texts.flatMap pieces
        = texts.flatMap fun text => [text] :=
          List.flatMap_congr fun text ht => pieces_of_unbroken (h text ht)
      _ = texts := List.flatMap_singleton' texts

theorem pieces_intercalate {texts : List String} (h : ∀ text ∈ texts, Unbroken text)
    (hne : texts ≠ []) : pieces (String.intercalate "\n" texts) = texts :=
  splitOn_intercalate '\n' h hne

-- No text is made of no lines only.
theorem eq_nil_of_intercalate_eq_empty {texts : List String} (h : ∀ text ∈ texts, OneLine text)
    (hempty : String.intercalate "\n" texts = "") : texts = [] := by
  by_contra hne
  have hpieces := pieces_intercalate (fun text ht => (h text ht).unbroken) hne
  rw [hempty, pieces_of_unbroken (by decide)] at hpieces
  exact (h "" (by simp [← hpieces])).ne_empty rfl

-- Texts on lines can be told apart by the text that is made of them.
theorem intercalate_inj {texts others : List String} (h : ∀ text ∈ texts, OneLine text)
    (hothers : ∀ text ∈ others, OneLine text) :
    String.intercalate "\n" texts = String.intercalate "\n" others ↔ texts = others := by
  refine ⟨fun heq => ?_, fun heq => by rw [heq]⟩
  by_cases htexts : texts = []
  · rw [htexts, String.intercalate_nil] at heq
    rw [htexts, eq_nil_of_intercalate_eq_empty hothers heq.symm]
  · by_cases hne : others = []
    · rw [hne, String.intercalate_nil] at heq
      exact absurd (eq_nil_of_intercalate_eq_empty h heq) htexts
    · rw [← pieces_intercalate (fun text ht => (h text ht).unbroken) htexts, heq,
        pieces_intercalate (fun text ht => (hothers text ht).unbroken) hne]

end Likeness.Text
