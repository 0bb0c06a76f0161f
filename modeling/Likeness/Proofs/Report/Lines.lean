import Likeness.Proofs.Json.Text
import Likeness.Proofs.Text.Lines
import Likeness.Report.Text

namespace Likeness

open Text

namespace Number

theorem Digits.unbroken {ds : List Char} (h : Digits ds) : Unbroken (String.ofList ds) := by
  rw [Unbroken, String.toList_ofList]
  exact h.notMem rfl

theorem unbroken_toString (n : ℕ) : Unbroken (toString n) := by
  have hdigits : (toString n).toList = Nat.toDigits 10 n := Nat.toList_repr
  rw [Unbroken, hdigits]
  exact (digits_toDigits n).notMem rfl

theorem unbroken_fixedPlaces (places : ℕ) (x : Float) : Unbroken (fixedPlaces places x) := by
  have hsign (p : Prop) [Decidable p] : Unbroken (if p then "-" else "") := by
    split <;> decide
  unfold fixedPlaces
  split
  · decide
  · dsimp only
    split
    · exact unbroken_append_iff.mpr ⟨hsign _, by decide⟩
    · set digits := Nat.toDigits 10 _
      have hpadded := (digits_zeros (places + 1 - digits.length)).append
        (digits_toDigits _ : Digits digits)
      refine unbroken_append_iff.mpr ⟨unbroken_append_iff.mpr ⟨hsign _, ?_⟩, ?_⟩
      · exact (hpadded.take _).unbroken
      · split
        · decide
        · exact unbroken_append_iff.mpr ⟨by decide, (hpadded.drop _).unbroken⟩

end Number

namespace Json

theorem hexDigit_ne_lineFeed {n : ℕ} (hn : n < 16) : hexDigit n ≠ '\n' := by
  revert n
  decide

-- A line feed is written by a letter, and no other character is written with one.
theorem lineFeed_notMem_escapeChar (c : Char) : '\n' ∉ escapeChar c := by
  by_cases hc : c = '\n'
  · rw [hc]
    decide
  · unfold escapeChar
    split_ifs
    -- the characters that are written by number, and those that stand as they are
    rotate_left 6
    · have hhigh := hexDigit_ne_lineFeed (n := c.toNat / 16) (by omega)
      have hlow := hexDigit_ne_lineFeed (n := c.toNat % 16) (by omega)
      simp [hhigh.symm, hlow.symm]
    · simpa using Ne.symm hc
    all_goals decide

theorem unbroken_quote (s : String) : Unbroken (quote s) := by
  have hbody : '\n' ∉ s.toList.flatMap escapeChar := by
    rw [List.mem_flatMap]
    rintro ⟨c, _, hc⟩
    exact lineFeed_notMem_escapeChar c hc
  rw [Unbroken, quote, String.toList_ofList]
  simp [hbody]

theorem Number.unbroken_text (n : Number) : Unbroken n.text := by
  by_cases hn : n.IsFinite
  · exact fun h => Bool.false_ne_true (isPlain_text hn _ h)
  · cases n with
    | int n => exact absurd trivial hn
    | double x =>
      have htext : (double x).text = "null" := if_neg hn
      rw [htext]
      decide

theorem lineFeed_notMem_intercalate {parts : List (List Char)} (h : ∀ part ∈ parts, '\n' ∉ part) :
    '\n' ∉ [','].intercalate parts := by
  cases parts with
  | nil => simp
  | cons part parts =>
    rw [intercalate_cons_eq_flatMap]
    simpa using h

-- A value is written on one line, whatever keys and texts are in it.
theorem Value.unbroken_text (v : Value) : Unbroken v.text := by
  induction v using inductionOnParts with
  | null => decide
  | bool b => cases b <;> decide
  | number n => exact n.unbroken_text
  | string s => exact unbroken_quote s
  | array items ih =>
    have hitems := lineFeed_notMem_intercalate (List.forall_mem_map.mpr ih)
    rw [Unbroken, toList_text_array]
    simp [hitems]
  | object fields ih =>
    have hfields : ∀ f ∈ fields, '\n' ∉ (quote f.1).toList ++ ':' :: f.2.text.toList := by
      intro f hf
      have hkey := unbroken_quote f.1
      have hvalue := ih f hf
      rw [Unbroken] at hkey hvalue
      simp [hkey, hvalue]
    have hparts := lineFeed_notMem_intercalate (List.forall_mem_map.mpr hfields)
    rw [Unbroken, toList_text_object]
    simp [hparts]

end Json

namespace Report

open Duplicates Number Scan

variable (report : Duplicates.Report Float) {summary : Summary}

section Rendered

def Piece.text : Piece → String
  | .plain text => text
  | .styled _ text => text

def Line.text (line : Line) : String := String.join (line.map Piece.text)

@[simp]
theorem Line.text_nil : Line.text [] = "" := rfl

@[simp]
theorem Line.text_cons (p : Piece) (line : Line) :
    Line.text (p :: line) = p.text ++ Line.text line := String.join_cons

theorem Piece.render_false (p : Piece) : p.render false = p.text := by
  cases p <;> rfl

theorem Line.render_false (line : Line) : Line.render false line = line.text ++ "\n" := by
  rw [Line.render, Line.text, List.map_congr_left fun p _ => p.render_false]

theorem render_false (summary : Summary) (milliseconds : String) :
    render false report summary milliseconds =
      String.join (((lines report summary milliseconds).map Line.text).map (· ++ "\n")) := by
  rw [render, List.map_map, List.map_congr_left fun line _ => line.render_false]
  rfl

end Rendered

section Items

-- Where an occurrence is, with its line if that is known.
def place (o : Occurrence) : String :=
  match o.line with
  | some line => o.file.text ++ ":" ++ toString line
  | none => o.file.text

-- A group: its number and what its members are like, then each of its places.
def groupItems (number : ℕ) (g : Duplicates.Group Float) : List String :=
  ("  [" ++ toString number ++ "] " ++ title g.representative ++ "  " ++
    percentText 1 g.similarity) ::
    g.occurrences.map fun o => "      " ++ place o ++ "  " ++ o.locator.text

-- A category: what it is, then its groups, numbered from one.
def categoryItems (category : Category) (groups : List (Duplicates.Group Float)) : List String :=
  ["", heading category ++ " (" ++ plural groups.length "group" ++ ")"] ++
    (groups.zipIdx 1).flatMap fun numbered => groupItems numbered.2 numbered.1

-- The categories that something is found in.
def shown (report : Duplicates.Report Float) : List Category :=
  Category.all.filter fun c => !(report.groups c).isEmpty

-- What is said in a report on a scan without warnings, one item after the other.
def items (report : Duplicates.Report Float) (summary : Summary) (milliseconds : ℕ) :
    List String :=
  ["Scanned " ++ toString summary.codeFiles ++ " code files and " ++
    toString summary.resourceFiles ++ " resource files under " ++ summary.root ++ " in " ++
    toString milliseconds ++ " ms"] ++
  (if report.isEmpty then ["", "No duplicates found."] else []) ++
  (shown report).flatMap (fun c => categoryItems c (report.groups c)) ++
  ["", "Summary: " ++ plural report.total "duplicate group" ++ ", " ++
    toString summary.functions ++ " functions, " ++ toString summary.components ++ " components"]

theorem text_occurrenceLine (o : Occurrence) :
    (occurrenceLine o).text = "      " ++ place o ++ "  " ++ o.locator.text := by
  have hline : occurrenceLine o =
      [.plain ("      " ++ place o ++ "  "), .styled .dim o.locator.text] := by
    rw [occurrenceLine, place]
    cases o.line <;> rfl
  simp [hline, Piece.text]

theorem map_text_groupLines (number : ℕ) (g : Duplicates.Group Float) :
    (groupLines number g).map Line.text = groupItems number g := by
  have hplaces : (g.occurrences.map occurrenceLine).map Line.text =
      g.occurrences.map fun o => "      " ++ place o ++ "  " ++ o.locator.text := by
    rw [List.map_map]
    exact List.map_congr_left fun o _ => text_occurrenceLine o
  rw [groupLines, groupItems, List.map_cons, hplaces]
  simp only [Line.text_cons, Line.text_nil, Piece.text, String.append_empty, String.append_assoc]
  rfl

theorem map_text_groupsLines (number : ℕ) (groups : List (Duplicates.Group Float)) :
    (groupsLines number groups).map Line.text =
      (groups.zipIdx number).flatMap fun numbered => groupItems numbered.2 numbered.1 := by
  induction groups generalizing number with
  | nil => rfl
  | cons g rest ih =>
    rw [groupsLines, List.map_append, ih, map_text_groupLines, List.zipIdx_cons, List.flatMap_cons]

theorem map_text_categoryLines (category : Category) (groups : List (Duplicates.Group Float)) :
    (categoryLines category groups).map Line.text =
      if groups.isEmpty then [] else categoryItems category groups := by
  unfold categoryLines
  split
  · rfl
  · rw [List.map_append, map_text_groupsLines, categoryItems]
    simp [Piece.text, String.append_assoc]

theorem map_text_categories :
    (Category.all.flatMap fun c => categoryLines c (report.groups c)).map Line.text =
      (shown report).flatMap fun c => categoryItems c (report.groups c) := by
  rw [List.map_flatMap, shown]
  simp only [map_text_categoryLines]
  induction Category.all with
  | nil => rfl
  | cons c cs ih =>
    rw [List.flatMap_cons, ih, List.filter_cons]
    cases (report.groups c).isEmpty <;> rfl

theorem map_text_lines (milliseconds : ℕ) (hwarnings : summary.warnings = []) :
    (lines report summary (toString milliseconds)).map Line.text =
      items report summary milliseconds := by
  have hempty : (if report.isEmpty then [[], [.styled .green "No duplicates found."]] else []).map
      Line.text = if report.isEmpty then ["", "No duplicates found."] else [] := by
    cases report.isEmpty <;> rfl
  rw [lines, items, hwarnings]
  simp only [List.map_append, map_text_categories, hempty]
  simp only [List.map_cons, List.map_nil, Line.text_cons, Line.text_nil, Piece.text,
    String.append_empty, String.append_assoc, warningLines, List.isEmpty_nil, ite_true,
    List.append_nil]
  rfl

theorem render_eq_join_items (milliseconds : ℕ) (hwarnings : summary.warnings = []) :
    render false report summary (toString milliseconds) =
      String.join ((items report summary milliseconds).map (· ++ "\n")) := by
  rw [render_false, map_text_lines report milliseconds hwarnings]

theorem lines_render (milliseconds : ℕ) (hwarnings : summary.warnings = []) :
    Text.lines (render false report summary (toString milliseconds)) =
      (items report summary milliseconds).flatMap pieces := by
  rw [render_eq_join_items report milliseconds hwarnings, lines_join]

end Items

section Counts

-- How many items there are for a category in which groups were found.
def categoryCount (groups : List (Duplicates.Group Float)) : ℕ :=
  2 + (groups.map fun g => 1 + g.occurrences.length).sum

def itemCount (report : Duplicates.Report Float) : ℕ :=
  3 + (if report.isEmpty then 2 else 0) +
    ((shown report).map fun c => categoryCount (report.groups c)).sum

-- What does not depend on the numbers of the groups.
theorem map_zipIdx_groupItems {β : Type} {f : List String → β} {f' : Duplicates.Group Float → β}
    (h : ∀ number g, f (groupItems number g) = f' g) (groups : List (Duplicates.Group Float)) :
    ((groups.zipIdx 1).map fun numbered => f (groupItems numbered.2 numbered.1)) =
      groups.map f' := by
  calc (groups.zipIdx 1).map (fun numbered => f (groupItems numbered.2 numbered.1))
      = (groups.zipIdx 1).map (f' ∘ Prod.fst) := List.map_congr_left fun numbered _ => h _ _
    _ = groups.map f' := by rw [← List.map_map, List.zipIdx_map_fst]

theorem length_groupItems (number : ℕ) (g : Duplicates.Group Float) :
    (groupItems number g).length = 1 + g.occurrences.length := by
  rw [groupItems, List.length_cons, List.length_map, Nat.add_comm]

theorem length_categoryItems (category : Category) (groups : List (Duplicates.Group Float)) :
    (categoryItems category groups).length = categoryCount groups := by
  rw [categoryItems, List.length_append, List.length_flatMap,
    map_zipIdx_groupItems length_groupItems]
  rfl

theorem length_items (summary : Summary) (milliseconds : ℕ) :
    (items report summary milliseconds).length = itemCount report := by
  have hempty : (if report.isEmpty then ["", "No duplicates found."] else []).length =
      if report.isEmpty then 2 else 0 := by
    split <;> rfl
  simp only [items, itemCount, List.length_append, List.length_flatMap, length_categoryItems,
    hempty, List.length_cons, List.length_nil]
  omega

end Counts

section Names

-- The texts that stand in a title as they are.
def titleNames : Representative Float → List String
  | .function name _ => [name]
  | .component name _ _ => [name]
  | .module _ => []
  | .value _ => []

def locatorNames : Locator → List String
  | .function name => [name]
  | .keyPath path => [path]
  | .component name => [name]
  | .module => []

def groupNames (g : Duplicates.Group Float) : List String :=
  titleNames g.representative ++ g.occurrences.flatMap fun o => o.file.text :: locatorNames o.locator

-- All texts that stand in a report as they are, whatever characters are in them.
def names (report : Duplicates.Report Float) : List String :=
  (shown report).flatMap fun c => (report.groups c).flatMap groupNames

theorem lineFeeds_toString (n : ℕ) : lineFeeds (toString n) = 0 :=
  lineFeeds_of_unbroken (unbroken_toString n)

theorem lineFeeds_fixedPlaces (places : ℕ) (x : Float) : lineFeeds (fixedPlaces places x) = 0 :=
  lineFeeds_of_unbroken (unbroken_fixedPlaces places x)

theorem lineFeeds_percentText (places : ℕ) (score : Float) :
    lineFeeds (percentText places score) = 0 := by
  rw [percentText, lineFeeds_append, lineFeeds_fixedPlaces]
  rfl

theorem lineFeeds_plural (count : ℕ) {noun : String} (h : Unbroken noun) :
    lineFeeds (plural count noun) = 0 := by
  have hmany : s!"{count} {noun}s" = toString count ++ " " ++ noun ++ "s" := rfl
  have hone : s!"1 {noun}" = "1 " ++ noun := rfl
  rw [plural, hone, hmany]
  split
  · rw [lineFeeds_append, lineFeeds_of_unbroken h]
    rfl
  · simp only [lineFeeds_append, lineFeeds_toString, lineFeeds_of_unbroken h]
    rfl

theorem unbroken_truncate {text : String} (h : Unbroken text) (most : ℕ) :
    Unbroken (truncate text most) := by
  unfold truncate
  split
  · exact h
  · refine unbroken_append_iff.mpr ⟨?_, by decide⟩
    rw [Unbroken, String.toList_ofList]
    exact fun hmem => h (List.mem_of_mem_take hmem)

theorem lineFeeds_title (r : Representative Float) :
    lineFeeds (title r) = breaks (titleNames r) := by
  cases r with
  | function name shape =>
    have hcount : lineFeeds (plural shape.length "statement") = 0 :=
      lineFeeds_plural _ (by decide)
    simp only [title, lineFeeds_append, hcount]
    rfl
  | module percent =>
    rw [title, lineFeeds_append, lineFeeds_fixedPlaces]
    rfl
  | value value => exact lineFeeds_of_unbroken (unbroken_truncate value.unbroken_text _)
  | component name props element =>
    have htitle : title (.component name props element) =
      name ++ " (props " ++ percentText 0 props ++ ", jsx " ++ percentText 0 element ++ ")" := rfl
    simp only [htitle, lineFeeds_append, lineFeeds_percentText]
    rfl

theorem lineFeeds_locator (l : Locator) : lineFeeds l.text = breaks (locatorNames l) := by
  -- what stands before a name has no line feed
  have hnamed (kind name : String) (h : Unbroken kind) :
      lineFeeds (kind ++ name) = breaks [name] := by
    rw [lineFeeds_append, lineFeeds_of_unbroken h, Nat.zero_add]
    rfl
  cases l with
  | function name => exact hnamed "function " name (by decide)
  | component name => exact hnamed "component " name (by decide)
  | module => rfl
  | keyPath path =>
    rw [Locator.text]
    split
    · next hpath =>
      rw [hpath]
      rfl
    · exact hnamed "key " path (by decide)

theorem lineFeeds_place (o : Occurrence) : lineFeeds (place o) = lineFeeds o.file.text := by
  unfold place
  cases o.line with
  | none => rfl
  | some line =>
    simp only [lineFeeds_append, lineFeeds_toString]
    rfl

theorem breaks_groupItems (number : ℕ) (g : Duplicates.Group Float) :
    breaks (groupItems number g) = breaks (groupNames g) := by
  have hplaces : breaks (g.occurrences.map fun o => "      " ++ place o ++ "  " ++ o.locator.text) =
      breaks (g.occurrences.flatMap fun o => o.file.text :: locatorNames o.locator) := by
    rw [breaks_flatMap, breaks, List.map_map]
    congr 1
    refine List.map_congr_left fun o _ => ?_
    simp (disch := decide) only [Function.comp_apply, lineFeeds_append, lineFeeds_of_unbroken,
      lineFeeds_place, lineFeeds_locator, breaks_cons, Nat.zero_add, Nat.add_zero]
  rw [groupItems, breaks_cons, hplaces, groupNames, breaks_append, ← lineFeeds_title]
  simp (disch := decide) only [lineFeeds_append, lineFeeds_of_unbroken, lineFeeds_toString,
    lineFeeds_percentText, Nat.zero_add, Nat.add_zero]

theorem breaks_categoryItems (category : Category) (groups : List (Duplicates.Group Float)) :
    breaks (categoryItems category groups) = breaks (groups.flatMap groupNames) := by
  have hheading : Unbroken (heading category) := by
    cases category <;> decide
  rw [categoryItems, breaks_append, breaks_flatMap, map_zipIdx_groupItems breaks_groupItems,
    ← breaks_flatMap]
  simp (disch := decide) only [breaks_cons, breaks_nil, lineFeeds_append,
    lineFeeds_of_unbroken hheading, lineFeeds_plural, lineFeeds_of_unbroken, Nat.zero_add]

theorem breaks_items (milliseconds : ℕ) (hroot : Unbroken summary.root) :
    breaks (items report summary milliseconds) = breaks (names report) := by
  have hempty : breaks (if report.isEmpty then ["", "No duplicates found."] else []) = 0 := by
    split <;> rfl
  have hgroups : breaks ((shown report).flatMap fun c => categoryItems c (report.groups c)) =
      breaks (names report) := by
    rw [breaks_flatMap, names, breaks_flatMap]
    simp only [breaks_categoryItems]
  rw [items, breaks_append, breaks_append, breaks_append, hempty, hgroups]
  simp (disch := decide) only [breaks_cons, breaks_nil, lineFeeds_append, lineFeeds_toString,
    lineFeeds_of_unbroken hroot, lineFeeds_plural, lineFeeds_of_unbroken, Nat.zero_add,
    Nat.add_zero]

end Names

-- Without colours and warnings, a report is made of its items, each followed by a line feed, and
-- has a line for each item and one for each line feed in a name, a file or a key path. So its lines
-- are its items just when there is no line feed in any of those.
theorem render_lines (report : Duplicates.Report Float) (summary : Summary) (milliseconds : ℕ)
    (hwarnings : summary.warnings = []) (hroot : Unbroken summary.root) :
    render false report summary (toString milliseconds) =
      String.join ((items report summary milliseconds).map (· ++ "\n")) ∧
    (items report summary milliseconds).length = itemCount report ∧
    (Text.lines (render false report summary (toString milliseconds))).length =
      itemCount report + breaks (names report) ∧
    (Text.lines (render false report summary (toString milliseconds)) =
      items report summary milliseconds ↔ ∀ name ∈ names report, Unbroken name) := by
  refine ⟨render_eq_join_items report milliseconds hwarnings,
    length_items report summary milliseconds, ?_, ?_⟩
  · rw [lines_render report milliseconds hwarnings, length_flatMap_pieces, length_items,
      breaks_items report milliseconds hroot]
  · rw [lines_render report milliseconds hwarnings, flatMap_pieces_eq_self_iff,
      breaks_items report milliseconds hroot, breaks_eq_zero_iff]

-- Two documents have one value under a key.
def foundTwice (key : String) : Duplicates.Report Float :=
  ⟨[], [], [⟨.resources, "", .value (.string "some text"), 1.0,
    ["a.json", "b.json"].map fun file => ⟨file, .keyPath key, none⟩⟩], []⟩

def twoDocuments : Summary := ⟨".", 1, 0, 2, 0, 0, 0, 0, 1, 0, []⟩

theorem render_lines_foundTwice : twoDocuments.warnings = [] ∧ Unbroken twoDocuments.root ∧
    (Text.lines (render false (foundTwice "ab") twoDocuments (toString 0))).length = 8 ∧
    Text.lines (render false (foundTwice "ab") twoDocuments (toString 0)) =
      items (foundTwice "ab") twoDocuments 0 := by
  have hroot : Unbroken twoDocuments.root := by decide
  have hnames : ∀ name ∈ names (foundTwice "ab"), Unbroken name := by decide
  obtain ⟨_, _, hlength, hlines⟩ := render_lines (foundTwice "ab") twoDocuments 0 rfl hroot
  exact ⟨rfl, hroot, hlength, hlines.mpr hnames⟩

-- A line feed in the key goes on on a line of its own, in each of the two places.
theorem render_lines_brokenKey : twoDocuments.warnings = [] ∧ Unbroken twoDocuments.root ∧
    itemCount (foundTwice "a\nb") = 8 ∧
    (Text.lines (render false (foundTwice "a\nb") twoDocuments (toString 0))).length = 10 := by
  have hroot : Unbroken twoDocuments.root := by decide
  refine ⟨rfl, hroot, rfl, ?_⟩
  rw [lines_render (foundTwice "a\nb") 0 rfl, length_flatMap_pieces, length_items,
    breaks_items (foundTwice "a\nb") 0 hroot]
  rfl

end Report

end Likeness
