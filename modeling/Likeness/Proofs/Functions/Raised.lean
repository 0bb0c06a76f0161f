import Likeness.Proofs.Functions.Shown

namespace Likeness

open Duplicates Number ShapedFunction Syntax

namespace Function

-- Whether a function is a block with fewer statements than a minimum. An expression never is.
def isShort (least : ℕ) (f : Function) : Bool :=
  match f.body with
  | some body => body.hasKind .statementBlock && decide (body.parts.length < least)
  | none => false

end Function

-- A higher minimum leaves out what is short for it, and changes no shape.
theorem Shape.ofFunction?_raise {least higher : ℕ} (h : least ≤ higher) (f : Function) :
    ofFunction? higher f = if f.isShort higher then none else ofFunction? least f := by
  cases hbody : f.body with
  | none => simp [ofFunction?, Function.isShort, hbody]
  | some body =>
    simp only [ofFunction?, Function.isShort, hbody, Option.bind_some, ofBody?, List.length_map]
    cases body.hasKind .statementBlock with
    | false => rfl
    | true =>
      by_cases hshort : body.parts.length < higher
      · simp [hshort]
      · have hlong : ¬body.parts.length < least := by omega
        simp [hshort, hlong]

namespace ShapedFunction

section Described

variable (files : List (Files.Path × Source)) {least higher : ℕ}

-- The functions of some files that have a shape, one file after the other.
def ofFiles (least : ℕ) : List ShapedFunction := files.flatMap fun file => all file.2 file.1 least

-- The same, each beside the function that it describes.
def described (least : ℕ) : List (Function × ShapedFunction) :=
  files.flatMap fun file => (Function.all file.2).filterMap fun f =>
    (Shape.ofFunction? least f).map fun shape => (f, ⟨file.1, f.name, f.line, shape⟩)

theorem map_snd_described (least : ℕ) :
    (described files least).map Prod.snd = ofFiles files least := by
  simp only [described, ofFiles, all, List.map_flatMap, List.map_filterMap, Option.map_map]
  rfl

-- Whether a function has a shape under a higher minimum as well.
def stays (higher : ℕ) (p : Function × ShapedFunction) : Bool := !p.1.isShort higher

theorem described_raise (h : least ≤ higher) :
    described files higher = (described files least).filter (stays higher) := by
  rw [described, described, List.filter_flatMap]
  refine List.flatMap_congr fun file _ => ?_
  rw [List.filter_filterMap]
  refine List.filterMap_congr fun f _ => ?_
  rw [Shape.ofFunction?_raise h]
  cases hshort : f.isShort higher <;> cases Shape.ofFunction? least f <;>
    simp [stays, hshort, Option.filter]

end Described

-- The functions with names that have one digest.
def membersOf (digest : String) (ps : List (Function × ShapedFunction)) :
    List (Function × ShapedFunction) :=
  ps.filter fun p => p.2.name ≠ "" ∧ p.2.digest = digest

theorem digest_of_mem_membersOf {digest : String} {ps : List (Function × ShapedFunction)}
    {p : Function × ShapedFunction} (h : p ∈ membersOf digest ps) : p.2.digest = digest := by
  have htest := List.of_mem_filter h
  exact (of_decide_eq_true htest).2

theorem ofDigest_named (digest : String) (ps : List (Function × ShapedFunction)) :
    ofDigest digest (named (ps.map Prod.snd)) = (membersOf digest ps).map Prod.snd := by
  rw [ofDigest, named, List.filter_filter, List.filter_map, membersOf]
  refine congrArg (List.map Prod.snd) (List.filter_congr fun p _ => ?_)
  simp [Bool.and_comm]

theorem membersOf_filter (digest : String) (test : Function × ShapedFunction → Bool)
    (ps : List (Function × ShapedFunction)) :
    membersOf digest (ps.filter test) = (membersOf digest ps).filter test := List.filter_comm ..

end ShapedFunction

namespace FunctionIndex

variable {α : Type} [Scalar α]

-- Whether a group is the one of some functions of one digest, at least two of them.
def IsGroupOf (fs : List ShapedFunction) (g : Duplicates.Group α) : Prop :=
  ∃ first second others, fs = first :: second :: others ∧ g = groupOf first second others

section Groups

variable {fs : List ShapedFunction} {g : Duplicates.Group α}

theorem IsGroupOf.two_le_length (h : IsGroupOf fs g) : 2 ≤ fs.length := by
  obtain ⟨first, second, others, rfl, -⟩ := h
  simp

theorem exists_isGroupOf (h : 2 ≤ fs.length) : ∃ g : Duplicates.Group α, IsGroupOf fs g := by
  rcases fs with _ | ⟨first, _ | ⟨second, others⟩⟩
  · simp at h
  · simp at h
  · exact ⟨groupOf first second others, first, second, others, rfl, rfl⟩

theorem IsGroupOf.occurrences_eq (h : IsGroupOf fs g) : g.occurrences = places fs := by
  obtain ⟨first, second, others, rfl, rfl⟩ := h
  rfl

theorem places_of_nodup (h : (fs.map fun f => f.occurrence.site).Nodup) :
    places fs = fs.map occurrence := by
  rw [places, Occurrence.distinct_eq_self]
  rwa [List.map_map]

theorem IsGroupOf.site_mem_iff (h : IsGroupOf fs g) (site : Files.Steps × Locator) :
    site ∈ g.occurrences.map Occurrence.site ↔ ∃ f ∈ fs, f.occurrence.site = site := by
  rw [h.occurrences_eq, places, Occurrence.mem_site_distinct, List.map_map, List.mem_map]
  rfl

theorem IsGroupOf.nodup_sites (h : IsGroupOf fs g) : (g.occurrences.map Occurrence.site).Nodup := by
  rw [h.occurrences_eq]
  exact Occurrence.nodup_sites _

theorem IsGroupOf.key_eq (h : IsGroupOf fs g) {key : String} (hkey : ∀ f ∈ fs, f.digest = key) :
    g.key = key := by
  obtain ⟨first, second, others, rfl, rfl⟩ := h
  exact hkey second (by simp)

-- What is shown of some functions: the group of each digest, if it is in two places or more.
theorem mem_view_feed_iff_isGroupOf [OrderedScalar α] (fs : List ShapedFunction)
    (g : Duplicates.Group α) : g ∈ (feed fs).2.view .functions ↔
      IsGroupOf (ofDigest g.key (named fs)) g ∧ g.isDuplicate = true := by
  rw [mem_view_feed_iff]
  refine and_congr_left fun _ => ?_
  rcases ofDigest g.key (named fs) with _ | ⟨first, _ | ⟨second, others⟩⟩
  · simp [IsGroupOf, repeats, gather]
  · simp [IsGroupOf, repeats, gather]
  · rw [gather_repeats, Option.some.injEq]
    constructor
    · rintro rfl
      exact ⟨first, second, others, rfl, rfl⟩
    · rintro ⟨_, _, _, hfs, rfl⟩
      cases hfs
      rfl

end Groups

-- What is left of a group where only some of its functions stay: the group of those. A place is
-- left if one of its functions stays; it has the line of the first one that does.
structure Restricts (stay : Function × ShapedFunction → Bool)
    (members : List (Function × ShapedFunction)) (g g' : Duplicates.Group α) : Prop where
  key_eq : g'.key = g.key
  whole : IsGroupOf (members.map Prod.snd) g
  rest : IsGroupOf ((members.filter stay).map Prod.snd) g'
  site_mem_iff (site : Files.Steps × Locator) : site ∈ g'.occurrences.map Occurrence.site ↔
    site ∈ g.occurrences.map Occurrence.site ∧
      ∃ p ∈ members, stay p = true ∧ p.2.occurrence.site = site
  sublist : (members.map fun p => p.2.occurrence.site).Nodup →
    g'.occurrences.Sublist g.occurrences

section Restricts

variable {stay : Function × ShapedFunction → Bool} {members : List (Function × ShapedFunction)}
  {g g' : Duplicates.Group α} {key : String}

theorem restricts_of_isGroupOf (hmembers : ∀ p ∈ members, p.2.digest = key)
    (hwhole : IsGroupOf (members.map Prod.snd) g)
    (hrest : IsGroupOf ((members.filter stay).map Prod.snd) g') : Restricts stay members g g' := by
  refine ⟨?_, hwhole, hrest, fun site => ?_, fun hnodup => ?_⟩
  · rw [hwhole.key_eq (List.forall_mem_map.mpr hmembers),
      hrest.key_eq (List.forall_mem_map.mpr fun p hp => hmembers p (List.mem_of_mem_filter hp))]
  · rw [hrest.site_mem_iff, hwhole.site_mem_iff]
    simp only [List.mem_map, List.mem_filter]
    grind
  · have hsites : ((members.map Prod.snd).map fun f => f.occurrence.site).Nodup := by
      rwa [List.map_map]
    have hsub : ((members.filter stay).map Prod.snd).Sublist (members.map Prod.snd) :=
      List.filter_sublist.map _
    rw [hrest.occurrences_eq, hwhole.occurrences_eq, places_of_nodup hsites,
      places_of_nodup (hsites.sublist (hsub.map _))]
    exact hsub.map _

theorem exists_restricts (hmembers : ∀ p ∈ members, p.2.digest = key)
    (hrest : IsGroupOf ((members.filter stay).map Prod.snd) g') :
    ∃ g : Duplicates.Group α, Restricts stay members g g' := by
  have hsub : ((members.filter stay).map Prod.snd).Sublist (members.map Prod.snd) :=
    List.filter_sublist.map _
  obtain ⟨g, hwhole⟩ := exists_isGroupOf (α := α) (hrest.two_le_length.trans hsub.length_le)
  exact ⟨g, restricts_of_isGroupOf hmembers hwhole hrest⟩

end Restricts

variable [OrderedScalar α]

-- What is shown of some files under a minimum.
def shownUnder (files : List (Files.Path × Source)) (least : ℕ) : List (Duplicates.Group α) :=
  (feed (ofFiles files least)).2.view .functions

theorem mem_shownUnder_iff (files : List (Files.Path × Source)) (least : ℕ)
    (g : Duplicates.Group α) : g ∈ shownUnder files least ↔
      IsGroupOf ((membersOf g.key (described files least)).map Prod.snd) g ∧
        g.isDuplicate = true := by
  rw [shownUnder, ← map_snd_described, mem_view_feed_iff_isGroupOf, ofDigest_named]

-- A higher minimum only takes functions away: those whose block is too short for it. What is shown
-- then are groups that were shown before, without these functions.
theorem raised_minimum_restricts (files : List (Files.Path × Source)) {least higher : ℕ}
    (h : least ≤ higher) :
    (∀ n, (described files n).map Prod.snd = ofFiles files n) ∧
      described files higher = (described files least).filter (stays higher) ∧
      ∀ g' ∈ (shownUnder files higher : List (Duplicates.Group α)),
        ∃ g ∈ shownUnder files least,
          Restricts (stays higher) (membersOf g.key (described files least)) g g' := by
  refine ⟨map_snd_described files, described_raise files h, fun g' hg' => ?_⟩
  obtain ⟨hrest, hduplicate⟩ := (mem_shownUnder_iff files higher g').mp hg'
  rw [described_raise files h, membersOf_filter] at hrest
  obtain ⟨g, hg⟩ := exists_restricts (fun p hp => digest_of_mem_membersOf hp) hrest
  obtain ⟨s, hs, t, ht, hne⟩ := exists_sites_of_isDuplicate hrest.nodup_sites hduplicate
  have hshown : g.isDuplicate = true :=
    isDuplicate_of_sites hne ((hg.site_mem_iff s).mp hs).1 ((hg.site_mem_iff t).mp ht).1
  have hkey := hg.key_eq
  refine ⟨g, (mem_shownUnder_iff files least g).mpr ⟨?_, hshown⟩, ?_⟩
  · rw [← hkey]
    exact hg.whole
  · rw [← hkey]
    exact hg

-- Three functions of one shape. Only the block of the first one can be too short.
def oneLiners : List (Files.Path × Source) :=
  [("a.ts", "function f(){x}var g=x=>x"), ("b.ts", "var h=y=>y")].filterMap fun file =>
    (Source.parse? .typeScript file.2).map fun s => (file.1, s)

theorem raised_minimum_restricts_first :
    let shown (least : ℕ) : List (Duplicates.Group Float) := shownUnder oneLiners least
    1 ≤ 2 ∧ ((shown 1).map fun g => g.occurrences.map (·.locator)) =
        [[.function "f", .function "g", .function "h"]] ∧
      ((shown 2).map fun g => g.occurrences.map (·.locator)) = [[.function "g", .function "h"]] ∧
      (described oneLiners 2 = (described oneLiners 1).filter (stays 2) ∧
        ∀ g' ∈ shown 2, ∃ g ∈ shown 1,
          Restricts (stays 2) (membersOf g.key (described oneLiners 1)) g g') := by
  intro shown
  have h : 1 ≤ 2 := by decide
  exact ⟨h, by decide +kernel, by decide +kernel, (raised_minimum_restricts oneLiners h).2⟩

end FunctionIndex

end Likeness
