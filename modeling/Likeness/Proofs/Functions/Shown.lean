import Likeness.Proofs.Duplicates.View
import Likeness.Proofs.Functions.Groups

namespace Likeness

open Duplicates Number ShapedFunction

namespace Duplicates

theorem Occurrence.distinct_cons_self (o : Occurrence) (ps : List Occurrence) :
    distinct (o :: o :: ps) = distinct (o :: ps) := by
  rw [distinct_cons, distinct_cons, List.filter_cons_of_neg (by simp [sameSite_iff])]

-- A place may be given again before each of the others.
theorem Occurrence.distinct_backfilled (o : Occurrence) (ps : List Occurrence) :
    distinct (o :: ps.flatMap fun p => [o, p]) = distinct (o :: ps) := by
  induction ps using List.reverseRecOn with
  | nil => rfl
  | append_singleton ps p ih =>
    have hagain : distinct (o :: ps ++ [o]) = distinct (o :: ps) :=
      distinct_concat_of_mem _ o (by simp)
    calc distinct (o :: (ps ++ [p]).flatMap fun p => [o, p])
        = distinct ((o :: ps.flatMap fun p => [o, p]) ++ [o, p]) := by simp
      _ = distinct (o :: ps ++ [o, p]) := distinct_append_congr ih _
      _ = distinct (o :: ps ++ [o] ++ [p]) := by simp
      _ = distinct (o :: ps ++ [p]) := distinct_append_congr hagain _

variable {α : Type} [Scalar α] [OrderedScalar α]

theorem Group.raise_one : raise (Scalar.one : α) Scalar.one = Scalar.one := by
  rw [raise, Scalar.limit_one, Scalar.lt_self, if_neg Bool.false_ne_true]

end Duplicates

namespace FunctionIndex

variable {α : Type} [Scalar α]

-- Whether the functions of a list have one shape if they have one digest.
def Apart (fs : List ShapedFunction) : Prop :=
  ∀ f ∈ fs, ∀ g ∈ fs, f.digest = g.digest → f.shape = g.shape

instance (fs : List ShapedFunction) : Decidable (Apart fs) := by unfold Apart; infer_instance

theorem Apart.ofDigest_eq {fs : List ShapedFunction} (h : Apart fs) {f : ShapedFunction}
    (hf : f ∈ fs) : ofDigest f.digest fs = ofShape f.shape fs := by
  refine List.filter_congr fun g hg => ?_
  rw [decide_eq_decide]
  exact ⟨h g hg f hf, congrArg Shape.digest⟩

-- The group of a shape, made of its functions in the order they are added.
def groupOf (first second : ShapedFunction) (others : List ShapedFunction) : Duplicates.Group α :=
  ⟨.functions, second.digest, .function first.name second.shape, Scalar.one,
    places (first :: second :: others)⟩

theorem foldl_raise_found [OrderedScalar α] (first : ShapedFunction)
    (others : List ShapedFunction) :
    ((others.map (found (α := α) first)).map (·.similarity)).foldl Duplicates.Group.raise Scalar.one =
      Scalar.one := by
  induction others with
  | nil => rfl
  | cons f others ih =>
    have hscore : (found (α := α) first f).similarity = Scalar.one := rfl
    rw [List.map_cons, List.map_cons, List.foldl_cons, hscore, Duplicates.Group.raise_one, ih]

-- The first function is put before each of the others; that leaves it in its place.
theorem gather_repeats [OrderedScalar α] (first second : ShapedFunction)
    (others : List ShapedFunction) :
    gather (repeats (first :: second :: others) : List (Finding α)) =
      some (groupOf first second others) := by
  have hscore : (found (α := α) first second).similarity = Scalar.one := rfl
  have hplaces : Occurrence.distinct
      ((found (α := α) first second :: others.map (found first)).flatMap (·.occurrences)) =
      places (first :: second :: others) := by
    have h := Occurrence.distinct_backfilled first.occurrence
      ((second :: others).map occurrence)
    rw [List.flatMap_map, List.flatMap_cons, List.cons_append, Occurrence.distinct_cons_self] at h
    rw [places, List.map_cons, ← h, List.flatMap_cons, List.flatMap_map]
    rfl
  rw [repeats, List.map_cons, gather, hscore, Scalar.limit_one, foldl_raise_found, hplaces]
  rfl

-- What is shown of functions with names: a group for each shape that is in two places or more.
structure Shows (fs : List ShapedFunction) (shown : List (Duplicates.Group α)) : Prop where
  nodup_keys : (shown.map (·.key)).Nodup
  mem_iff (g : Duplicates.Group α) : g ∈ shown ↔ ∃ first second others,
    ofShape first.shape fs = first :: second :: others ∧
      1 < (places (first :: second :: others)).length ∧ g = groupOf first second others
  nodup_sites : ∀ g ∈ shown, (g.occurrences.map Occurrence.site).Nodup
  -- a place is in the group of a shape just when a function of that shape is there
  mem_site_iff : ∀ g ∈ shown, ∀ name shape, g.representative = .function name shape →
    ∀ site, site ∈ g.occurrences.map Occurrence.site ↔
      ∃ f ∈ fs, f.shape = shape ∧ f.occurrence.site = site

theorem mem_view_feed_iff (fs : List ShapedFunction) (g : Duplicates.Group α) :
    g ∈ (feed fs).2.view .functions ↔
      gather (repeats (ofDigest g.key (named fs))) = some g ∧ g.isDuplicate = true := by
  obtain ⟨log, hfed, hregistry⟩ := fed_feed (α := α) fs
  have hfollows := Registry.follows_of_category hfed.category_eq
  rw [← hregistry] at hfollows
  change g ∈ ((feed fs).2.shelf .functions).groups.filter Group.isDuplicate ↔ _
  rw [List.mem_filter, hfollows.mem_groups_iff, hfed.ofKey_eq]

theorem nodup_keys_view_feed (fs : List ShapedFunction) :
    (((feed fs).2.view .functions : List (Duplicates.Group α)).map (·.key)).Nodup := by
  obtain ⟨log, -, hregistry⟩ := fed_feed (α := α) fs
  rw [hregistry]
  exact Registry.nodup_keys_view log .functions

-- A function is found again just when it has a name and one before it had a name and its shape.
theorem isSome_insert_iff {fs : List ShapedFunction} (h : Apart (named fs))
    (before after : List ShapedFunction) (f : ShapedFunction) (hfs : fs = before ++ f :: after) :
    ((feed (α := α) before).1.insert (α := α) f).2.isSome = true ↔
      f.name ≠ "" ∧ ∃ g ∈ named before, g.shape = f.shape := by
  obtain ⟨log, hfed, -⟩ := fed_feed (α := α) before
  by_cases hname : f.name = ""
  · simp [FunctionIndex.insert, hname]
  · have hdigest : ∀ g ∈ named before, g.digest = f.digest ↔ g.shape = f.shape := by
      intro g hg
      refine ⟨h g ?_ f ?_, congrArg Shape.digest⟩
      · exact (hfs ▸ (List.sublist_append_left before (f :: after)).filter _).mem hg
      · simp [hfs, named, hname]
    have hknown : ((feed (α := α) before).1.find? f.digest).isSome = true ↔
        ∃ g ∈ named before, g.digest = f.digest := by
      simp [hfed.find?_eq, ofDigest_eq_nil_iff]
    have hshape : (∃ g ∈ named before, g.digest = f.digest) ↔
        ∃ g ∈ named before, g.shape = f.shape :=
      exists_congr fun g => and_congr_right (hdigest g)
    rw [insert_eq _ f hname, ← hshape, ← hknown]
    cases (feed (α := α) before).1.find? f.digest <;> simp [hname]

theorem size_feed {fs : List ShapedFunction} (h : Apart (named fs)) :
    (feed (α := α) fs).1.size = ((named fs).map (·.shape)).eraseDups.length := by
  obtain ⟨log, hfed, -⟩ := fed_feed (α := α) fs
  have hdigests : (named fs).map digest = ((named fs).map (·.shape)).map Shape.digest := by
    rw [List.map_map]
    rfl
  rw [size, ← List.length_map (·.1), hfed.digests_eq, hdigests, map_eraseDups, List.length_map]
  exact List.forall_mem_map.mpr fun f hf => List.forall_mem_map.mpr fun g hg => h f hf g hg

variable [OrderedScalar α]

-- Two functions of one digest are shown together, whatever else is added.
theorem shownTogether_view_feed {fs : List ShapedFunction} {f f' : ShapedFunction}
    (hf : f ∈ named fs) (hf' : f' ∈ named fs) (hdigest : f.digest = f'.digest)
    (hne : f.occurrence.site ≠ f'.occurrence.site) :
    ShownTogether ((feed fs).2.view .functions : List (Duplicates.Group α))
      f.occurrence f'.occurrence := by
  have hmem : f ∈ ofDigest f.digest (named fs) := by simp [ofDigest, hf]
  have hmem' : f' ∈ ofDigest f.digest (named fs) := by simp [ofDigest, hf', hdigest]
  rcases hof : ofDigest f.digest (named fs) with _ | ⟨first, _ | ⟨second, others⟩⟩
  · simp [hof] at hmem
  · rw [hof, List.mem_singleton] at hmem hmem'
    exact absurd (by rw [hmem, hmem']) hne
  · have hkey : second.digest = f.digest := by
      have hsecond : second ∈ ofDigest f.digest (named fs) := by simp [hof]
      simpa using List.of_mem_filter hsecond
    have hsite {x : ShapedFunction} (hx : x ∈ first :: second :: others) : x.occurrence.site ∈
        (groupOf (α := α) first second others).occurrences.map Occurrence.site := by
      rw [groupOf, places, Occurrence.mem_site_distinct]
      exact List.mem_map_of_mem (List.mem_map_of_mem hx)
    rw [hof] at hmem hmem'
    refine ⟨hne, groupOf first second others, ?_, hsite hmem, hsite hmem'⟩
    rw [mem_view_feed_iff]
    change gather (repeats (ofDigest second.digest _)) = _ ∧ _
    rw [hkey, hof, gather_repeats]
    exact ⟨rfl, isDuplicate_of_sites hne (hsite hmem) (hsite hmem')⟩

theorem mem_view_feed_iff_groupOf {fs : List ShapedFunction} (h : Apart (named fs))
    (g : Duplicates.Group α) :
    g ∈ (feed fs).2.view .functions ↔ ∃ first second others,
      ofShape first.shape (named fs) = first :: second :: others ∧
        1 < (places (first :: second :: others)).length ∧ g = groupOf first second others := by
  rw [mem_view_feed_iff]
  constructor
  · rintro ⟨hgather, hshown⟩
    rcases hof : ofDigest g.key (named fs) with _ | ⟨first, _ | ⟨second, others⟩⟩
    · simp [hof, repeats, gather] at hgather
    · simp [hof, repeats, gather] at hgather
    · rw [hof, gather_repeats, Option.some.injEq] at hgather
      have hfirst : first ∈ ofDigest g.key (named fs) := by simp [hof]
      obtain ⟨hmem, hdigest⟩ : first ∈ named fs ∧ first.digest = g.key := by
        simpa [ofDigest] using hfirst
      refine ⟨first, second, others, ?_, ?_, hgather.symm⟩
      · rw [← h.ofDigest_eq hmem, hdigest, hof]
      · simpa [← hgather, groupOf, Group.isDuplicate, Group.size] using hshown
  · rintro ⟨first, second, others, hof, hplaces, rfl⟩
    have hfirst : first ∈ ofShape first.shape (named fs) := by simp [hof]
    have hsecond : second ∈ ofShape first.shape (named fs) := by simp [hof]
    have hkey : (groupOf (α := α) first second others).key = first.digest :=
      congrArg Shape.digest (by simpa using List.of_mem_filter hsecond)
    rw [hkey, h.ofDigest_eq (List.mem_of_mem_filter hfirst), hof, gather_repeats]
    exact ⟨rfl, decide_eq_true hplaces⟩

theorem shows_view_feed {fs : List ShapedFunction} (h : Apart (named fs)) :
    Shows (named fs) ((feed fs).2.view .functions : List (Duplicates.Group α)) := by
  refine ⟨nodup_keys_view_feed fs, mem_view_feed_iff_groupOf h, fun g hg => ?_,
    fun g hg name shape hrepresentative site => ?_⟩
  · obtain ⟨first, second, others, -, -, rfl⟩ := (mem_view_feed_iff_groupOf h g).mp hg
    exact Occurrence.nodup_sites _
  · obtain ⟨first, second, others, hof, -, rfl⟩ := (mem_view_feed_iff_groupOf h g).mp hg
    have hsecond : second ∈ ofShape first.shape (named fs) := by simp [hof]
    have hshape : first.shape = shape := by
      have hs : second.shape = first.shape := by simpa using List.of_mem_filter hsecond
      rw [groupOf, Representative.function.injEq] at hrepresentative
      rw [← hs, hrepresentative.2]
    rw [groupOf, places, Occurrence.mem_site_distinct, ← hof, hshape]
    simp [ofShape, and_assoc]

-- The groups of functions are sound and complete, as long as shapes that are told apart have
-- different digests.
theorem feed_sound_complete (fs : List ShapedFunction) (h : Apart (named fs)) :
    (∀ before f after, fs = before ++ f :: after →
      (((feed (α := α) before).1.insert (α := α) f).2.isSome = true ↔
        f.name ≠ "" ∧ ∃ g ∈ named before, g.shape = f.shape)) ∧
      (feed (α := α) fs).1.size = ((named fs).map (·.shape)).eraseDups.length ∧
      Shows (named fs) ((feed (α := α) fs).2.view .functions) :=
  ⟨fun before f after hfs => isSome_insert_iff h before after f hfs, size_feed h,
    shows_view_feed h⟩

def repeated : List ShapedFunction :=
  [⟨"a.ts", "f", 1, ["return"]⟩, ⟨"a.ts", "g", 5, ["declaration", "return"]⟩,
    ⟨"b.ts", "h", 2, ["return"]⟩]

theorem feed_sound_complete_repeated :
    Apart (named repeated) ∧ (feed (α := Float) repeated).1.size = 2 ∧
      Shows (named repeated) ((feed (α := Float) repeated).2.view .functions) := by
  have h : Apart (named repeated) := by decide +kernel
  obtain ⟨-, hsize, hshows⟩ := feed_sound_complete (α := Float) repeated h
  exact ⟨h, hsize.trans (by decide), hshows⟩

end FunctionIndex

end Likeness
