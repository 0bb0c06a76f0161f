import Likeness.Components.Compare
import Likeness.Proofs.Components.Id
import Likeness.Proofs.Duplicates.Separate
import Likeness.Proofs.Lists
import Likeness.Proofs.Pairs

namespace Likeness

open Duplicates Number Syntax

namespace Components

-- A pair of components without an order.
def idPair (pair : Component × Component) : String × String := ordered pair.1.id pair.2.id

theorem ne_of_nodup_ids {cs : List Component} (h : (cs.map Component.id).Nodup) :
    ∀ pair ∈ orderedPairs cs, pair.1.id ≠ pair.2.id := by
  intro pair hpair
  rw [List.Nodup, List.pairwise_map, List.pairwise_iff_forall_sublist] at h
  exact h ((mem_orderedPairs_iff pair.1 pair.2 cs).mp hpair)

-- Components of different ids make pairs of different ids.
theorem nodup_idPairs {cs : List Component} (h : (cs.map Component.id).Nodup) :
    ((orderedPairs cs).map idPair).Nodup := by
  have hpairs := nodup_ordered h
  rw [map_orderedPairs, List.map_map] at hpairs
  exact hpairs

variable {α : Type} [Scalar α]

-- The pairs that are counted: their score is not below the threshold.
def similar (o : ComponentOptions α) (cs : List Component) : List (Component × Component) :=
  (orderedPairs cs).filter fun pair => !Scalar.lt (compare o pair.1 pair.2).overall o.threshold

-- What is found for a pair that is counted.
def pairFinding (o : ComponentOptions α) (pair : Component × Component) : Finding α :=
  let scores := compare o pair.1 pair.2
  ⟨.components, pairKey pair.1.id pair.2.id, .component pair.1.name scores.props scores.element,
    scores.overall, [occurrence pair.1, occurrence pair.2]⟩

theorem findings_eq (o : ComponentOptions α) (cs : List Component) :
    findings o cs = (similar o cs).map (pairFinding o) := filterMap_eq_map_filter _ _ _

-- The group of two components alone.
def pairGroup (o : ComponentOptions α) (pair : Component × Component) : Duplicates.Group α :=
  let scores := compare o pair.1 pair.2
  ⟨.components, pairKey pair.1.id pair.2.id, .component pair.1.name scores.props scores.element,
    Scalar.limit scores.overall, [occurrence pair.1, occurrence pair.2]⟩

theorem isDuplicate_pairFinding (o : ComponentOptions α) (pair : Component × Component) :
    (pairFinding o pair).group.isDuplicate = true ↔
      (occurrence pair.1).site ≠ (occurrence pair.2).site := by
  by_cases h : (occurrence pair.1).site = (occurrence pair.2).site
  · simp [Finding.group, pairFinding, Group.isDuplicate, Group.size, h,
      Occurrence.distinct_pair_of_eq h]
  · simp [Finding.group, pairFinding, Group.isDuplicate, Group.size, h,
      Occurrence.distinct_pair_of_ne h]

theorem group_pairFinding (o : ComponentOptions α) {pair : Component × Component}
    (h : (occurrence pair.1).site ≠ (occurrence pair.2).site) :
    (pairFinding o pair).group = pairGroup o pair := by
  rw [Finding.group, pairFinding, pairGroup, Occurrence.distinct_pair_of_ne h]

section Counted

variable {o : ComponentOptions α} {cs : List Component}

theorem mem_of_mem_similar {pair : Component × Component} (h : pair ∈ similar o cs) :
    pair.1 ∈ cs ∧ pair.2 ∈ cs := by
  have hsub := (mem_orderedPairs_iff pair.1 pair.2 cs).mp (List.mem_of_mem_filter h)
  exact ⟨hsub.mem (by simp), hsub.mem (by simp)⟩

theorem category_of_mem_findings : ∀ f ∈ findings o cs, f.category = .components := by
  rw [findings_eq, List.forall_mem_map]
  exact fun pair _ => rfl

theorem nodup_keys_findings_iff (hnull : ∀ c ∈ cs, NullFree c.id)
    (hdigest :
      Digest.CollisionFree ((similar o cs).map fun pair => pairBytes pair.1.id pair.2.id)) :
    ((findings o cs).map (·.key)).Nodup ↔ ((similar o cs).map idPair).Nodup := by
  let first (pair : Component × Component) : String := pair.1.id
  let second (pair : Component × Component) : String := pair.2.id
  rw [findings_eq, List.map_map]
  refine nodup_pairKeys_iff first second (fun pair hpair => ?_) hdigest
  exact ⟨hnull _ (mem_of_mem_similar hpair).1, hnull _ (mem_of_mem_similar hpair).2⟩

-- The place of a component is known by its file and its name.
theorem isDuplicate_findings_iff
    (hsites : ∀ c ∈ cs, ∀ d ∈ cs,
      (occurrence c).site = (occurrence d).site ↔ c.file = d.file ∧ c.name = d.name) :
    (∀ f ∈ findings o cs, f.group.isDuplicate = true) ↔
      ∀ pair ∈ similar o cs, ¬(pair.1.file = pair.2.file ∧ pair.1.name = pair.2.name) := by
  rw [findings_eq, List.forall_mem_map]
  refine forall₂_congr fun pair hpair => ?_
  obtain ⟨hfirst, hsecond⟩ := mem_of_mem_similar hpair
  rw [isDuplicate_pairFinding, ne_eq, hsites _ hfirst _ hsecond]

-- What is shown where the pairs that are counted have two places each, and no two have the same
-- ids.
theorem view_findings
    (hsites : ∀ c ∈ cs, ∀ d ∈ cs,
      (occurrence c).site = (occurrence d).site ↔ c.file = d.file ∧ c.name = d.name)
    (hkeys : ((findings o cs).map (·.key)).Nodup)
    (hplaces : ∀ pair ∈ similar o cs, ¬(pair.1.file = pair.2.file ∧ pair.1.name = pair.2.name)) :
    (Registry.empty.recordAll (findings o cs)).view .components =
      (similar o cs).map (pairGroup o) := by
  have hshown := (isDuplicate_findings_iff hsites).mpr hplaces
  rw [Registry.view_eq category_of_mem_findings (by decide) hkeys hshown, findings_eq,
    List.map_map]
  refine List.map_congr_left fun pair hpair => group_pairFinding o ?_
  obtain ⟨hfirst, hsecond⟩ := mem_of_mem_similar hpair
  rw [ne_eq, hsites _ hfirst _ hsecond]
  exact hplaces pair hpair

end Counted

section Files

variable {files : List (Files.Path × Source)}

theorem plainName_of_mem
    (hparsed : ∀ file ∈ files, ∃ dialect text, Source.parse? dialect text = some file.2) :
    ∀ c ∈ Component.ofFiles files, PlainName c.name := by
  intro c hc
  obtain ⟨file, hfile, hmem⟩ := List.mem_flatMap.mp hc
  obtain ⟨f, hf, hname⟩ := Component.name_of_mem_all hmem
  obtain ⟨dialect, text, hparse⟩ := hparsed file hfile
  rw [hname]
  exact Function.plainName_of_mem_all (Source.plain_parse? hparse) hf

theorem nullFree_id (hnull : ∀ file ∈ files, NullFree file.1.text)
    (hnames : ∀ c ∈ Component.ofFiles files, PlainName c.name) :
    ∀ c ∈ Component.ofFiles files, NullFree c.id := by
  intro c hc
  obtain ⟨file, hfile, hmem⟩ := List.mem_flatMap.mp hc
  have hpath : NullFree c.file.text := by
    rw [Component.file_of_mem_all hmem]
    exact hnull file hfile
  rw [NullFree, Component.id_toList, List.mem_append, List.mem_cons]
  rintro (h | h | h)
  · exact hpath h
  · exact absurd h (by decide)
  · exact (hnames c hc).nullFree h

theorem site_occurrence_iff (hfiles : (files.map (·.1.steps)).Nodup) :
    ∀ c ∈ Component.ofFiles files, ∀ d ∈ Component.ofFiles files,
      (occurrence c).site = (occurrence d).site ↔ c.file = d.file ∧ c.name = d.name := by
  intro c hc d hd
  obtain ⟨file, hfile, hmem⟩ := List.mem_flatMap.mp hc
  obtain ⟨other, hother, hmem'⟩ := List.mem_flatMap.mp hd
  simp only [Occurrence.site, occurrence, Prod.mk.injEq, Locator.component.injEq]
  refine and_congr_left fun _ => ⟨fun h => ?_, fun h => by rw [h]⟩
  rw [Component.file_of_mem_all hmem, Component.file_of_mem_all hmem'] at h ⊢
  rw [List.inj_on_of_nodup_map hfiles hfile hother h]

end Files

-- The ids of components are unique just when the names in each file are, and no name is in two
-- files that are shown alike. What is counted is shown, one group for each pair, just when each pair
-- that is counted has two places, and ids that no other one has. So it is if ids are unique.
theorem findings_shown (files : List (Files.Path × Source)) (o : ComponentOptions α)
    (hfiles : (files.map (·.1.steps)).Nodup)
    (hnull : ∀ file ∈ files, NullFree file.1.text)
    (hparsed : ∀ file ∈ files, ∃ dialect text, Source.parse? dialect text = some file.2)
    (hdigest : Digest.CollisionFree
      ((similar o (Component.ofFiles files)).map fun pair => pairBytes pair.1.id pair.2.id)) :
    let cs := Component.ofFiles files
    let shown := (Registry.empty.recordAll (findings o cs)).view .components
    ((cs.map Component.id).Nodup ↔
        (∀ file ∈ files, ((Component.all file.2 file.1).map (·.name)).Nodup) ∧
          files.Pairwise fun file other => file.1.text = other.1.text →
            ((Component.all file.2 file.1).map (·.name)).Disjoint
              ((Component.all other.2 other.1).map (·.name))) ∧
      ((findings o cs).length = shown.length ↔
        (∀ pair ∈ similar o cs, ¬(pair.1.file = pair.2.file ∧ pair.1.name = pair.2.name)) ∧
          ((similar o cs).map idPair).Nodup) ∧
      ((findings o cs).length = shown.length → shown = (similar o cs).map (pairGroup o)) ∧
      ((cs.map Component.id).Nodup → (findings o cs).length = shown.length) := by
  intro cs shown
  have hplain := plainName_of_mem hparsed
  have hsites := site_occurrence_iff hfiles
  have hkeys := nodup_keys_findings_iff (nullFree_id hnull hplain) hdigest
  have hlength : (findings o cs).length = shown.length ↔
      (∀ pair ∈ similar o cs, ¬(pair.1.file = pair.2.file ∧ pair.1.name = pair.2.name)) ∧
        ((similar o cs).map idPair).Nodup := by
    rw [eq_comm, Registry.length_view_eq_iff category_of_mem_findings, hkeys,
      isDuplicate_findings_iff hsites, and_comm]
  refine ⟨Component.nodup_ids_iff hplain, hlength, fun heq => ?_, fun hids => ?_⟩
  · obtain ⟨hplaces, hpairs⟩ := hlength.mp heq
    exact view_findings hsites (hkeys.mpr hpairs) hplaces
  · have hsub : (similar o cs).Sublist (orderedPairs cs) := List.filter_sublist
    refine hlength.mpr ⟨fun pair hpair hplace => ?_,
      (nodup_idPairs hids).sublist (hsub.map idPair)⟩
    refine ne_of_nodup_ids hids pair (hsub.mem hpair) ?_
    rw [Component.id, Component.id, hplace.1, hplace.2]

-- Two functions with one name, each inside of another one.
def nested : String := "var A=x=>{var I=y=><b/>},B=x=>{var I=y=><b/>}"

theorem counted_not_shown_nested :
    ((Source.parse? .tsx nested).map fun s =>
      let cs := Component.ofFiles [("a.tsx", s)]
      let found := findings (α := Float) .standard cs
      (cs.map Component.id, found.length,
        ((Registry.empty.recordAll found).view .components).length)) =
      some (["a.tsx#I", "a.tsx#I"], 1, 0) := by
  decide +kernel

def besides : List (Files.Path × Source) :=
  ((Source.parse? .tsx "var I=x=><b/>,J=y=><b/>").map fun s => (↑"a.tsx", s)).toList

theorem findings_shown_besides :
    (besides.map (·.1.steps)).Nodup ∧
      (∀ file ∈ besides, ∃ dialect text, Source.parse? dialect text = some file.2) ∧
      (findings (α := Float) .standard (Component.ofFiles besides)).length = 1 ∧
      ((Registry.empty.recordAll
        (findings (α := Float) .standard (Component.ofFiles besides))).view .components).length =
        1 := by
  have hfiles : (besides.map (·.1.steps)).Nodup := by decide +kernel
  have hparsed : ∀ file ∈ besides, ∃ dialect text, Source.parse? dialect text = some file.2 := by
    intro file hfile
    obtain ⟨s, hs, rfl⟩ := Option.map_eq_some_iff.mp (Option.mem_toList.mp hfile)
    exact ⟨_, _, hs⟩
  have hcount : (findings (α := Float) .standard (Component.ofFiles besides)).length = 1 := by
    decide +kernel
  have hdigest : Digest.CollisionFree ((similar (α := Float) .standard
      (Component.ofFiles besides)).map fun pair => pairBytes pair.1.id pair.2.id) := by
    have hone : (similar (α := Float) .standard (Component.ofFiles besides)).length = 1 := by
      rwa [findings_eq, List.length_map] at hcount
    obtain ⟨pair, hpair⟩ := List.length_eq_one_iff.mp hone
    rw [hpair]
    intro a ha b hb _
    exact (List.mem_singleton.mp ha).trans (List.mem_singleton.mp hb).symm
  obtain ⟨-, -, -, hshown⟩ := findings_shown (α := Float) besides .standard hfiles
    (by decide +kernel) hparsed hdigest
  refine ⟨hfiles, hparsed, hcount, ?_⟩
  rw [← hcount, ← hshown (by decide +kernel)]

end Components

end Likeness
