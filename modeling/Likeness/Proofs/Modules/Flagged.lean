import Likeness.Proofs.Duplicates.PairKey
import Likeness.Proofs.Duplicates.Separate
import Likeness.Proofs.Files.Decoded
import Likeness.Proofs.Lists
import Likeness.Proofs.Modules.Common
import Likeness.Proofs.Number.Counts
import Likeness.Proofs.Pairs

namespace Likeness

open Duplicates Number

namespace Module

variable {a b : Module}

-- A set has no more members in common with another one than either has.
theorem shared_le (ha : a.bodies.Nodup) :
    2 * (a.bodies.filter b.bodies.contains).length ≤ a.bodies.length + b.bodies.length := by
  have hfirst : (a.bodies.filter b.bodies.contains).length ≤ a.bodies.length :=
    List.length_filter_le _ _
  have hsubset : a.bodies.filter b.bodies.contains ⊆ b.bodies := by
    intro body hbody
    simpa using (List.mem_filter.mp hbody).2
  have hsecond := ((ha.filter _).subperm hsubset).length_le
  omega

-- A score is 0 or a share of a whole.
theorem similarity_cases (ha : a.bodies.Nodup) :
    (similarity a b : Float) = Scalar.zero ∨
      ∃ m n, 0 < m ∧ m ≤ n ∧ (similarity a b : Float) = Scalar.ofNat m / Scalar.ofNat n := by
  unfold similarity
  dsimp only
  split
  · exact .inl rfl
  · rename_i hcompared
    have htotal : 0 < a.bodies.length + b.bodies.length :=
      Nat.pos_of_ne_zero fun hzero => hcompared (by simp [hzero])
    rcases Nat.eq_zero_or_pos (2 * (a.bodies.filter b.bodies.contains).length) with hnone | hsome
    · rw [hnone]
      exact .inl (zero_div_ofNat _ htotal)
    · exact .inr ⟨_, _, hsome, shared_le ha, rfl⟩

theorem limit_similarity (ha : a.bodies.Nodup) :
    Scalar.limit (similarity a b : Float) = similarity a b := by
  rcases similarity_cases (b := b) ha with hzero | ⟨m, n, hm, hmn, hshare⟩
  · rw [hzero]
    decide
  · rw [hshare]
    exact limit_share hmn (hm.trans_le hmn)

theorem isNumber_percent (ha : a.bodies.Nodup) :
    Scalar.isNumber (percent (similarity a b : Float)) = true := by
  have hfinite : (similarity a b : Float).isFinite = true := by
    rcases similarity_cases (b := b) ha with hzero | ⟨m, n, hm, hmn, hshare⟩
    · rw [hzero]
      decide
    · obtain ⟨r, j, hr, hunpack, -⟩ := unpack_share hm hmn
      rw [hshare]
      change (_ : Float).toModel.unpack.isFinite = true
      rw [hunpack]
      rfl
  exact isNumber_div_ofNat (isNumber_nearestWhole (isNumber_mul hfinite (isFinite_ofNat 1000)))
    (by decide)

-- Rounding and comparing leave no pair undecided.
theorem not_lt_percent_iff {cutoff : Float} (ha : a.bodies.Nodup)
    (hcutoff : Scalar.lt Scalar.zero cutoff = true) :
    Scalar.lt (percent (similarity a b)) cutoff = false ↔
      Scalar.le cutoff (percent (similarity a b)) = true := by
  have hnumber := (OrderedScalar.isNumber_of_le _ _ (Scalar.le_of_lt hcutoff)).2
  refine ⟨Scalar.le_of_not_lt (isNumber_percent ha) hnumber, fun h => ?_⟩
  rw [Scalar.lt, h, Bool.not_true, Bool.and_false]

end Module

namespace Modules

section Findings

variable {α : Type} [Scalar α]

-- The pairs of places whose modules reach the cutoff.
def flagged (cutoff : α) (modules : List Module) : List (Fin modules.length × Fin modules.length) :=
  (ascendingPairs modules.length).filter fun pair =>
    !Scalar.lt (Module.percent (Module.similarity modules[pair.1] modules[pair.2])) cutoff

theorem filterMap_finding?_eq (cutoff : α) (modules : List Module) :
    (orderedPairs modules).filterMap (finding? cutoff) =
      (flagged cutoff modules).map fun pair =>
        pairFinding (modules[pair.1], modules[pair.2]) := by
  rw [orderedPairs_eq_map_ascendingPairs, List.filterMap_map, flagged]
  exact filterMap_eq_map_filter _ _ _

end Findings

-- The group of two modules alone.
def pairGroup (pair : Module × Module) : Duplicates.Group Float :=
  let score := Module.similarity pair.1 pair.2
  ⟨.modules, pairKey pair.1.file.text pair.2.file.text, .module (Module.percent score), score,
    [⟨pair.1.file, .module, none⟩, ⟨pair.2.file, .module, none⟩]⟩

theorem group_pairFinding {pair : Module × Module} (hbodies : pair.1.bodies.Nodup)
    (hfiles : pair.1.file.steps ≠ pair.2.file.steps) :
    (pairFinding pair).group = pairGroup pair := by
  have hsites : (⟨pair.1.file, .module, none⟩ : Occurrence).site ≠
      (⟨pair.2.file, .module, none⟩ : Occurrence).site :=
    fun h => hfiles (congrArg Prod.fst h)
  rw [Finding.group, pairFinding, pairGroup, Occurrence.distinct_pair_of_ne hsites,
    Module.limit_similarity hbodies]

-- The names of two modules as they are shown, without an order.
def shownNames (pair : Module × Module) : String × String :=
  ordered pair.1.file.text pair.2.file.text

section Shown

variable {modules : List Module} {cutoff : Float}

theorem mem_flagged_iff (hbodies : ∀ m ∈ modules, m.bodies.Nodup)
    (hcutoff : Scalar.lt Scalar.zero cutoff = true) (i j : Fin modules.length) :
    (i, j) ∈ flagged cutoff modules ↔ i < j ∧
      Scalar.le cutoff (Module.percent (Module.similarity modules[i] modules[j])) = true := by
  rw [flagged, List.mem_filter, mem_ascendingPairs_iff, Bool.not_eq_true']
  exact and_congr_right fun _ =>
    Module.not_lt_percent_iff (hbodies _ (List.getElem_mem _)) hcutoff

-- The modules of flagged pairs are among the pairs of modules, in the same order.
theorem map_flagged_sublist (modules : List Module) (cutoff : Float) :
    ((flagged cutoff modules).map fun pair => (modules[pair.1], modules[pair.2])).Sublist
      (orderedPairs modules) := by
  rw [orderedPairs_eq_map_ascendingPairs]
  exact List.filter_sublist.map _

-- Findings fall together just when the names of their modules are shown alike.
theorem nodup_keys_flagged_iff (hnull : ∀ m ∈ modules, NullFree m.file.text)
    (hdigest : Digest.CollisionFree
      ((orderedPairs modules).map fun pair => pairBytes pair.1.file.text pair.2.file.text)) :
    (((orderedPairs modules).filterMap (finding? cutoff)).map (·.key)).Nodup ↔
      ((flagged cutoff modules).map fun pair =>
        shownNames (modules[pair.1], modules[pair.2])).Nodup := by
  let first (pair : Fin modules.length × Fin modules.length) : String := modules[pair.1].file.text
  let second (pair : Fin modules.length × Fin modules.length) : String := modules[pair.2].file.text
  have hsublist := (map_flagged_sublist modules cutoff).map fun pair =>
    pairBytes pair.1.file.text pair.2.file.text
  rw [List.map_map] at hsublist
  have hflagged : Digest.CollisionFree
      ((flagged cutoff modules).map fun pair => pairBytes (first pair) (second pair)) :=
    fun a ha b hb => hdigest a (hsublist.subset ha) b (hsublist.subset hb)
  rw [filterMap_finding?_eq, List.map_map]
  exact nodup_pairKeys_iff first second
    (fun pair _ => ⟨hnull _ (List.getElem_mem _), hnull _ (List.getElem_mem _)⟩) hflagged

theorem nodup_shownNames_of_nodup_texts (h : (modules.map (·.file.text)).Nodup) :
    ((flagged cutoff modules).map fun pair =>
      shownNames (modules[pair.1], modules[pair.2])).Nodup := by
  have hordered := nodup_ordered h
  rw [map_orderedPairs, List.map_map] at hordered
  have hsublist := (map_flagged_sublist modules cutoff).map shownNames
  rw [List.map_map] at hsublist
  exact hordered.sublist hsublist

-- Names that are texts are shown as they are.
theorem nodup_texts_of_forall_text (hfiles : (modules.map (·.file.steps)).Nodup)
    (h : ∀ m ∈ modules, ∃ name : String, m.file = name) : (modules.map (·.file.text)).Nodup := by
  rw [List.Nodup, List.pairwise_map] at hfiles ⊢
  refine hfiles.imp_of_mem fun {m n} hm hn hne htext => hne ?_
  obtain ⟨name, hname⟩ := h m hm
  obtain ⟨other, hother⟩ := h n hn
  rw [hname, hother, Files.Path.text_ofText, Files.Path.text_ofText] at htext
  rw [hname, hother, htext]

theorem share_of_mem_flagged (hcutoff : Scalar.lt Scalar.zero cutoff = true)
    {pair : Fin modules.length × Fin modules.length} (h : pair ∈ flagged cutoff modules) :
    modules[pair.1].parsed = true ∧ modules[pair.2].parsed = true ∧
      modules[pair.1].Share modules[pair.2] := by
  have hreached := (List.mem_filter.mp h).2
  rw [Bool.not_eq_true'] at hreached
  exact share_of_finding? hcutoff (finding?_eq_some_iff.mpr ⟨hreached, rfl⟩)

theorem steps_ne_of_mem_flagged (hfiles : (modules.map (·.file.steps)).Nodup)
    {pair : Fin modules.length × Fin modules.length} (h : pair ∈ flagged cutoff modules) :
    modules[pair.1].file.steps ≠ modules[pair.2].file.steps := by
  have hlt := (mem_ascendingPairs_iff pair.1 pair.2).mp (List.mem_of_mem_filter h)
  rw [List.Nodup, List.pairwise_map, List.pairwise_iff_getElem] at hfiles
  exact hfiles pair.1 pair.2 pair.1.isLt pair.2.isLt hlt

-- What is found has its two places in two files that are understood.
theorem steps_ne_of_unparsed (hcutoff : Scalar.lt Scalar.zero cutoff = true)
    (hfiles : (modules.map (·.file.steps)).Nodup) {f : Finding Float}
    (hf : f ∈ (orderedPairs modules).filterMap (finding? cutoff))
    {m : Module} (hm : m ∈ modules) (hunparsed : m.parsed = false) :
    ∀ o ∈ f.occurrences, o.file.steps ≠ m.file.steps := by
  rw [filterMap_finding?_eq] at hf
  obtain ⟨pair, hpair, rfl⟩ := List.mem_map.mp hf
  obtain ⟨hfirst, hsecond, -⟩ := share_of_mem_flagged hcutoff hpair
  have hother {n : Module} (hn : n ∈ modules) (hparsed : n.parsed = true) :
      n.file.steps ≠ m.file.steps := by
    intro hsame
    rw [List.inj_on_of_nodup_map hfiles hn hm hsame, hunparsed] at hparsed
    cases hparsed
  intro o ho
  rcases List.mem_pair.mp ho with rfl | rfl
  · exact hother (List.getElem_mem _) hfirst
  · exact hother (List.getElem_mem _) hsecond

theorem category_of_mem_findings :
    ∀ f ∈ (orderedPairs modules).filterMap (finding? cutoff), f.category = .modules := by
  rw [filterMap_finding?_eq, List.forall_mem_map]
  exact fun pair _ => rfl

-- What was found of other categories before does not matter.
theorem view_append {earlier : List (Finding Float)}
    (hearlier : ∀ f ∈ earlier, f.category ≠ .modules) :
    (Registry.empty.recordAll
        (earlier ++ (orderedPairs modules).filterMap (finding? cutoff))).view .modules =
      (Registry.empty.recordAll ((orderedPairs modules).filterMap (finding? cutoff))).view
        .modules := by
  rw [← Registry.view_ofCategory, ofCategory_append hearlier category_of_mem_findings]

-- Each flagged pair has its own group just when no two of them have the same two names.
theorem view_eq_pairGroups_iff (cutoff : Float) (hfiles : (modules.map (·.file.steps)).Nodup)
    (hnull : ∀ m ∈ modules, NullFree m.file.text) (hbodies : ∀ m ∈ modules, m.bodies.Nodup)
    (hdigest : Digest.CollisionFree
      ((orderedPairs modules).map fun pair => pairBytes pair.1.file.text pair.2.file.text)) :
    (Registry.empty.recordAll ((orderedPairs modules).filterMap (finding? cutoff))).view .modules =
        ((flagged cutoff modules).map fun pair => pairGroup (modules[pair.1], modules[pair.2])) ↔
      ((flagged cutoff modules).map fun pair =>
        shownNames (modules[pair.1], modules[pair.2])).Nodup := by
  have hfound := filterMap_finding?_eq cutoff modules
  have hgroup : ∀ pair ∈ flagged cutoff modules,
      (pairFinding (modules[pair.1], modules[pair.2])).group =
        pairGroup (modules[pair.1], modules[pair.2]) := fun pair hpair =>
    group_pairFinding (hbodies _ (List.getElem_mem _)) (steps_ne_of_mem_flagged hfiles hpair)
  have hshown :
      ∀ f ∈ (orderedPairs modules).filterMap (finding? cutoff), f.group.isDuplicate = true := by
    rw [hfound, List.forall_mem_map]
    intro pair hpair
    rw [hgroup pair hpair]
    rfl
  rw [← nodup_keys_flagged_iff hnull hdigest]
  constructor
  · intro hview
    refine ((Registry.length_view_eq_iff category_of_mem_findings).mp ?_).1
    rw [hview, hfound, List.length_map, List.length_map]
  · intro hkeys
    rw [Registry.view_eq category_of_mem_findings (by decide) hkeys hshown, hfound, List.map_map]
    exact List.map_congr_left hgroup

end Shown

-- Each pair of modules that reaches the cutoff is counted. The groups are those of the pairs, in
-- their order, just when no two pairs have the same two names as names are shown. So it is where
-- all names are shown differently, which names that are texts are. What is not understood is in no
-- group, and what was recorded of other categories before does not matter. File names are told
-- apart as places in groups are: two spellings of one path are one name.
theorem compare_exact (modules : List Module) (cutoff : Float) (guard : Scan.MemoryGuard)
    (earlier : List (Finding Float)) (hearlier : ∀ f ∈ earlier, f.category ≠ .modules)
    (hfiles : (modules.map (·.file.steps)).Nodup)
    (hnull : ∀ m ∈ modules, NullFree m.file.text) (hbodies : ∀ m ∈ modules, m.bodies.Nodup)
    (hcutoff : Scalar.lt Scalar.zero cutoff = true)
    (hguard : guard.check = none ∨ (orderedPairs modules).length < checkInterval)
    (hdigest : Digest.CollisionFree
      ((orderedPairs modules).map fun pair => pairBytes pair.1.file.text pair.2.file.text)) :
    let found := (compare modules cutoff guard).1
    let shown := (Registry.empty.recordAll (earlier ++ found)).view .modules
    (compare modules cutoff guard).2 = none ∧
      ∃ pairs : List (Fin modules.length × Fin modules.length),
        pairs.Pairwise (fun p q => p.1 < q.1 ∨ p.1 = q.1 ∧ p.2 < q.2) ∧
        (∀ i j, (i, j) ∈ pairs ↔ i < j ∧
          Scalar.le cutoff (Module.percent (Module.similarity modules[i] modules[j])) = true) ∧
        found.length = pairs.length ∧
        ((shown = pairs.map fun pair => pairGroup (modules[pair.1], modules[pair.2])) ↔
          (pairs.map fun pair => shownNames (modules[pair.1], modules[pair.2])).Nodup) ∧
        ((modules.map (·.file.text)).Nodup →
          shown = pairs.map fun pair => pairGroup (modules[pair.1], modules[pair.2])) ∧
        ((∀ m ∈ modules, ∃ name : String, m.file = name) →
          (modules.map (·.file.text)).Nodup) ∧
        (∀ pair ∈ pairs, modules[pair.1].Share modules[pair.2]) ∧
        ∀ m ∈ modules, m.parsed = false →
          ∀ g ∈ shown, ∀ o ∈ g.occurrences, o.file.steps ≠ m.file.steps := by
  intro found shown
  have hcompletes := compare_completes hguard cutoff
  have hfound : found = (orderedPairs modules).filterMap (finding? cutoff) :=
    congrArg Prod.fst (compare_eq hcompletes)
  have hview : shown = (Registry.empty.recordAll
      ((orderedPairs modules).filterMap (finding? cutoff))).view .modules := by
    rw [← view_append hearlier, ← hfound]
  have hexact := view_eq_pairGroups_iff cutoff hfiles hnull hbodies hdigest
  rw [← hview] at hexact
  refine ⟨hcompletes, flagged cutoff modules, (pairwise_ascendingPairs _).filter _,
    mem_flagged_iff hbodies hcutoff, ?_, hexact,
    fun htexts => hexact.mpr (nodup_shownNames_of_nodup_texts htexts),
    nodup_texts_of_forall_text hfiles, ?_, ?_⟩
  · rw [hfound, filterMap_finding?_eq, List.length_map]
  · intro pair hpair
    exact (share_of_mem_flagged hcutoff hpair).2.2
  · intro m hm hunparsed g hg o ho
    obtain ⟨f, hf, ⟨p, hp, hsite⟩, -⟩ := Registry.exists_finding_of_mem_view (hview ▸ hg) ho
    have hsteps := Occurrence.steps_of_site_eq hsite
    rw [← hsteps]
    exact steps_ne_of_unparsed hcutoff hfiles hf hm hunparsed p hp

def alike : List Module := [⟨"a.ts", ["x"], true⟩, ⟨"b.ts", ["x"], true⟩]

theorem compare_exact_alike :
    let guard : Scan.MemoryGuard := ⟨none, none⟩
    let found := (compare alike (66.7 : Float) guard).1
    (alike.map (·.file.steps)).Nodup ∧ (∀ m ∈ alike, NullFree m.file.text) ∧
      (∀ m ∈ alike, m.bodies.Nodup) ∧ Scalar.lt (Scalar.zero : Float) 66.7 = true ∧
      guard.check = none ∧
      Digest.CollisionFree
        ((orderedPairs alike).map fun pair => pairBytes pair.1.file.text pair.2.file.text) ∧
      (alike.map (·.file.text)).Nodup ∧
      ((Registry.empty.recordAll ([] ++ found)).view .modules).length = 1 := by
  intro guard found
  have hfiles : (alike.map (·.file.steps)).Nodup := by decide +kernel
  have hnull : ∀ m ∈ alike, NullFree m.file.text := by decide
  have hbodies : ∀ m ∈ alike, m.bodies.Nodup := by decide
  have hcutoff : Scalar.lt (Scalar.zero : Float) 66.7 = true := by decide +kernel
  have hguard : guard.check = none := rfl
  have hdigest : Digest.CollisionFree
      ((orderedPairs alike).map fun pair => pairBytes pair.1.file.text pair.2.file.text) := by
    intro a ha b hb _
    exact (List.mem_singleton.mp ha).trans (List.mem_singleton.mp hb).symm
  obtain ⟨-, pairs, -, -, hlength, -, hshown, htexts, -⟩ := compare_exact alike 66.7 guard []
    (by simp) hfiles hnull hbodies hcutoff (.inl hguard) hdigest
  have hnames : ∀ m ∈ alike, ∃ name : String, m.file = name := by
    simp [alike]
  have hcount : found.length = 1 := by decide +kernel
  refine ⟨hfiles, hnull, hbodies, hcutoff, hguard, hdigest, htexts hnames, ?_⟩
  exact (congrArg List.length (hshown (htexts hnames))).trans
    ((List.length_map _).trans (hlength.symm.trans hcount))

-- One file under two spellings is no group of two places. Two files whose names are no texts can be
-- shown alike, and what they share with a third one falls together.
def spelledTwice : List Module := [⟨"a/b.js", ["x"], true⟩, ⟨"a//b.js", ["x"], true⟩]

def brokenNames : List Module :=
  [⟨⟨[0x61, 0xFE]⟩, ["x"], true⟩, ⟨⟨[0x61, 0xFF]⟩, ["x"], true⟩, ⟨"b", ["x"], true⟩]

theorem flagged_not_shown :
    let guard : Scan.MemoryGuard := ⟨none, none⟩
    let found (modules : List Module) := (compare modules (66.7 : Float) guard).1
    let shown (modules : List Module) :=
      ((Registry.empty.recordAll (found modules)).view .modules).map fun g => g.occurrences.length
    guard.check = none ∧
      (∀ modules ∈ [spelledTwice, brokenNames],
        (∀ m ∈ modules, NullFree m.file.text ∧ m.bodies.Nodup) ∧
          Digest.CollisionFree
            ((orderedPairs modules).map fun pair => pairBytes pair.1.file.text pair.2.file.text)) ∧
      ((spelledTwice.map (·.file.text)).Nodup ∧ (found spelledTwice).length = 1 ∧
        shown spelledTwice = []) ∧
      (brokenNames.map (·.file.steps)).Nodup ∧ (found brokenNames).length = 3 ∧
        shown brokenNames = [2, 3] := by
  unfold Digest.CollisionFree
  decide +kernel

end Modules

end Likeness
