import Likeness.Proofs.Components.Rendered
import Likeness.Proofs.Ways

namespace Likeness.Components.Element

open Syntax

-- An element without what is more than some levels below it.
def cut : ℕ → Element → Element
  | 0, mk tag attributes _ => mk tag attributes []
  | levels + 1, mk tag attributes children => mk tag attributes (children.map (cut levels))

-- What an element is without those inside of it.
def label (e : Element) : String × List Attribute := (e.tag, e.attributes)

-- The tag of an element and its attributes are written in its opening tag, as far as it has one.
structure Labelled (s : Source) (opening : Option Tree) (e : Element) : Prop where
  tag : e.tag = (opening.bind (·.child? .name)).elim "Fragment" s.textOf
  attributes : e.attributes =
    (opening.elim [] fun t => t.children.filter (·.hasKind .jsxAttribute)).map (attributeOf s)

-- The whole element that a node stands for, however deep: what stands between its two tags are
-- elements and other things, and the elements are inside of it in their order. An element with a
-- single tag has nothing inside.
inductive Depicts (s : Source) : Tree → Element → Prop where
  | pair {t : Tree} {e : Element} (kind : t.hasKind .jsxElement = true)
      (label : Labelled s (t.child? .openTag) e)
      (inside : List.Forall₂ (Depicts s) (t.children.filter isElement) e.children) : Depicts s t e
  | single {t : Tree} {e : Element} (kind : t.hasKind .jsxSelfClosingElement = true)
      (label : Labelled s (some t) e) (inside : e.children = []) : Depicts s t e

section Cut

theorem tag_cut (levels : ℕ) (e : Element) : (e.cut levels).tag = e.tag := by
  cases e
  cases levels <;> rfl

theorem label_cut (levels : ℕ) (e : Element) : (e.cut levels).label = e.label := by
  cases e
  cases levels <;> rfl

theorem children_cut_zero (e : Element) : (e.cut 0).children = [] := by
  cases e
  rfl

theorem children_cut_succ (levels : ℕ) (e : Element) :
    (e.cut (levels + 1)).children = e.children.map (cut levels) := by
  cases e
  rfl

-- A way in an element that was cut leads to what it leads to in the whole one, unless it is too
-- long.
theorem at?_cut (way : List ℕ) (levels : ℕ) (e : Element) :
    Ways.at? children way (e.cut levels) =
      if way.length ≤ levels then (Ways.at? children way e).map (cut (levels - way.length))
      else none := by
  induction way generalizing levels e with
  | nil => rfl
  | cons i way ih =>
    rw [Ways.at?, Ways.at?, List.length_cons]
    cases levels with
    | zero => rw [children_cut_zero, if_neg (Nat.not_succ_le_zero _)]; rfl
    | succ levels =>
      rw [children_cut_succ, List.getElem?_map, Option.bind_map, Nat.add_sub_add_right]
      simp only [Nat.add_le_add_iff_right]
      cases e.children[i]? with
      | none => simp
      | some c => exact ih levels c

theorem isSome_at?_cut_iff (way : List ℕ) (levels : ℕ) (e : Element) :
    (Ways.at? children way (e.cut levels)).isSome = true ↔
      way.length ≤ levels ∧ (Ways.at? children way e).isSome = true := by
  rw [at?_cut]
  split
  · next hlength => rw [Option.isSome_map, and_iff_right hlength]
  · next hlength => exact iff_of_false Bool.false_ne_true fun h => hlength h.1

theorem map_at?_cut {γ : Type} {f : Element → γ}
    (hf : ∀ levels e, f (cut levels e) = f e) (way : List ℕ) (levels : ℕ) (e : Element) :
    (Ways.at? children way (e.cut levels)).map f =
      if way.length ≤ levels then (Ways.at? children way e).map f else none := by
  rw [at?_cut]
  split
  · rw [Option.map_map]
    exact congrArg (Option.map · _) (funext (hf _))
  · rfl

-- The tags of an element that was cut are those at the ends of the ways that are not too long.
theorem exists_ways_tags_cut (levels : ℕ) (e : Element) : ∃ ways : List (List ℕ),
    ways.Pairwise (· < ·) ∧
      (∀ way, way ∈ ways ↔ way.length ≤ levels ∧ (Ways.at? children way e).isSome = true) ∧
      (e.cut levels).tags = ways.filterMap fun way => (Ways.at? children way e).map tag := by
  have hwalk (e : Element) : e.tags = e.tag :: e.children.flatMap tags := by
    cases e
    rw [tags, tagsOf_eq]
    rfl
  obtain ⟨ways, hways, htags⟩ := Ways.exists_lists hwalk (e.cut levels)
  have hmem (way : List ℕ) : way ∈ ways ↔
      way.length ≤ levels ∧ (Ways.at? children way e).isSome = true :=
    (hways.mem_iff way).trans (isSome_at?_cut_iff way levels e)
  refine ⟨ways, hways.ascending, hmem, htags.trans (List.filterMap_congr fun way hway => ?_)⟩
  rw [map_at?_cut tag_cut, if_pos ((hmem way).mp hway).1]

end Cut

section Depicts

theorem map_eq_map_of_forall₂ {β γ δ : Type} {R : β → γ → Prop} {f : β → δ} {g : γ → δ}
    {bs : List β} {cs : List γ} (h : List.Forall₂ R bs cs)
    (hfg : ∀ b ∈ bs, ∀ c, R b c → f b = g c) : bs.map f = cs.map g := by
  induction h with
  | nil => rfl
  | cons hbc _ ih =>
    obtain ⟨hfirst, hrest⟩ := List.forall_mem_cons.mp hfg
    rw [List.map_cons, List.map_cons, hfirst _ hbc, ih hrest]

variable {s : Source} {t : Tree} {e : Element}

theorem filter_parts {p : Tree → Bool} (h : ∀ t, p t = true → t.isPart = true) (t : Tree) :
    t.parts.filter p = t.children.filter p := by
  rw [Tree.parts_eq, List.filter_filter]
  refine List.filter_congr fun u _ => ?_
  cases hu : p u with
  | false => rfl
  | true => rw [h u hu]; rfl

theorem hasKind_single_of_pair (h : t.hasKind .jsxElement = true) :
    ¬t.hasKind .jsxSelfClosingElement = true := by
  rw [Tree.hasKind_iff] at h ⊢
  rw [h]
  decide

theorem labelled_iff {opening : Option Tree} : Labelled s opening e ↔
    e.tag = tagOf s opening ∧ e.attributes = attributesOf s opening := by
  have htag : (opening.bind (·.child? .name)).elim "Fragment" s.textOf = tagOf s opening := by
    unfold tagOf
    cases opening.bind (·.child? .name) <;> rfl
  have hattributes : (opening.elim [] fun t => t.children.filter (·.hasKind .jsxAttribute)).map
      (attributeOf s) = attributesOf s opening := by
    cases opening with
    | none => rfl
    | some t =>
      rw [attributesOf, filter_parts fun u hu => Tree.isPart_of_hasKind hu rfl]
      rfl
  rw [← htag, ← hattributes]
  exact ⟨fun h => ⟨h.tag, h.attributes⟩, fun h => ⟨h.1, h.2⟩⟩

-- Both forms of elements at once.
theorem depicts_iff (ht : isElement t = true) : Depicts s t e ↔
    Labelled s (openingTag t) e ∧ List.Forall₂ (Depicts s) (elementsIn t) e.children := by
  unfold openingTag elementsIn
  rw [filter_parts fun u => Function.isPart_of_isElement]
  by_cases hkind : t.hasKind .jsxElement = true
  · rw [if_pos hkind, if_pos hkind]
    constructor
    · intro h
      cases h with
      | pair _ hlabel hinside => exact ⟨hlabel, hinside⟩
      | single hsingle => exact absurd hsingle (hasKind_single_of_pair hkind)
    · rintro ⟨hlabel, hinside⟩
      exact .pair hkind hlabel hinside
  · rw [if_neg hkind, if_neg hkind, List.forall₂_nil_left_iff]
    constructor
    · intro h
      cases h with
      | pair hpair => exact absurd hpair hkind
      | single _ hlabel hinside => exact ⟨hlabel, hinside⟩
    · rintro ⟨hlabel, hinside⟩
      rw [isElement, Bool.or_eq_true] at ht
      exact .single (ht.resolve_left hkind) hlabel hinside

theorem forall_elementsIn {p : Tree → Prop} (h : ∀ c ∈ t.children, isElement c = true → p c) :
    ∀ u ∈ elementsIn t, p u := by
  intro u hu
  obtain ⟨hpart, helement⟩ := mem_elementsIn hu
  rw [Tree.parts_eq] at hpart
  exact h u (List.mem_of_mem_filter hpart) helement

-- A node stands for one whole element, which is found from the elements inside of it.
theorem exists_depicts (s : Source) {t : Tree} (ht : isElement t = true) : ∃ e, Depicts s t e := by
  induction t using Tree.inductionOnChildren with
  | step t ih =>
    have : Nonempty Element := ⟨mk "" [] []⟩
    choose! inside hinside using forall_elementsIn ih
    refine ⟨mk (tagOf s (openingTag t)) (attributesOf s (openingTag t))
      ((elementsIn t).map inside), (depicts_iff ht).mpr ⟨labelled_iff.mpr ⟨rfl, rfl⟩, ?_⟩⟩
    exact List.forall₂_map_right_iff.mpr (List.forall₂_same.mpr hinside)

theorem Depicts.unique {e e' : Element} (ht : isElement t = true) (h : Depicts s t e)
    (h' : Depicts s t e') : e = e' := by
  induction t using Tree.inductionOnChildren generalizing e e' with
  | step t ih =>
    obtain ⟨tag, attributes, children⟩ := e
    obtain ⟨tag', attributes', children'⟩ := e'
    obtain ⟨hlabel, hinside⟩ := (depicts_iff ht).mp h
    obtain ⟨hlabel', hinside'⟩ := (depicts_iff ht).mp h'
    obtain ⟨rfl, rfl⟩ := labelled_iff.mp hlabel
    obtain ⟨rfl, rfl⟩ := labelled_iff.mp hlabel'
    -- both lists of elements are made of what the nodes inside stand for
    have hsame : ∀ u ∈ elementsIn t, ∀ c c', Depicts s u c → Depicts s u c' → c = c' :=
      forall_elementsIn fun u hu helement c c' hc hc' => ih u hu helement hc hc'
    have : Nonempty Element := ⟨mk "" [] []⟩
    choose! inside hdepicts using
      fun u hu => exists_depicts s (mem_elementsIn (t := t) (u := u) hu).2
    have hchildren {cs : List Element} (hcs : List.Forall₂ (Depicts s) (elementsIn t) cs) :
        (elementsIn t).map inside = cs := by
      rw [map_eq_map_of_forall₂ (g := id) hcs, List.map_id]
      exact fun u hu c hc => hsame u hu _ _ (hdepicts u hu) hc
    exact congrArg (mk _ _) ((hchildren hinside).symm.trans (hchildren hinside'))

-- What is kept with some levels is the whole element, cut below these levels.
theorem ofTree_eq_cut (levels : ℕ) (ht : isElement t = true) (h : Depicts s t e) :
    ofTree s levels t = e.cut levels := by
  induction levels generalizing t e with
  | zero =>
    obtain ⟨tag, attributes, children⟩ := e
    obtain ⟨rfl, rfl⟩ := labelled_iff.mp ((depicts_iff ht).mp h).1
    rfl
  | succ levels ih =>
    obtain ⟨tag, attributes, children⟩ := e
    obtain ⟨hlabel, hinside⟩ := (depicts_iff ht).mp h
    obtain ⟨rfl, rfl⟩ := labelled_iff.mp hlabel
    have hchildren : (elementsIn t).map (ofTree s levels) = children.map (cut levels) :=
      map_eq_map_of_forall₂ hinside fun u hu c hc => ih (mem_elementsIn hu).2 hc
    rw [ofTree, hchildren]
    rfl

-- What is kept of a node is the whole element that it stands for, without what is more than 64
-- levels below it: up to there each element has its tag and all its attributes and stands in its
-- place. The tags are those of the elements that are kept, each once, in the order of the source.
theorem ofTree_cuts (ht : isElement t = true) : ∃ whole, Depicts s t whole ∧
    (∀ e, Depicts s t e → e = whole) ∧ ofTree s depthLimit t = whole.cut 64 ∧
      (∀ way, (Ways.at? children way (ofTree s depthLimit t)).map label =
        if way.length ≤ 64 then (Ways.at? children way whole).map label else none) ∧
      ∃ ways : List (List ℕ), ways.Pairwise (· < ·) ∧
        (∀ way, way ∈ ways ↔ way.length ≤ 64 ∧ (Ways.at? children way whole).isSome = true) ∧
        (ofTree s depthLimit t).tags =
          ways.filterMap fun way => (Ways.at? children way whole).map tag := by
  obtain ⟨whole, hwhole⟩ := exists_depicts s ht
  have hcut : ofTree s depthLimit t = whole.cut 64 := ofTree_eq_cut depthLimit ht hwhole
  refine ⟨whole, hwhole, fun e he => he.unique ht hwhole, hcut, fun way => ?_, ?_⟩
  · rw [hcut]
    exact map_at?_cut label_cut way 64 whole
  · rw [hcut]
    exact exists_ways_tags_cut 64 whole

end Depicts

section Tower

def towerName : Tree := .node .identifier (some .name) ⟨0, 1⟩ []

-- Elements around one another, all with one name. The innermost one has a single tag.
def tower : ℕ → Tree
  | 0 => .node .jsxSelfClosingElement none ⟨0, 1⟩ [towerName]
  | n + 1 => .node .jsxElement none ⟨0, 1⟩
    [.node .jsxOpeningElement (some .openTag) ⟨0, 1⟩ [towerName], tower n]

def towerFile (n : ℕ) : Source := ⟨.tsx, "a", #['a'], tower n⟩

def pile : ℕ → Element
  | 0 => .mk "a" [] []
  | n + 1 => .mk "a" [] [pile n]

theorem depicts_tower (m n : ℕ) : Depicts (towerFile m) (tower n) (pile n) := by
  induction n with
  | zero => exact .single rfl ⟨rfl, rfl⟩ rfl
  | succ n ih =>
    have helement : isElement (tower n) = true := by cases n <;> rfl
    refine .pair rfl ⟨rfl, rfl⟩ ?_
    rw [tower, Tree.children, List.filter_cons_of_neg (by decide), List.filter_cons_of_pos helement]
    exact .cons ih .nil

-- Of 67 elements around one another the two innermost are left out.
theorem ofTree_cuts_tower : isElement (tower 66) = true ∧
    Depicts (towerFile 66) (tower 66) (pile 66) ∧ (pile 66).tags.length = 67 ∧
      ofTree (towerFile 66) depthLimit (tower 66) = (pile 66).cut 64 ∧
      (ofTree (towerFile 66) depthLimit (tower 66)).tags.length = 65 := by
  obtain ⟨whole, -, hunique, hcut, -⟩ := ofTree_cuts (s := towerFile 66) (t := tower 66) rfl
  rw [hcut, ← hunique _ (depicts_tower 66 66)]
  exact ⟨rfl, depicts_tower 66 66, by decide +kernel, rfl, by decide +kernel⟩

end Tower

end Likeness.Components.Element
