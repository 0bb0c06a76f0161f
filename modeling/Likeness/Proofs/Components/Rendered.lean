import Likeness.Proofs.Components.Declared

namespace Likeness

open Components Syntax

namespace Components

namespace Element

def tagAt (s : Source) (t : Tree) : String := tagOf s (openingTag t)

-- Elements that are directly inside of each other, with the number of levels between the first and
-- the last one.
inductive Below : Nat → Tree → Tree → Prop where
  | here (t : Tree) : Below 0 t t
  | inside {level : Nat} {t u v : Tree} (hu : u ∈ elementsIn t) (hv : Below level u v) :
      Below (level + 1) t v

theorem tagsOf_eq (children : List Element) : tagsOf children = children.flatMap tags := by
  induction children with
  | nil => rfl
  | cons e rest ih => rw [tagsOf, ih, List.flatMap_cons]

-- The tags of an element are those of the nodes that are not too far below it.
theorem mem_tags_ofTree {s : Source} {name : String} (levels : Nat) (t : Tree) :
    name ∈ (ofTree s levels t).tags ↔
      ∃ level ≤ levels, ∃ u, Below level t u ∧ tagAt s u = name := by
  induction levels generalizing t with
  | zero =>
    rw [ofTree, tags, tagsOf_eq]
    constructor
    · intro h
      exact ⟨0, le_rfl, t, .here t, (List.mem_singleton.mp h).symm⟩
    · rintro ⟨level, hle, u, hu, rfl⟩
      obtain rfl : level = 0 := Nat.le_zero.mp hle
      cases hu
      exact List.mem_cons_self
  | succ levels ih =>
    rw [ofTree, tags, tagsOf_eq, List.flatMap_map, List.mem_cons, List.mem_flatMap]
    simp only [ih]
    constructor
    · rintro (h | ⟨u, hu, level, hle, v, hv, hname⟩)
      · exact ⟨0, Nat.zero_le _, t, .here t, h.symm⟩
      · exact ⟨level + 1, Nat.succ_le_succ hle, v, .inside hu hv, hname⟩
    · rintro ⟨level, hle, v, hv, hname⟩
      cases hv with
      | here => exact .inl hname.symm
      | inside hu hv => exact .inr ⟨_, hu, _, Nat.le_of_succ_le_succ hle, v, hv, hname⟩

theorem mem_elementsIn {t u : Tree} (h : u ∈ elementsIn t) : u ∈ t.parts ∧ isElement u = true := by
  unfold elementsIn at h
  split at h
  · exact List.mem_filter.mp h
  · cases h

theorem Below.mem_descendants {level : Nat} {t u : Tree} (h : Below level t u) :
    u ∈ t.descendants := by
  induction h with
  | here t => exact Tree.self_mem_descendants t
  | inside hu _ ih =>
    exact Tree.mem_descendants_trans (Tree.mem_descendants_of_mem_parts (mem_elementsIn hu).1) ih

theorem Below.isElement {level : Nat} {t u : Tree} (h : Below level t u)
    (ht : Element.isElement t = true) : Element.isElement u = true := by
  induction h with
  | here => exact ht
  | inside hu _ ih => exact ih (mem_elementsIn hu).2

end Element

end Components

namespace Function

-- What a function returns directly: the element, and the elements inside of it without anything
-- else between them, as far down as they are kept.
def Renders (s : Source) (f : Function) (name : String) : Prop :=
  ∃ root, Component.returned? f = some root ∧
    ∃ level ≤ Element.depthLimit, ∃ u, Element.Below level root u ∧ Element.tagAt s u = name

-- Whether an element of a name is anywhere in a function.
def Contains (s : Source) (f : Function) (name : String) : Prop :=
  ∃ u ∈ f.node.descendants, Element.isElement u = true ∧ Element.tagAt s u = name

-- A function is itself a node of the tree, or a child of one, and has its body below it.
theorem ofNode?_eq_some {s : Source} {t : Tree} {f : Function} (h : ofNode? s t = some f) :
    (f.node = t ∨ f.node ∈ t.children) ∧ StyledComponent.isAnyFunction f.node = true ∧
      f.body = f.node.child? .body := by
  unfold ofNode? at h
  split at h
  · next hkind =>
    split at h <;> cases h
    exact ⟨.inl rfl, by simp [StyledComponent.isAnyFunction, StyledComponent.isFunction,
      Tree.hasKind, hkind], rfl⟩
  · next hkind =>
    split at h <;> cases h
    exact ⟨.inl rfl, by simp [StyledComponent.isAnyFunction, StyledComponent.isGenerator,
      Tree.hasKind, hkind], rfl⟩
  · split at h
    · next name value _ hvalue =>
      split at h
      · next hshape =>
        cases h
        rw [Bool.and_eq_true] at hshape
        exact ⟨.inr (List.mem_of_find?_eq_some hvalue), by simp [StyledComponent.isAnyFunction,
          StyledComponent.isFunction, hshape.1], rfl⟩
      · cases h
    · cases h
  · cases h

theorem isPart_of_isElement {t : Tree} (h : Element.isElement t = true) : t.isPart = true := by
  rw [Element.isElement, Bool.or_eq_true] at h
  rcases h with h | h
  · exact Tree.isPart_of_hasKind h rfl
  · exact Tree.isPart_of_hasKind h rfl

theorem isPart_of_unwrapParens {t : Tree} (h : Element.isElement t.unwrapParens = true) :
    t.isPart = true := by
  by_cases hkind : t.hasKind .parenthesizedExpression = true
  · exact Tree.isPart_of_hasKind hkind rfl
  · rw [Tree.unwrapParens_of_plain fun h => absurd h hkind] at h
    exact isPart_of_isElement h

theorem mem_descendants_of_child? {t body : Tree} (h : t.child? .body = some body)
    (hpart : body.isPart = true) : body ∈ t.descendants := by
  apply Tree.mem_descendants_of_mem_parts
  rw [Tree.parts_eq, List.mem_filter]
  exact ⟨List.mem_of_find?_eq_some h, hpart⟩

theorem returned_mem_descendants {f : Function} {root : Tree}
    (hbody : f.body = f.node.child? .body) (h : Component.returned? f = some root) :
    root ∈ f.node.descendants ∧ Element.isElement root = true := by
  unfold Component.returned? at h
  split at h
  · next body hsome =>
    rw [hsome, eq_comm] at hbody
    obtain ⟨hvalue, helement⟩ := Option.filter_eq_some_iff.mp h
    refine ⟨?_, helement⟩
    split at hvalue
    · next hblock =>
      -- the expression that the first return in the block gives
      obtain ⟨argument, hargument, rfl⟩ := Option.map_eq_some_iff.mp hvalue
      obtain ⟨statement, hstatement, hfirst⟩ := Option.bind_eq_some_iff.mp hargument
      have hin := mem_descendants_of_child? hbody (Tree.isPart_of_hasKind hblock rfl)
      have hstatement := Tree.mem_descendants_of_mem_parts (List.mem_of_find?_eq_some hstatement)
      have hargument := Tree.mem_descendants_of_mem_parts (List.mem_of_head? hfirst)
      exact Tree.mem_descendants_trans hin (Tree.mem_descendants_trans hstatement
        (Tree.mem_descendants_trans hargument (Tree.unwrapParens_mem_descendants argument)))
    · cases hvalue
      have hin := mem_descendants_of_child? hbody (isPart_of_unwrapParens helement)
      exact Tree.mem_descendants_trans hin (Tree.unwrapParens_mem_descendants body)
  · cases h

theorem body_of_mem_all {s : Source} {f : Function} (h : f ∈ all s) :
    f.body = f.node.child? .body := by
  obtain ⟨t, -, hf⟩ := List.mem_filterMap.mp h
  exact (ofNode?_eq_some hf).2.2

theorem renders_iff {s : Source} {file : Files.Path} {declared : List StyledComponent} {f : Function}
    {c : Component} (h : Component.ofFunction? s file declared f = some c) {name : String} :
    f.Renders s name ↔ name ∈ c.element.tags := by
  unfold Component.ofFunction? at h
  split at h
  · next root body hroot _ =>
    cases h
    rw [Element.mem_tags_ofTree]
    constructor
    · rintro ⟨root', hroot', hname⟩
      rw [hroot, Option.some.injEq] at hroot'
      rwa [hroot']
    · exact fun hname => ⟨root, hroot, hname⟩
  · cases h

theorem Renders.contains {s : Source} {f : Function} {name : String}
    (hbody : f.body = f.node.child? .body) (h : f.Renders s name) : f.Contains s name := by
  obtain ⟨root, hroot, level, -, u, hu, hname⟩ := h
  obtain ⟨hmem, helement⟩ := returned_mem_descendants hbody hroot
  exact ⟨u, Tree.mem_descendants_trans hmem hu.mem_descendants, hu.isElement helement, hname⟩

end Function

namespace Components.StyledComponent

-- The styled components that are declared anywhere in a file.
def declared (s : Source) : List StyledComponent := s.tree.nodes.filterMap (ofNode? s)

theorem declared_eq (s : Source) : declared s = declaredAt s (Tree.spotsOf Tree.isNode [] s.tree) := by
  rw [declared, Tree.nodes_eq, List.filterMap_map]
  rfl

theorem ofFile_subset_declared (s : Source) : ofFile s ⊆ declared s := by
  intro d hd
  rw [ofFile_eq] at hd
  obtain ⟨p, hp, hd⟩ := List.mem_filterMap.mp hd
  rw [declared_eq]
  exact List.mem_filterMap.mpr
    ⟨p, Tree.mem_spotsOf_of_imp (fun _ => Tree.isNode_of_isPart) (List.mem_of_mem_filter hp), hd⟩

-- Whether a styled component of a name is declared at a spot.
def declares (s : Source) (name : String) (p : Spot) : Bool :=
  (ofNode? s p.node).any (·.name == name)

theorem countP_declared (s : Source) (name : String) :
    (declared s).countP (·.name == name) =
      (Tree.spotsOf Tree.isNode [] s.tree).countP (declares s name) := by
  rw [declared_eq, declaredAt, List.countP_filterMap]
  refine List.countP_congr fun p _ => ?_
  cases h : ofNode? s p.node <;> simp [declares, h]

theorem isNode_of_isAnyFunction {t : Tree} (h : isAnyFunction t = true) : t.isNode = true := by
  cases t with
  | token => simp [isAnyFunction, isFunction, isGenerator, Tree.hasKind, Tree.kind?] at h
  | node => rfl

-- A function declares nothing itself.
theorem ofNode?_of_isAnyFunction {t : Tree} (s : Source) (h : isAnyFunction t = true) :
    ofNode? s t = none := by
  rw [ofNode?, if_neg]
  intro hkind
  rw [Tree.hasKind_iff] at hkind
  simp [isAnyFunction, isFunction, isGenerator, Tree.hasKind, hkind] at h

-- A function is somewhere in its file, and all that is inside of it is there as well.
theorem exists_spot_inside {s : Source} {f : Function} (hf : f ∈ Function.all s) {u : Tree}
    (hu : u ∈ f.node.descendants) :
    ∃ around, ⟨around, u⟩ ∈ Tree.spotsOf Tree.isNode [] s.tree ∧
      (u = f.node ∨ f.node ∈ around) := by
  obtain ⟨t, ht, hf⟩ := List.mem_filterMap.mp hf
  obtain ⟨hnode, hfunction, -⟩ := Function.ofNode?_eq_some hf
  rw [Tree.nodes_eq] at ht
  obtain ⟨p, hp, rfl⟩ := List.mem_map.mp ht
  obtain ⟨outer, houter⟩ :
      ∃ outer, ⟨outer, f.node⟩ ∈ Tree.spotsOf Tree.isNode [] s.tree := by
    rcases hnode with hnode | hnode
    · exact ⟨p.around, hnode ▸ hp⟩
    · exact ⟨_, Tree.mem_spotsOf_child hp hnode (isNode_of_isAnyFunction hfunction)⟩
  obtain ⟨within, hu⟩ := Tree.mem_descendants_iff.mp hu
  refine ⟨within ++ outer, Tree.mem_spotsOf_trans houter ?_, ?_⟩
  · rw [Tree.spotsOf_around]
    exact List.mem_map_of_mem (Tree.mem_spotsOf_of_imp (fun _ => Tree.isNode_of_isPart) hu)
  · rcases Tree.around_of_mem_spotsOf hu with heq | hmem
    · exact .inl (congrArg Spot.node heq)
    · exact .inr (List.mem_append_left _ hmem)

section Once

variable {s : Source} {d : StyledComponent} (hd : d ∈ outside s)
  (honce : (declared s).countP (·.name == d.name) = 1)

include hd honce

-- What a file declares once and outside of functions is declared in none of them.
theorem name_ne_of_declared_inside {f : Function} (hf : f ∈ Function.all s) :
    ∀ e ∈ (Styles.all s f.node).styled, e.name ≠ d.name := by
  intro e he heq
  obtain ⟨u, hu, he⟩ := List.mem_filterMap.mp he
  obtain ⟨around, hspot, hinside⟩ := exists_spot_inside hf hu
  obtain ⟨p, hp, hd⟩ := List.mem_filterMap.mp hd
  obtain ⟨hp, hopen⟩ := List.mem_filter.mp hp
  have hfunction : isAnyFunction f.node = true := by
    obtain ⟨t, -, hf⟩ := List.mem_filterMap.mp hf
    exact (Function.ofNode?_eq_some hf).2.1
  -- both spots declare the name, so they are the same one, but only one of them is in a function
  rw [countP_declared] at honce
  have hsame : p = ⟨around, u⟩ :=
    eq_of_countP_eq_one honce (Tree.mem_spotsOf_of_imp (fun _ => Tree.isNode_of_isPart) hp)
      (by simp [declares, hd]) hspot (by simp [declares, he, heq])
  rcases hinside with rfl | hinside
  · rw [ofNode?_of_isAnyFunction s hfunction] at he
    cases he
  · rw [hsame, Spot.isOpen, List.all_eq_true] at hopen
    simpa [hfunction] using hopen f.node hinside

theorem eq_of_mem_ofFile : ∀ e ∈ ofFile s, e.name = d.name → e = d := by
  intro e he heq
  have hsub := ofFile_subset_declared s
  exact eq_of_countP_eq_one honce (hsub he) (by simp [heq]) (hsub ((outside_sublist s).mem hd))
    (by simp)

variable {file : Files.Path} {f : Function} {c : Component} (hf : f ∈ Function.all s)
  (hc : Component.ofFunction? s file (ofFile s) f = some c)

include hf hc

theorem mem_styled_iff : d ∈ c.styles.styled ↔ f.Renders s d.name := by
  have hinside := name_ne_of_declared_inside hd honce hf
  obtain ⟨attached, heq, hsub, htags⟩ :=
    Component.addStyled_eq_append (Styles.all s f.node).styled (ofFile s)
  rw [Function.renders_iff hc, Component.styled_of_ofFunction? hc]
  constructor
  · intro h
    rw [heq, List.mem_append] at h
    exact htags d (h.resolve_left fun hin => hinside d hin rfl)
  · intro h
    have hname : d.name ∈ (ofFile s).map (·.name) :=
      List.mem_map_of_mem ((outside_sublist s).mem hd)
    obtain ⟨e, he, hsame⟩ :=
      List.mem_map.mp ((Component.mem_names_addStyled _ _).mpr (.inr ⟨h, hname⟩))
    have hattached : e ∈ attached := by
      rw [heq, List.mem_append] at he
      exact he.resolve_left fun hin => hinside e hin hsame
    rwa [← eq_of_mem_ofFile hd honce e (hsub.mem hattached) hsame]

theorem countP_styled_le : c.styles.styled.countP (·.name == d.name) ≤ 1 := by
  have hnone : (Styles.all s f.node).styled.countP (·.name == d.name) = 0 := by
    rw [List.countP_eq_zero]
    simpa using name_ne_of_declared_inside hd honce hf
  rw [Component.styled_of_ofFunction? hc]
  refine (Component.countP_addStyled_le d.name _ _).trans ?_
  rw [hnone]
  exact le_rfl

end Once

-- A styled component that a file declares once and outside of functions is listed for a component
-- just when it is the tag of an element that the component returns directly. So it is listed only
-- where an element of its name is in the function, and everywhere such an element is just when none
-- of them is found in other places alone. It is listed once.
theorem listed_iff_renders {s : Source} {file : Files.Path} {f : Function} {c : Component}
    {d : StyledComponent} (hf : f ∈ Function.all s)
    (hc : Component.ofFunction? s file (ofFile s) f = some c) (hd : d ∈ outside s)
    (honce : (declared s).countP (·.name == d.name) = 1) :
    (d ∈ c.styles.styled ↔ f.Renders s d.name) ∧
      c.styles.styled.countP (·.name == d.name) ≤ 1 ∧
      (f.Renders s d.name → f.Contains s d.name) ∧
      ((d ∈ c.styles.styled ↔ f.Contains s d.name) ↔
        (f.Contains s d.name → f.Renders s d.name)) := by
  have hlisted := mem_styled_iff hd honce hf hc
  have hcontains : f.Renders s d.name → f.Contains s d.name :=
    Function.Renders.contains (Function.body_of_mem_all hf)
  refine ⟨hlisted, countP_styled_le hd honce hf hc, hcontains, ?_⟩
  rw [hlisted]
  exact ⟨Iff.mpr, fun h => ⟨hcontains, h⟩⟩

-- An element in an expression inside of another element is not found.
theorem contained_not_listed :
    ((Source.parse? .tsx "const W=styled.p\x60\x60;var A=x=><a>\x7b<W/>\x7d</a>").map fun s =>
      ((outside s).map (·.name), (declared s).map (·.name),
        (Component.all s "a.tsx").map fun c => c.styles.styled.map (·.name),
        (Function.all s).map fun f =>
          f.node.descendants.any fun u => Element.isElement u && Element.tagAt s u == "W")) =
      some (["W"], ["W"], [[]], [true]) := by
  decide +kernel

def wrapped : String := "const W=styled.p\x60\x60;var A=x=><a><W/></a>"

theorem listed_iff_renders_wrapped : ∃ s f c d, Source.parse? .tsx wrapped = some s ∧
    f ∈ Function.all s ∧ Component.ofFunction? s "a.tsx" (ofFile s) f = some c ∧ d ∈ outside s ∧
      (declared s).countP (·.name == d.name) = 1 ∧ d ∈ c.styles.styled ∧
        c.styles.styled.countP (·.name == d.name) ≤ 1 ∧ f.Contains s d.name := by
  have hread : ((Source.parse? .tsx wrapped).map fun s =>
      ((outside s).map (·.name), (declared s).map (·.name),
        (Component.all s "a.tsx").map (·.element.tags))) = some (["W"], ["W"], [["a", "W"]]) := by
    decide +kernel
  obtain ⟨s, hs, hnames⟩ := Option.map_eq_some_iff.mp hread
  simp only [Prod.mk.injEq] at hnames
  obtain ⟨houtside, hdeclared, htags⟩ := hnames
  obtain ⟨d, hd, hname⟩ := List.mem_map.mp (houtside ▸ List.mem_singleton_self "W")
  obtain ⟨c, hc, htags⟩ := List.mem_map.mp (htags ▸ List.mem_singleton_self ["a", "W"])
  obtain ⟨f, hf, hc⟩ := List.mem_filterMap.mp hc
  have honce : (declared s).countP (·.name == d.name) = 1 := by
    change (declared s).countP ((· == d.name) ∘ (·.name)) = 1
    rw [← List.countP_map, hdeclared, hname]
    rfl
  have hrenders : f.Renders s d.name := by
    rw [Function.renders_iff hc, htags, hname]
    exact List.mem_cons_of_mem _ List.mem_cons_self
  obtain ⟨hlisted, hcount, hcontains, -⟩ := listed_iff_renders hf hc hd honce
  exact ⟨s, f, c, d, hs, hf, hc, hd, honce, hlisted.mpr hrenders, hcount, hcontains hrenders⟩

end Components.StyledComponent

end Likeness
