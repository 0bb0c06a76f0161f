import Likeness.Components.Component
import Likeness.Proofs.Lists
import Likeness.Proofs.Syntax.Spots

namespace Likeness

open Components Syntax

namespace Components

namespace StyledComponent

def isGenerator (t : Tree) : Bool :=
  t.hasKind .generatorFunctionDeclaration || t.hasKind .generatorFunction

-- Functions of all kinds: declarations and expressions, arrow functions, methods and generators.
def isAnyFunction (t : Tree) : Bool := isFunction t || isGenerator t

def declaredAt (s : Source) (spots : List Spot) : List StyledComponent :=
  spots.filterMap fun p => ofNode? s p.node

-- The styled components that no function of any kind is around, in source order.
def outside (s : Source) : List StyledComponent :=
  declaredAt s (s.tree.spots.filter (Spot.isOpen isAnyFunction))

theorem isOpen_any_iff (p : Spot) :
    p.isOpen isAnyFunction = true ↔ p.isOpen isFunction = true ∧ p.isOpen isGenerator = true := by
  simp only [Spot.isOpen, List.all_eq_true, isAnyFunction, Bool.not_or, Bool.and_eq_true]
  exact forall₂_and

theorem ofFile_eq (s : Source) :
    ofFile s = declaredAt s (s.tree.spots.filter (Spot.isOpen isFunction)) := by
  rw [ofFile, Tree.visitOpen_eq, List.flatMap_singleton, List.filterMap_map]
  rfl

theorem outside_sublist (s : Source) : (outside s).Sublist (ofFile s) := by
  rw [ofFile_eq]
  refine List.Sublist.filterMap _ (List.monotone_filter_right _ fun p hp => ?_)
  exact ((isOpen_any_iff p).mp hp).1

-- A file's declarations are the right ones unless there is one that only generators are around.
theorem ofFile_eq_outside_iff (s : Source) : ofFile s = outside s ↔
    ∀ p ∈ s.tree.spots, (ofNode? s p.node).isSome = true → p.isOpen isFunction = true →
      p.isOpen isGenerator = true := by
  rw [ofFile_eq, outside, declaredAt, declaredAt, filterMap_filter_eq_iff]
  · refine forall₂_congr fun p _ => forall₂_congr fun _ hopen => ?_
    rw [isOpen_any_iff, and_iff_right hopen]
  · exact fun p hp => ((isOpen_any_iff p).mp hp).1

end StyledComponent

end Components

namespace Component

variable {tags : List String}

-- What is added to the styled components of a component stands behind them, in the order of the
-- file, and the component has elements of its name.
theorem addStyled_eq_append (styled declared : List StyledComponent) :
    ∃ attached, addStyled tags styled declared = styled ++ attached ∧
      attached.Sublist declared ∧ ∀ d ∈ attached, d.name ∈ tags := by
  induction declared generalizing styled with
  | nil => exact ⟨[], (List.append_nil _).symm, .slnil, by simp⟩
  | cons d rest ih =>
    rw [addStyled]
    split
    · next hadd =>
      rw [Bool.and_eq_true, List.contains_iff_mem] at hadd
      obtain ⟨attached, heq, hsub, htags⟩ := ih (styled ++ [d])
      refine ⟨d :: attached, ?_, hsub.cons_cons d, List.forall_mem_cons.mpr ⟨hadd.2, htags⟩⟩
      rw [heq, List.append_assoc]
      rfl
    · obtain ⟨attached, heq, hsub, htags⟩ := ih styled
      exact ⟨attached, heq, hsub.cons d, htags⟩

theorem mem_names_addStyled {name : String} (styled declared : List StyledComponent) :
    name ∈ (addStyled tags styled declared).map (·.name) ↔
      name ∈ styled.map (·.name) ∨ name ∈ tags ∧ name ∈ declared.map (·.name) := by
  induction declared generalizing styled with
  | nil => simp [addStyled]
  | cons d rest ih =>
    rw [addStyled]
    split
    · next hadd =>
      rw [Bool.and_eq_true, List.contains_iff_mem] at hadd
      rw [ih, List.map_append, List.mem_append, List.map_singleton, List.mem_singleton,
        List.map_cons, List.mem_cons]
      constructor
      · rintro ((h | rfl) | ⟨htags, h⟩)
        · exact .inl h
        · exact .inr ⟨hadd.2, .inl rfl⟩
        · exact .inr ⟨htags, .inr h⟩
      · rintro (h | ⟨htags, rfl | h⟩)
        · exact .inl (.inl h)
        · exact .inl (.inr rfl)
        · exact .inr ⟨htags, h⟩
    · next hskip =>
      rw [ih, List.map_cons, List.mem_cons]
      refine or_congr_right' fun hnew => and_congr_right fun htags => ?_
      refine ⟨.inr, fun h => h.resolve_left ?_⟩
      -- a name that is skipped is there already or is no tag
      rintro rfl
      apply hskip
      rw [Bool.and_eq_true, List.contains_iff_mem, Bool.not_eq_true', List.any_eq_false]
      refine ⟨fun e he heq => hnew ?_, htags⟩
      rw [← beq_iff_eq.mp heq]
      exact List.mem_map_of_mem he

theorem countP_addStyled_le (name : String) (styled declared : List StyledComponent) :
    (addStyled tags styled declared).countP (·.name == name) ≤
      max 1 (styled.countP (·.name == name)) := by
  induction declared generalizing styled with
  | nil => exact le_max_right _ _
  | cons d rest ih =>
    rw [addStyled]
    split
    · next hadd =>
      rw [Bool.and_eq_true, Bool.not_eq_true'] at hadd
      refine (ih _).trans ?_
      rw [List.countP_append, List.countP_singleton]
      by_cases hname : d.name = name
      · have hnone : styled.countP (·.name == name) = 0 := by
          rw [List.countP_eq_zero, ← hname]
          simpa using hadd.1
        rw [hnone]
        split <;> simp
      · rw [if_neg (by simpa using hname)]
        exact le_rfl
    · exact ih styled

theorem styled_of_ofFunction? {s : Source} {file : Files.Path} {declared : List StyledComponent}
    {f : Function} {c : Component} (h : ofFunction? s file declared f = some c) :
    c.styles.styled = addStyled c.element.tags (Styles.all s f.node).styled declared := by
  unfold ofFunction? at h
  split at h
  · cases h
    rfl
  · cases h

end Component

namespace Components.StyledComponent

-- What a file declares outside of functions are the styled components that no function is around,
-- where generators do not count as functions. It makes a difference just where a styled component
-- is declared in generators alone. To those declared in its own function a component gets only some
-- that the file declares outside of functions, in their order.
theorem ofFile_exact (s : Source) :
    ofFile s = declaredAt s (s.tree.spots.filter (Spot.isOpen isFunction)) ∧
      (ofFile s = outside s ↔ ∀ p ∈ s.tree.spots, (ofNode? s p.node).isSome = true →
        p.isOpen isFunction = true → p.isOpen isGenerator = true) ∧
      ∀ file f c, Component.ofFunction? s file (ofFile s) f = some c →
        ∃ attached, c.styles.styled = (Styles.all s f.node).styled ++ attached ∧
          attached.Sublist (ofFile s) ∧ ∀ d ∈ attached, d.name ∈ c.element.tags := by
  refine ⟨ofFile_eq s, ofFile_eq_outside_iff s, fun file f c hc => ?_⟩
  rw [Component.styled_of_ofFunction? hc]
  exact Component.addStyled_eq_append _ _

-- A styled component that one function declares is given to another one, as the first is a generator.
theorem attached_from_generator :
    ((Source.parse? .tsx "function*g()\x7bconst W=styled.p\x60\x60\x7dvar A=x=><W/>").map fun s =>
      ((ofFile s).map (·.name), (outside s).map (·.name),
        (Component.all s "a.tsx").map fun c => (c.name, c.styles.styled.map (·.name)))) =
      some (["W"], [], [("A", ["W"])]) := by
  decide +kernel

-- A component that declares one styled component and is given another one.
def fitted : String := "const W=styled.p\x60\x60;var A=x=>\x7bconst V=styled.b\x60\x60;return <W/>\x7d"

theorem ofFile_exact_fitted : ∃ s f c attached, Source.parse? .tsx fitted = some s ∧
    f ∈ Function.all s ∧ Component.ofFunction? s "a.tsx" (ofFile s) f = some c ∧
      c.styles.styled.map (·.name) = ["V", "W"] ∧ attached.Sublist (ofFile s) ∧
      c.styles.styled = (Styles.all s f.node).styled ++ attached := by
  have hread : ((Source.parse? .tsx fitted).map fun s =>
      (Component.all s "a.tsx").map fun c => c.styles.styled.map (·.name)) = some [["V", "W"]] := by
    decide +kernel
  obtain ⟨s, hs, hnames⟩ := Option.map_eq_some_iff.mp hread
  obtain ⟨c, hc, hstyled⟩ := List.mem_map.mp (hnames ▸ List.mem_singleton_self ["V", "W"])
  obtain ⟨f, hf, hfound⟩ := List.mem_filterMap.mp hc
  obtain ⟨attached, heq, hsub, -⟩ := (ofFile_exact s).2.2 "a.tsx" f c hfound
  exact ⟨s, f, c, attached, hs, hf, hfound, hstyled, hsub, heq⟩

end Components.StyledComponent

end Likeness
