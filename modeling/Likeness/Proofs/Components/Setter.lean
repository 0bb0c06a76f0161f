import Likeness.Components.Component
import Likeness.Proofs.Syntax.Parts

namespace Likeness

open Components Syntax

namespace Syntax.Tree

def isComma : Tree → Bool
  | .token text _ _ => text == ","
  | .node _ _ _ _ => false

-- What stands at each position of a list with commas between the positions.
def positions (t : Tree) : List (List Tree) :=
  (t.children.splitOnP isComma).map (·.filter isPart)

theorem isPart_of_isComma {t : Tree} (h : t.isComma = true) : t.isPart = false := by
  cases t with
  | token => rfl
  | node => cases h

theorem flatten_splitOnP_filter (ts : List Tree) :
    ((ts.splitOnP isComma).map (·.filter isPart)).flatten = ts.filter isPart := by
  induction ts with
  | nil => rfl
  | cons t rest ih =>
    rw [List.splitOnP_cons_eq_if_modifyHead]
    split
    · next hcomma =>
      rw [List.map_cons, List.flatten_cons, ih, List.filter_nil, List.nil_append,
        List.filter_cons_of_neg (by simp [isPart_of_isComma hcomma])]
    · -- what is not a comma stands at the first position
      obtain ⟨first, others, hsplit⟩ :=
        List.exists_cons_of_ne_nil (List.splitOnP_ne_nil isComma rest)
      rw [hsplit] at ih ⊢
      rw [List.modifyHead_cons, List.map_cons, List.flatten_cons, List.filter_cons]
      rw [List.map_cons, List.flatten_cons] at ih
      rw [List.filter_cons, ← ih]
      split <;> rfl

-- The parts of a list are what stands at its positions; a position without a part does not count.
theorem flatten_positions (t : Tree) : t.positions.flatten = t.parts := by
  rw [positions, flatten_splitOnP_filter, parts_eq]

-- The second part stands at the position before which there is one part.
theorem getElem?_one_positions {t u : Tree} {more : List Tree} {k : ℕ}
    (hk : t.positions[k]? = some (u :: more))
    (hone : (t.positions.take k).flatten.length = 1) : t.positions.flatten[1]? = some u := by
  have hdrop : t.positions.drop k = (u :: more) :: t.positions.drop (k + 1) := by
    obtain ⟨hlt, heq⟩ := List.getElem?_eq_some_iff.mp hk
    rw [← heq, List.drop_eq_getElem_cons hlt]
  calc t.positions.flatten[1]?
      = ((t.positions.take k).flatten ++ (t.positions.drop k).flatten)[1]? := by
        rw [← List.flatten_append, List.take_append_drop]
    _ = (t.positions.drop k).flatten[0]? := by
        rw [List.getElem?_append_right hone.le, hone]
    _ = some u := by
        rw [hdrop]
        rfl

end Syntax.Tree

namespace Components

-- The array pattern that a call is bound to.
def HookCall.pattern? (call : HookCall) : Option Tree :=
  ((call.parent.filter (·.hasKind .variableDeclarator)).bind (·.child? .name)).filter
    (·.hasKind .arrayPattern)

-- The calls that set up states.
def stateCalls (s : Source) (body : Tree) : List HookCall :=
  (hookCalls s body).filter (·.name == "useState")

namespace StateHook

def nameOf? (s : Source) (t : Tree) : Option String :=
  if t.hasKind .identifier then some (s.textOf t) else none

-- The name that stands at a position of a pattern.
def nameAt? (s : Source) (pattern : Tree) (k : ℕ) : Option String :=
  (pattern.positions[k]?.bind List.head?).bind (nameOf? s)

theorem nameAt?_eq {s : Source} {pattern t : Tree} {more : List Tree} {k : ℕ}
    (h : pattern.positions[k]? = some (t :: more)) : nameAt? s pattern k = nameOf? s t := by
  rw [nameAt?, h]
  rfl

-- Behind the last part there is no name.
theorem nameAt?_eq_none {s : Source} {pattern : Tree} {before rest : List (List Tree)} {k : ℕ}
    (hpositions : pattern.positions = before ++ rest) (hk : before.length ≤ k)
    (hempty : rest.flatten = []) : nameAt? s pattern k = none := by
  rw [nameAt?, hpositions, List.getElem?_append_right hk]
  cases hts : rest[k - before.length]? with
  | none => rfl
  | some ts =>
    rw [List.flatten_eq_nil_iff.mp hempty ts (List.mem_of_getElem? hts)]
    rfl

section Bound

variable {s : Source} {call : HookCall} {pattern : Tree} (h : call.pattern? = some pattern)

include h

theorem setter_ofCall :
    (ofCall s call).setter = pattern.positions.flatten[1]?.bind (nameOf? s) := by
  obtain ⟨hname, hkind⟩ := Option.filter_eq_some_iff.mp h
  change setter? s call.parent = _
  rw [setter?, hname, Tree.flatten_positions]
  dsimp only
  rw [if_pos hkind]
  cases pattern.parts[1]? <;> rfl

theorem setter_eq_nameAt? {t : Tree} {more : List Tree} {k : ℕ}
    (hk : pattern.positions[k]? = some (t :: more))
    (hone : (pattern.positions.take k).flatten.length = 1) :
    (ofCall s call).setter = nameAt? s pattern k := by
  rw [setter_ofCall h, Tree.getElem?_one_positions hk hone, nameAt?_eq hk]
  rfl

-- Holes do no harm behind the second part, or where nothing is behind them.
theorem setter_of_filled {filled : List Tree} {rest : List (List Tree)}
    (hpositions : pattern.positions = filled.map ([·]) ++ rest)
    (hholes : 2 ≤ filled.length ∨ rest.flatten = []) :
    (ofCall s call).setter = nameAt? s pattern 1 := by
  match filled with
  | first :: second :: others =>
    have hk : pattern.positions[1]? = some [second] := by
      rw [hpositions]
      rfl
    refine setter_eq_nameAt? h hk ?_
    rw [hpositions]
    rfl
  | [] | [_] =>
    have hempty : rest.flatten = [] := hholes.resolve_left (by simp)
    rw [setter_ofCall h, nameAt?_eq_none hpositions (by simp) hempty, hpositions,
      List.flatten_append, hempty]
    rfl

end Bound

theorem state_all (s : Source) (body : Tree) :
    (Hooks.all s body).state = (stateCalls s body).map (ofCall s) := rfl

-- Each call that sets up a state gives one, in source order. The setter of a call that an array
-- pattern is bound to is the name of the second part in the pattern, so it is the name at the position
-- before which exactly one part stands. That is the second position unless one of the first two is
-- left out and something stands behind it.
theorem setter_exact (s : Source) (body : Tree) :
    (Hooks.all s body).state = (stateCalls s body).map (ofCall s) ∧
      ∀ call ∈ stateCalls s body, ∀ pattern, call.pattern? = some pattern →
        (ofCall s call).setter = pattern.positions.flatten[1]?.bind (nameOf? s) ∧
          (∀ k t more, pattern.positions[k]? = some (t :: more) →
            (pattern.positions.take k).flatten.length = 1 →
              (ofCall s call).setter = nameAt? s pattern k) ∧
          ∀ (filled : List Tree) (rest : List (List Tree)),
            pattern.positions = filled.map ([·]) ++ rest →
              (2 ≤ filled.length ∨ rest.flatten = []) →
                (ofCall s call).setter = nameAt? s pattern 1 := by
  refine ⟨state_all s body, fun call _ pattern h => ⟨setter_ofCall h, ?_, ?_⟩⟩
  · intro k t more hk hone
    exact setter_eq_nameAt? h hk hone
  · intro filled rest hpositions hholes
    exact setter_of_filled h hpositions hholes

-- What a state is bound to in a component, position by position, with the names at the second
-- position and the setters.
def bound (text : String) : Option (List (List (List String) × Option String × Option String)) :=
  (Source.parse? .tsx text).map fun s =>
    (stateCalls s s.tree).filterMap fun call => call.pattern?.map fun pattern =>
      (pattern.positions.map (·.map s.textOf), nameAt? s pattern 1, (ofCall s call).setter)

-- A name at the second position is passed over, and one at the third position is taken for it.
theorem setter_behind_hole :
    bound "var A=x=>\x7bconst[,b]=useState(0),[a,,c]=useState(1);return <p/>\x7d" =
      some [([[], ["b"]], some "b", none), ([["a"], [], ["c"]], none, some "c")] := by
  decide +kernel

theorem exists_of_mem_bound {text : String}
    {rows : List (List (List String) × Option String × Option String)}
    {row : List (List String) × Option String × Option String} (h : bound text = some rows)
    (hrow : row ∈ rows) :
    ∃ s call pattern, Source.parse? .tsx text = some s ∧ call ∈ stateCalls s s.tree ∧
      call.pattern? = some pattern ∧
        (pattern.positions.map (·.map s.textOf), nameAt? s pattern 1, (ofCall s call).setter) =
          row := by
  obtain ⟨s, hs, rfl⟩ := Option.map_eq_some_iff.mp h
  obtain ⟨call, hcall, hrow⟩ := List.mem_filterMap.mp hrow
  obtain ⟨pattern, hpattern, hrow⟩ := Option.map_eq_some_iff.mp hrow
  exact ⟨s, call, pattern, hs, hcall, hpattern, hrow⟩

def paired : String := "var A=x=>\x7bconst[a,b]=useState(0),[c]=useState(1);return <p/>\x7d"

theorem setter_exact_paired :
    (∃ s call pattern, Source.parse? .tsx paired = some s ∧ call ∈ stateCalls s s.tree ∧
      call.pattern? = some pattern ∧ (∃ a b, pattern.positions = [[a], [b]]) ∧
        (ofCall s call).setter = some "b") ∧
      ∃ s call pattern, Source.parse? .tsx paired = some s ∧ call ∈ stateCalls s s.tree ∧
        call.pattern? = some pattern ∧ (∃ c, pattern.positions = [[c]]) ∧
          (ofCall s call).setter = none ∧ (ofCall s call).setter = nameAt? s pattern 1 := by
  have hread : bound paired =
      some [([["a"], ["b"]], some "b", some "b"), ([["c"]], none, none)] := by
    decide +kernel
  refine ⟨?_, ?_⟩
  · obtain ⟨s, call, pattern, hs, hcall, hpattern, hrow⟩ :=
      exists_of_mem_bound hread List.mem_cons_self
    simp only [Prod.mk.injEq, List.map_eq_cons_iff, List.map_eq_nil_iff] at hrow
    obtain ⟨⟨_, _, hpositions, ⟨a, _, rfl, -, rfl⟩, _, _, rfl, ⟨b, _, rfl, -, rfl⟩, rfl⟩, hname, -⟩ :=
      hrow
    obtain ⟨-, hplace, -⟩ := (setter_exact s s.tree).2 call hcall pattern hpattern
    have hsetter : (ofCall s call).setter = nameAt? s pattern 1 := by
      apply hplace 1 b []
      · rw [hpositions]
        rfl
      · rw [hpositions]
        rfl
    exact ⟨s, call, pattern, hs, hcall, hpattern, ⟨a, b, hpositions⟩, hsetter.trans hname⟩
  · obtain ⟨s, call, pattern, hs, hcall, hpattern, hrow⟩ :=
      exists_of_mem_bound hread (List.mem_cons_of_mem _ List.mem_cons_self)
    simp only [Prod.mk.injEq, List.map_eq_cons_iff, List.map_eq_nil_iff] at hrow
    obtain ⟨⟨_, _, hpositions, ⟨c, _, rfl, -, rfl⟩, rfl⟩, -, -⟩ := hrow
    obtain ⟨hpart, -, hfilled⟩ := (setter_exact s s.tree).2 call hcall pattern hpattern
    have hnone : (ofCall s call).setter = none := by
      rw [hpart, hpositions]
      rfl
    have hname := hfilled [c] [] hpositions (.inr rfl)
    exact ⟨s, call, pattern, hs, hcall, hpattern, ⟨c, hpositions⟩, hnone, hname⟩

end StateHook

end Components

end Likeness
