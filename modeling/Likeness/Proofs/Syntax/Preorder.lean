import Likeness.Functions.Shape
import Likeness.Proofs.Syntax.Spots
import Likeness.Proofs.Ways

namespace Likeness.Syntax

namespace Tree

mutual

-- A tree and all that is kept below it, by recursion: first the tree, then one child after the
-- other, each with all that is below it. What is below a tree that is not kept is left out.
def preorder (keep : Tree → Bool) : Tree → List Tree
  | .token text role span => [.token text role span]
  | .node kind role span children => .node kind role span children :: preorderAmong keep children
termination_by structural t => t

def preorderAmong (keep : Tree → Bool) : List Tree → List Tree
  | [] => []
  | t :: rest =>
    if keep t then preorder keep t ++ preorderAmong keep rest else preorderAmong keep rest
termination_by structural ts => ts

end

-- The children of a tree that are kept.
def kept (keep : Tree → Bool) (t : Tree) : List Tree := t.children.filter keep

variable (keep : Tree → Bool)

theorem preorderAmong_eq (ts : List Tree) :
    preorderAmong keep ts = (ts.filter keep).flatMap (preorder keep) := by
  induction ts with
  | nil => rfl
  | cons t rest ih =>
    rw [preorderAmong, ih, List.filter_cons]
    cases keep t <;> rfl

theorem preorder_eq (t : Tree) : t.preorder keep = t :: (t.kept keep).flatMap (preorder keep) := by
  cases t with
  | token => rfl
  | node => rw [preorder, preorderAmong_eq]; rfl

theorem map_node_spotsOf_eq_preorder (t : Tree) :
    (spotsOf keep [] t).map Spot.node = t.preorder keep := by
  induction t using inductionOnChildren with
  | step t ih =>
    rw [spotsOf_eq, preorder_eq, List.map_cons, List.map_flatMap]
    refine congrArg (t :: ·) (List.flatMap_congr fun c hc => ?_)
    rw [map_node_spotsOf, ih c (List.mem_of_mem_filter hc)]

theorem nodes_eq_preorder (t : Tree) : t.nodes = t.preorder isNode := by
  rw [nodes_eq, map_node_spotsOf_eq_preorder]

theorem descendants_eq_preorder (t : Tree) : t.descendants = t.preorder isPart := by
  rw [descendants_eq, spots_eq, map_node_spotsOf_eq_preorder]

-- The order of the recursion is that of the ways from the tree: each place once, parents before
-- their children, and these in the order of the source.
theorem exists_lists_preorder (t : Tree) : ∃ ways, Ways.Lists (kept keep) t ways ∧
    t.preorder keep = ways.filterMap (Ways.at? (kept keep) · t) := by
  obtain ⟨ways, hways, hwalk⟩ :=
    Ways.exists_lists (f := id) (fun u => preorder_eq keep u) t
  exact ⟨ways, hways, by simpa using hwalk⟩

end Tree

-- A loop over a stack: what it has found, and what it still has to visit, the next one last.
structure Walk (β : Type) where
  found : List β
  stack : List Tree

namespace Walk

variable {β : Type} (keep : Tree → Bool) (pick : Tree → Option β)

-- One pass takes the last tree off the stack, looks at it, and puts what is kept of its children
-- there in reverse. The loop has ended when there is nothing on the stack.
def pass? (w : Walk β) : Option (Walk β) :=
  match w.stack.getLast? with
  | some t => some ⟨w.found ++ (pick t).toList, w.stack.dropLast ++ (t.kept keep).reverse⟩
  | none => none

-- The loop after so many passes.
def after? : ℕ → Walk β → Option (Walk β)
  | 0, w => some w
  | n + 1, w => (w.pass? keep pick).bind (after? n)

-- What the stack still spells out: all that will be visited, in order.
def pending (w : Walk β) : List Tree := w.stack.reverse.flatMap (Tree.preorder keep)

theorem pass?_eq_none_iff (w : Walk β) : w.pass? keep pick = none ↔ w.stack = [] := by
  unfold pass?
  split
  · next t hlast =>
    refine iff_of_false (Option.some_ne_none _) fun hstack => ?_
    rw [hstack] at hlast
    cases hlast
  · next hlast => exact iff_of_true rfl (List.getLast?_eq_none_iff.mp hlast)

variable {keep pick} {w next : Walk β}

-- A pass visits the first of what is pending, and nothing else becomes of the rest.
theorem pending_of_pass? (h : w.pass? keep pick = some next) :
    ∃ t, w.pending keep = t :: next.pending keep ∧ next.found = w.found ++ (pick t).toList := by
  unfold pass? at h
  split at h
  · next t hlast =>
    cases h
    refine ⟨t, ?_, rfl⟩
    obtain ⟨front, hfront⟩ := List.getLast?_eq_some_iff.mp hlast
    simp only [pending, hfront, List.dropLast_concat, List.reverse_append, List.reverse_reverse,
      List.flatMap_append, List.reverse_singleton, List.flatMap_singleton]
    rw [Tree.preorder_eq, List.cons_append]
  · cases h

-- The loop ends after as many passes as there are trees pending, and has found what is to be found
-- in them.
theorem after?_length_pending (w : Walk β) : w.after? keep pick (w.pending keep).length =
    some ⟨w.found ++ (w.pending keep).filterMap pick, []⟩ := by
  induction hpending : w.pending keep generalizing w with
  | nil =>
    have hstack : w.stack = [] := by
      cases hpass : w.pass? keep pick with
      | none => exact (pass?_eq_none_iff keep pick w).mp hpass
      | some next =>
        obtain ⟨t, ht, -⟩ := pending_of_pass? hpass
        rw [hpending] at ht
        cases ht
    rw [List.filterMap_nil, List.append_nil, List.length_nil, after?, ← hstack]
  | cons t rest ih =>
    cases hpass : w.pass? keep pick with
    | none =>
      rw [pending, (pass?_eq_none_iff keep pick w).mp hpass] at hpending
      cases hpending
    | some next =>
      obtain ⟨u, hu, hfound⟩ := pending_of_pass? hpass
      obtain ⟨rfl, hrest⟩ := List.cons.inj (hpending.symm.trans hu)
      rw [List.length_cons, after?, hpass, Option.bind_some, ih next hrest.symm, hfound,
        List.append_assoc, List.filterMap_cons]
      cases pick t <;> rfl

theorem after?_start (t : Tree) : Walk.after? keep pick (t.preorder keep).length ⟨[], [t]⟩ =
    some ⟨(t.preorder keep).filterMap pick, []⟩ := by
  have h := @after?_length_pending β keep pick ⟨[], [t]⟩
  simpa [pending] using h

end Walk

-- The walks through a tree with a stack give what the recursion gives, and come to an end: the one
-- for the functions of a file, through all nodes, and the one that leaves out comments.
theorem walks_end_in_preorder (s : Source) (t : Tree) :
    (Function.all s = (s.tree.preorder Tree.isNode).filterMap (Function.ofNode? s) ∧
      Walk.after? Tree.isNode (Function.ofNode? s) (s.tree.preorder Tree.isNode).length
        ⟨[], [s.tree]⟩ = some ⟨Function.all s, []⟩) ∧
    (t.descendants = t.preorder Tree.isPart ∧
      Walk.after? Tree.isPart some (t.preorder Tree.isPart).length ⟨[], [t]⟩ =
        some ⟨t.descendants, []⟩) ∧
    ∀ keep : Tree → Bool, ∃ ways, Ways.Lists (Tree.kept keep) t ways ∧
      t.preorder keep = ways.filterMap (Ways.at? (Tree.kept keep) · t) := by
  have hall : Function.all s = (s.tree.preorder Tree.isNode).filterMap (Function.ofNode? s) := by
    rw [Function.all, Tree.nodes_eq_preorder]
  refine ⟨⟨hall, ?_⟩, ⟨t.descendants_eq_preorder, ?_⟩, fun keep => t.exists_lists_preorder keep⟩
  · rw [hall, Walk.after?_start]
  · rw [Walk.after?_start, List.filterMap_some, Tree.descendants_eq_preorder]

end Likeness.Syntax
