import Likeness.Proofs.Files.Tree
import Likeness.Scan.Walk
import Mathlib.Data.List.Perm.Basic

namespace Likeness.Scan

open Files
open Settings (WalkOptions)

def WalkEvent.path : WalkEvent → String
  | .directory path => path
  | .file path _ => path
  | .closed (.permissionDenied path) => path
  | .closed (.failed path _) => path

namespace Walk

-- Whether nothing is left out on the way down some steps, the last one included.
def Kept (leaves : List String → String → Entry → Bool) (e : Entry) (steps : List String) : Prop :=
  ∀ dir name rest a, steps = dir ++ name :: rest → e.at? (dir ++ [name]) = some a →
    leaves dir name a = false

section Passing

variable {r : Rules} {path : String} {p : Place}

end Passing

section Rules

variable {r : Rules} {dir : List String} {path name : String} {e : Entry} {ev : WalkEvent}

-- Whether a path leads some steps down from the root.
structure Under (r : Rules) (dir : List String) (path : String) : Prop where
  ne_empty : path ≠ ""
  steps : stepsOf path = ⟨(stepsOf r.root).fromRoot, (stepsOf r.root).parts ++ dir⟩

theorem Under.join (h : Under r dir path) (hname : IsName name) :
    Under r (dir ++ [name]) (join path name) := by
  refine ⟨join_ne_empty h.ne_empty, ?_⟩
  rw [stepsOf_join_name h.ne_empty hname, h.steps, List.append_assoc]

theorem Under.below (h : Under r dir path) : below r.root path = String.intercalate "/" dir := by
  unfold Walk.below
  rw [h.steps]
  simp

theorem Under.foldl (h : Under r dir path) {steps : List String}
    (hsteps : ∀ step ∈ steps, IsName step) :
    Under r (dir ++ steps) (steps.foldl Files.join path) := by
  induction steps generalizing dir path with
  | nil => rwa [List.append_nil]
  | cons step steps ih =>
    obtain ⟨hstep, hrest⟩ := List.forall_mem_cons.mp hsteps
    rw [List.append_cons]
    exact ih (h.join hstep) hrest

end Rules

section Order

variable {r : Rules} {dir : List String} {path name : String} {e : Entry} {ev : WalkEvent}
  {p : Place}

end Order

end Walk

end Likeness.Scan
