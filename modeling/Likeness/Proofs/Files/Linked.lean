import Likeness.Proofs.Files.Tree

namespace Likeness.Files

namespace Spot

section Named

variable (name : String)

end Named

section Links

-- Whether some steps end in one down to an entry of a directory.
def EndsDown (steps : List String) : Prop :=
  ∃ name, steps.getLast? = some name ∧ name ≠ "" ∧ name ≠ "." ∧ name ≠ ".."

theorem EndsDown.cons {steps : List String} (h : EndsDown steps) (step : String) :
    EndsDown (step :: steps) := by
  obtain ⟨name, hlast, hname⟩ := h
  exact ⟨name, by rw [List.getLast?_cons, hlast]; rfl, hname⟩

end Links

end Spot

namespace Disk

open Spot

variable {d : Disk}

end Disk

end Likeness.Files
