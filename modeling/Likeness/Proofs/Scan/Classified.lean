import Likeness.Proofs.Resources.Supported
import Likeness.Proofs.Scan.Walked
import Likeness.Scan.Discovery

namespace Likeness.Scan

open Files
open Settings (WalkOptions)

namespace Walk

variable {d : Disk} {r : Rules} {p : Place} {path name : String} {e : Entry} {ev : WalkEvent}
  {entries : List (String × Entry)} {meet : OnLink}

section Names

-- Whether a path leads down from the root, by the names of entries only.
def Descends (r : Rules) (path : String) : Prop :=
  ∃ dir, Under r dir path ∧ ∀ step ∈ dir, IsName step

theorem Descends.join (h : Descends r path) (hname : IsName name) :
    Descends r (join path name) := by
  obtain ⟨dir, hunder, hdir⟩ := h
  exact ⟨dir ++ [name], hunder.join hname,
    List.forall_mem_append.mpr ⟨hdir, List.forall_mem_singleton.mpr hname⟩⟩

end Names

-- Whether the directories around a place are those of a proper tree.
def Place.Proper (p : Place) : Prop := ∀ e ∈ p.outer, e.Proper

section Links

end Links

section Root

variable {root : String} {o : WalkOptions}

end Root

end Walk

open Walk

end Likeness.Scan
