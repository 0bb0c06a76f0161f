import Likeness.Proofs.Files.Linked
import Likeness.Proofs.Scan.Contents

namespace Likeness.Scan

open Files
open Settings (WalkOptions)

namespace Walk

section Path

variable {root name : String}

end Path

section Root

variable {d : Disk} {r : Rules} {s : Spot} {entries : List (String × Entry)}

end Root

section Link

variable {d : Disk} {r : Rules} {s s' : Spot} {target : String}

end Link

section Enterable

variable {d : Disk} {root path target : String} {o : WalkOptions} {p : Place} {s s' : Spot}
  {entries : List (String × Entry)}

end Enterable

end Walk

open Walk

-- A project in a directory of some name.
def projectDisk (name : String) (inside : List (String × Entry)) : Disk :=
  ⟨.directory [(name, .directory inside)], []⟩

theorem find_projectDisk {name : String} (hname : IsName name) (inside : List (String × Entry))
    (follow : Bool) : (projectDisk name inside).find follow name =
      .ok ⟨.directory inside, [(projectDisk name inside).root], linkLimit⟩ :=
  Disk.find_of_isName hname follow rfl rfl (by rw [Entry.lookup, if_pos rfl])

def oneScript : List (String × Entry) := [("a.js", .file (some ""))]

end Likeness.Scan
