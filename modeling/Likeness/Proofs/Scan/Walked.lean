import Likeness.Proofs.Scan.Rooted

namespace Likeness.Scan

open Files
open Settings (WalkOptions)

namespace Walk

section Disk

variable {d : Disk} {root : String} {o : WalkOptions} {r : Rules} {s : Spot}
  {entries : List (String × Entry)}

end Disk

end Walk

open Walk

end Likeness.Scan
