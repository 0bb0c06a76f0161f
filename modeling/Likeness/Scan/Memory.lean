import Likeness.Number.Word

namespace Likeness.Scan

-- A ceiling on the memory in use and what is measured. Without a ceiling or a measurement nothing
-- is checked.
structure MemoryGuard where
  limit : Option Nat
  used : Option Nat

-- The ceiling was exceeded.
structure Exceeded where
  used : Nat
  limit : Nat
deriving DecidableEq

namespace MemoryGuard

-- The highest number of bytes that can be counted.
def maxBytes : Nat := Number.wordLimit - 1

-- Megabytes as a ceiling in bytes. Zero is no ceiling.
def limitOfMegabytes (megabytes : Nat) : Option Nat :=
  if megabytes = 0 then none else some (min (megabytes * 1024 * 1024) maxBytes)

def check (g : MemoryGuard) : Option Exceeded :=
  match g.limit, g.used with
  | some limit, some used => if limit < used then some ⟨used, limit⟩ else none
  | _, _ => none

-- The text under which a guard is listed.
def debugText (g : MemoryGuard) : String :=
  let limit := match g.limit with
    | some n => s!"Some({n})"
    | none => "None"
  s!"MemoryGuard \x7b limit: {limit}, .. \x7d"

end MemoryGuard

end Likeness.Scan
