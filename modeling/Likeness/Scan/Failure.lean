import Likeness.Number.Layout
import Likeness.Scan.Memory
import Likeness.Syntax.Fault

namespace Likeness.Scan

-- How a run of the program ends.
inductive Exit where
  | success
  | generalError
  | invalidConfiguration
  | memoryLimitExceeded
deriving DecidableEq

namespace Exit

def number : Exit → Nat
  | .success => 0
  | .generalError => 1
  | .invalidConfiguration => 2
  | .memoryLimitExceeded => 3

def code : Exit → String
  | .success => "DC000"
  | .generalError => "DC001"
  | .invalidConfiguration => "DC002"
  | .memoryLimitExceeded => "DC003"

end Exit

-- Why a file is passed over. The scan goes on without it.
inductive Skipped where
  | malformedSource (path : String) (place : Syntax.Place)
  | malformedResource (path message : String)
  | unreadable (path cause : String)
deriving DecidableEq

namespace Skipped

def code : Skipped → String
  | .malformedSource _ _ => "E002"
  | .unreadable _ _ => "E005"
  | .malformedResource _ _ => "E006"

def path : Skipped → String
  | .malformedSource path _ => path
  | .unreadable path _ => path
  | .malformedResource path _ => path

def message : Skipped → String
  | .malformedSource path place => s!"Parse error in {path} at {place.line}:{place.column}"
  | .unreadable path cause => s!"I/O error for {path}: {cause}"
  | .malformedResource path message => s!"Malformed resource {path}: {message}"

end Skipped

-- Why a walk cannot enter a place.
inductive Closed where
  | permissionDenied (path : String)
  | failed (path cause : String)
deriving DecidableEq

namespace Closed

def message : Closed → String
  | .permissionDenied path => s!"Permission denied: {path}"
  | .failed path cause => s!"I/O error for {path}: {cause}"

def skipped : Closed → Skipped
  | .permissionDenied path => .unreadable path "permission denied"
  | .failed path cause => .unreadable path cause

end Closed

-- Why a scan comes to nothing.
inductive Fatal where
  | pathNotFound (path : String)
  | notADirectory (path : String)
  | invalidConfiguration (message : String)
  | memoryLimitExceeded (checkpoint : String) (e : Exceeded)

namespace Fatal

def code : Fatal → String
  | .pathNotFound _ => "E001"
  | .memoryLimitExceeded _ _ => "E003"
  | .invalidConfiguration _ => "E004"
  | .notADirectory _ => "E007"

def message : Fatal → String
  | .pathNotFound path => s!"Path not found: {path}"
  | .notADirectory path => s!"Not a directory: {path}"
  | .invalidConfiguration message => s!"Invalid configuration: {message}"
  | .memoryLimitExceeded checkpoint e =>
    s!"Memory limit exceeded during {checkpoint}: {Number.byteText e.used} in use, " ++
      s!"limit {Number.byteText e.limit}"

def exit : Fatal → Exit
  | .invalidConfiguration _ => .invalidConfiguration
  | .memoryLimitExceeded _ _ => .memoryLimitExceeded
  | .pathNotFound _ | .notADirectory _ => .generalError

end Fatal

-- What is noted when the memory is exceeded.
def Exceeded.log (e : Exceeded) (checkpoint : String) : String :=
  s!"Memory ceiling exceeded at {checkpoint}: {Number.byteText e.used} > " ++
    Number.byteText e.limit

end Likeness.Scan
