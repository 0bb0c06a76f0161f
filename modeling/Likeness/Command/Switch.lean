namespace Likeness.Command

-- The options of the command line.
inductive Switch where
  | verbose
  | quiet
  | noColor
  | jsonErrors
  | help
  | version
  | output
  | config
  | minFunctionLines
  | ioThreads
  | memoryLimitMb
  | ignore
  | includePackageFiles
  | skipHidden
  | noFunctions
  | noModules
  | noResources
  | noComponents
  | defaults
deriving DecidableEq

namespace Switch

-- What follows two hyphens.
def long : Switch → String
  | .verbose => "verbose"
  | .quiet => "quiet"
  | .noColor => "no-color"
  | .jsonErrors => "json-errors"
  | .help => "help"
  | .version => "version"
  | .output => "output"
  | .config => "config"
  | .minFunctionLines => "min-function-lines"
  | .ioThreads => "io-threads"
  | .memoryLimitMb => "memory-limit-mb"
  | .ignore => "ignore"
  | .includePackageFiles => "include-package-files"
  | .skipHidden => "skip-hidden"
  | .noFunctions => "no-functions"
  | .noModules => "no-modules"
  | .noResources => "no-resources"
  | .noComponents => "no-components"
  | .defaults => "defaults"

-- The letter that may follow one hyphen.
def short? : Switch → Option Char
  | .verbose => some 'v'
  | .quiet => some 'q'
  | .help => some 'h'
  | .version => some 'V'
  | .output => some 'o'
  | .config => some 'c'
  | .ignore => some 'i'
  | _ => none

-- What the value of an option is called. Options without a name take no value.
def valueName? : Switch → Option String
  | .output => some "OUTPUT"
  | .config => some "FILE"
  | .minFunctionLines | .ioThreads => some "N"
  | .memoryLimitMb => some "MB"
  | .ignore => some "PATTERN"
  | _ => none

-- An option as messages name it.
def shown (s : Switch) : String :=
  "--" ++ s.long ++ match s.valueName? with
    | some name => " <" ++ name ++ ">"
    | none => if s = .verbose then "..." else ""

-- Whether an option may be given several times.
def isRepeatable (s : Switch) : Bool := s = .verbose || s = .ignore

-- Options that are not given together.
def conflictsWith : Switch → Option Switch
  | .quiet => some .verbose
  | .verbose => some .quiet
  | .config => some .defaults
  | .defaults => some .config
  | _ => none

end Switch

-- Where arguments stand: before a command, or after one.
inductive Level where
  | program
  | scan
  | config
deriving DecidableEq

namespace Level

def common : List Switch := [.verbose, .quiet, .noColor, .jsonErrors, .help, .version]

def switches : Level → List Switch
  | .program => common
  | .scan => common ++ [.output, .config, .minFunctionLines, .ioThreads, .memoryLimitMb, .ignore,
      .includePackageFiles, .skipHidden, .noFunctions, .noModules, .noResources, .noComponents]
  | .config => common ++ [.config, .defaults]

def ofLong? (l : Level) (name : String) : Option Switch := l.switches.find? (·.long == name)

def ofShort? (l : Level) (c : Char) : Option Switch := l.switches.find? (·.short? == some c)

-- The commands, by their names.
def ofName? : String → Option Level
  | "scan" => some .scan
  | "config" => some .config
  | _ => none

-- The program under the name it has at a level.
def programName : Level → String
  | .program => "dupecheck"
  | .scan => "dupecheck-scan"
  | .config => "dupecheck-config"

end Level

end Likeness.Command
