import Likeness.Command.Arguments
import Likeness.Report.Json
import Likeness.Report.Text
import Likeness.Scan.Run
import Likeness.Settings.Layers
import Likeness.Settings.Refusal
import Likeness.Settings.Text

namespace Likeness.Command

open Files Scan Settings

-- Why the program ends without a report.
inductive Failure where
  | scan (f : Fatal)
  | settings (r : Refusal)
  | other (message : String)
  -- a failure and what was going on
  | during (activity : String) (f : Failure)

namespace Failure

def exit : Failure → Exit
  | .scan f => f.exit
  | .settings _ => .invalidConfiguration
  | .other _ => .generalError
  | .during _ f => f.exit

-- The code of the failure itself, where it has one.
def code? : Failure → Option String
  | .scan f => some f.code
  | .settings _ => some "E004"
  | .other _ => none
  | .during _ f => f.code?

def message : Failure → String
  | .scan f => f.message
  | .settings r => r.message
  | .other message => message
  | .during activity f => activity ++ ": " ++ f.message

end Failure

-- What the program finds around it.
structure World where
  disk : Disk
  -- the names and values of the environment
  environment : List (String × String)
  -- the memory in use, if it can be measured
  memory : Option Nat

namespace World

def valueOf (w : World) (name : String) : Option String :=
  (w.environment.find? (·.1 == name)).map (·.2)

-- The file with the settings of the user, below the directory for such files.
def userFile (w : World) : Option String :=
  let file (directory : String) : String := join directory "dupecheck/config.toml"
  let home := (w.valueOf "HOME").filter (· ≠ "")
  match w.valueOf "XDG_CONFIG_HOME" with
  | some directory =>
    if directory.startsWith "/" then some (file directory)
    else home.map fun home => file (join home ".config")
  | none => home.map fun home => file (join home ".config")

-- The settings for a project, with the file that was asked for.
def settings (w : World) (root : String) (explicit : Option String) :
    Except Refusal (Config Float) :=
  Config.load w.disk (.ofProject w.userFile root explicit) w.environment

-- Which notes are shown.
def noteFilter (w : World) (o : CommonOptions) : LevelFilter :=
  match w.valueOf "RUST_LOG" with
  | some directives => .ofDirectives directives
  | none => .ofVerbosity o.verbose o.quiet

end World

-- When a report is made, and how many milliseconds its scan has taken.
structure Clock where
  time : String
  milliseconds : Nat

-- What a command gives.
inductive Product where
  | report (form : Output) (color : Bool) (found : Duplicates.Report Float) (summary : Summary)
  | settings (text : String)

def Product.text (k : Clock) : Product → String
  | .report .text color found summary =>
    Report.render color found summary (toString k.milliseconds)
  | .report .json _ found summary =>
    (Report.reportValue k.time found summary k.milliseconds .success).pretty ++ "\n"
  | .settings text => text

-- What a command comes to, and its notes.
structure Result where
  product : Except Failure Product
  notes : List Note

-- Scans under settings that options have been applied to.
def scanWith (w : World) (o : ScanOptions) (color : Bool) (c : Config Float) : Result :=
  let run := Scan.scan w.disk c ⟨MemoryGuard.limitOfMegabytes c.memoryLimitMb, w.memory⟩ o.path
  match run.result with
  | .ok (found, summary) => ⟨.ok (.report o.output color found summary), run.notes⟩
  | .error fatal => ⟨.error (.scan fatal), run.notes⟩

def runScan (w : World) (common : CommonOptions) (o : ScanOptions) : Result :=
  match w.settings o.path o.configFile with
  | .ok c => scanWith w o (!common.noColor) (o.apply c)
  | .error r => ⟨.error (.settings r), []⟩

def runConfig (w : World) (o : ConfigOptions) : Result :=
  let settings := if o.defaults then .ok Config.standard else w.settings o.path o.configFile
  match settings.bind Config.text with
  | .ok text => ⟨.ok (.settings text), []⟩
  | .error r => ⟨.error (.settings r), []⟩

def Invocation.run (w : World) (i : Invocation) : Result :=
  match i.task with
  | .scan o => runScan w i.common o
  | .config o => runConfig w o

-- What the program prints: its output, messages beside it, and the number it ends with.
structure Answer where
  exitNumber : Nat
  output : String
  messages : List String

namespace Answer

-- A failure as it is printed.
def failureText (asJson : Bool) (f : Failure) : String :=
  if asJson then (Report.errorValue f.exit f.code? f.message).pretty
  else s!"[{f.exit.code}] Error: {f.message}"

def ofResult (k : Clock) (filter : LevelFilter) (asJson : Bool) (r : Result) : Answer :=
  let notes := (r.notes.filter fun n => filter.admits n.level).map Note.paddedLine
  match r.product with
  | .ok product => ⟨Exit.success.number, product.text k, notes⟩
  | .error f => ⟨f.exit.number, "", notes ++ [failureText asJson f]⟩

def helpText (l : Level) : String :=
  let usage := match l with
    | .program => "Usage: dupecheck [OPTIONS] <COMMAND>\n\nCommands: scan, config, help\n"
    | .scan => "Usage: dupecheck scan [OPTIONS] [PATH]\n"
    | .config => "Usage: dupecheck config [OPTIONS] [PATH]\n"
  let switches := l.switches.map fun s => "  " ++ s.shown ++ "\n"
  usage ++ "\nOptions:\n" ++ String.join switches

def version : String := "0.3.0"

def ofUsage (u : Usage) : Answer :=
  match u, u.message? with
  | .help l, _ => ⟨u.exitNumber, helpText l, []⟩
  | .version l, _ => ⟨u.exitNumber, l.programName ++ " " ++ version ++ "\n", []⟩
  | _, some message => ⟨u.exitNumber, "", ["error: " ++ message]⟩
  | _, none => ⟨u.exitNumber, "", [helpText .program]⟩

end Answer

-- What the program answers to what it is asked.
def Invocation.answer (w : World) (k : Clock) (i : Invocation) (r : Result) : Answer :=
  .ofResult k (w.noteFilter i.common) i.common.jsonErrors r

-- What the arguments of the program ask for.
def World.read (w : World) (arguments : List String) : Except Usage Invocation :=
  Invocation.read (w.valueOf "NO_COLOR") arguments

-- What the program answers to its arguments.
def run (w : World) (k : Clock) (arguments : List String) : Answer :=
  match w.read arguments with
  | .error u => .ofUsage u
  | .ok i => i.answer w k (i.run w)

end Likeness.Command
