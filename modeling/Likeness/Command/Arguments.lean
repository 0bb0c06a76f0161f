import Likeness.Command.Options
import Likeness.Command.Usage
import Likeness.Number.Word

namespace Likeness.Command

-- What has been given at one level.
structure Given where
  -- the options, in the order they were last given
  seen : List Switch
  verbose : Nat
  path : Option String
  output : Option Output
  configFile : Option String
  minFunctionLines : Option Nat
  ioThreads : Option Nat
  memoryLimitMb : Option Nat
  ignorePatterns : List String

namespace Given

def none : Given := ⟨[], 0, .none, .none, .none, .none, .none, .none, []⟩

def has (g : Given) (s : Switch) : Bool := g.seen.contains s

end Given

-- The digits of a number of at most 64 bits, added to what has been read of it.
def readDigits (n : Nat) : List Char → Except NumberFault Nat
  | [] => .ok n
  | c :: rest =>
    if !c.isDigit then .error .notADigit
    else
      let n := n * 10 + (c.toNat - 48)
      if n < Number.wordLimit then readDigits n rest else .error .tooLarge

def readNumber (text : String) : Except NumberFault Nat :=
  match text.toList with
  | [] => .error .empty
  | ['+'] => .error .notADigit
  | '+' :: digits => readDigits 0 digits
  | digits => readDigits 0 digits

namespace Given

def number (s : Switch) (value : String) : Except Usage Nat :=
  (readNumber value).mapError (.wrongNumber value s.shown)

-- Stores the value of an option.
def store (s : Switch) (value : String) (g : Given) : Except Usage Given :=
  let number (put : Nat → Given) : Except Usage Given := (number s value).map put
  match s with
  | .output =>
    match Output.ofName? value with
    | some output => .ok { g with output := some output }
    | .none => .error (if value = "" then .missingValue s.shown else .wrongValue value s.shown)
  | .config =>
    if value = "" then .error (.missingValue s.shown)
    else .ok { g with configFile := some value }
  | .minFunctionLines => number fun n => { g with minFunctionLines := some n }
  | .ioThreads => number fun n => { g with ioThreads := some n }
  | .memoryLimitMb => number fun n => { g with memoryLimitMb := some n }
  | .ignore => .ok { g with ignorePatterns := g.ignorePatterns ++ [value] }
  | _ => .ok g

-- Gives an option, with a value if it takes one. Help is given at once.
def give (l : Level) (s : Switch) (value : Option String) (g : Given) : Except Usage Given :=
  let seen := g.seen.filter (· ≠ s) ++ [s]
  match s, value with
  | .help, _ => .error (.help l)
  | .version, _ => .error (.version l)
  | .verbose, _ => .ok { g with seen, verbose := min (g.verbose + 1) 255 }
  | s, value =>
    match s.valueName?, value with
    | some _, .none => .error (.missingValue s.shown)
    | some _, some value =>
      if !s.isRepeatable && g.has s then .error (.twice s.shown)
      else { g with seen }.store s value
    | .none, _ => if g.has s then .error (.twice s.shown) else .ok { g with seen }

-- Gives the path of a command.
def givePath (path : String) (g : Given) : Except Usage Given :=
  if path = "" then .error (.missingValue "[PATH]") else .ok { g with path := some path }

end Given

-- What was read last and is looked at only when something else follows it.
inductive Pending where
  | nothing
  | option (s : Switch) (value : Option String)
  | path (path : String)

-- What has been given before an argument, and what is still pending.
structure State where
  given : Given
  pending : Pending
  hasPath : Bool

namespace State

def start : State := ⟨.none, .nothing, false⟩

-- Gives what is pending.
def settle (l : Level) (st : State) : Except Usage State :=
  let settled : Except Usage Given := match st.pending with
    | .nothing => .ok st.given
    | .option s value => st.given.give l s value
    | .path path => st.given.givePath path
  settled.map fun given => { st with given, pending := .nothing }

-- Gives an option after what is pending.
def give (l : Level) (s : Switch) (value : Option String) (st : State) : Except Usage State := do
  let st ← st.settle l
  let given ← st.given.give l s value
  return { st with given }

-- Makes an option pending until its value is read.
def await (l : Level) (s : Switch) (st : State) : Except Usage State :=
  (st.settle l).map fun st => { st with pending := .option s none }

-- An argument after two hyphens: the name of an option, perhaps with its value.
def long (l : Level) (body : List Char) (st : State) : Except Usage State :=
  let name := String.ofList (body.takeWhile (· ≠ '='))
  let value := match body.dropWhile (· ≠ '=') with
    | '=' :: value => some (String.ofList value)
    | _ => none
  match l.ofLong? name with
  | none => .error (.unknownArgument ("--" ++ name))
  | some s =>
    match s.valueName?, value with
    | some _, some value => st.give l s (some value)
    | some _, none => st.await l s
    | none, some value => .error (.unneededValue value s.shown)
    | none, none => st.give l s none

-- An argument after one hyphen: letters of options, of which the last may have a value.
def shorts (l : Level) : List Char → State → Except Usage State
  | [], st => .ok st
  | c :: rest, st =>
    match l.ofShort? c with
    | none => .error (.unknownArgument ("-" ++ c.toString))
    | some s =>
      match s.valueName?, rest with
      | none, rest =>
        match st.give l s none with
        | .ok st => shorts l rest st
        | .error u => .error u
      | some _, [] => st.await l s
      | some _, '=' :: value => st.give l s (some (String.ofList value))
      | some _, value => st.give l s (some (String.ofList value))

-- An argument without hyphens, or after two hyphens that stand alone: the path of a command.
def positional (l : Level) (trailing : Bool) (arg : String) (st : State) : Except Usage State :=
  if l = .program then
    if trailing && (arg = "help" || (Level.ofName? arg).isSome) then .error (.unknownArgument arg)
    else .error (.unknownCommand arg)
  else if st.hasPath then .error (.unknownArgument arg)
  else (st.settle l).map fun st => { st with pending := .path arg, hasPath := true }

-- An argument before two hyphens that stand alone.
def argument (l : Level) (arg : String) (st : State) : Except Usage State :=
  match arg.toList, st.pending with
  | '-' :: '-' :: body, _ => st.long l body
  | '-' :: c :: body, _ => st.shorts l (c :: body)
  | _, .option s none => .ok { st with pending := .option s (some arg) }
  | _, _ => st.positional l false arg

end State

-- Asks for help on some commands, each within the one before.
def helpOn : Level → List String → Usage
  | l, [] => .help l
  | l, name :: rest =>
    if l = .program then
      match Level.ofName? name, name, rest with
      | some l, _, rest => helpOn l rest
      | none, "help", [] => .help l
      | none, "help", other :: _ => .unknownCommand other
      | none, _, _ => .unknownCommand name
    else .unknownCommand name

-- The command that is called, and its arguments.
structure Call where
  command : Level
  arguments : List String

-- Reads arguments up to the first command. After two hyphens that stand alone no options are read.
def readArguments (l : Level) : Bool → State → List String → Except Usage (Given × Option Call)
  | _, st, [] => (st.settle l).map fun st => (st.given, none)
  | true, st, arg :: rest =>
    match st.positional l true arg with
    | .ok st => readArguments l true st rest
    | .error u => .error u
  | false, st, arg :: rest =>
    match decide (l = .program), arg, Level.ofName? arg with
    | true, "help", _ => .error (helpOn .program rest)
    | true, _, some command => .ok (st.given, some ⟨command, rest⟩)
    | _, _, _ =>
      if arg = "--" then readArguments l true st rest
      else
        match st.argument l arg with
        | .ok st => readArguments l false st rest
        | .error u => .error u

namespace Given

-- What the variable for plain output says, where no option says it.
def colorVariable (text : Option String) (g : Given) : Except Usage (Option Bool) :=
  if g.has .noColor then .ok .none
  else
    match text with
    | .none => .ok .none
    | some "true" => .ok (some true)
    | some "false" => .ok (some false)
    | some "" => .error (.missingValue Switch.noColor.shown)
    | some other => .error (.wrongValue other Switch.noColor.shown)

-- The first option that is given together with one that excludes it.
def conflict? (g : Given) : Option Usage :=
  g.seen.findSome? fun s =>
    (s.conflictsWith.filter g.has).map fun other => .conflict s.shown other.shown

-- Looks at what has been given at one level, and says whether output is to be plain.
def check (text : Option String) (g : Given) : Except Usage Bool :=
  match g.colorVariable text with
  | .error u => .error u
  | .ok color =>
    match g.conflict? with
    | some u => .error u
    | .none => .ok (g.has .noColor || color.getD false)

def common (outer inner : Given) (noColor : Bool) : CommonOptions :=
  let has (s : Switch) : Bool := outer.has s || inner.has s
  ⟨if inner.has .verbose then inner.verbose else outer.verbose, has .quiet, noColor,
    has .jsonErrors⟩

def scanOptions (g : Given) : ScanOptions :=
  ⟨g.path.getD ".", g.output.getD .text, g.configFile, g.minFunctionLines, g.ioThreads,
    g.memoryLimitMb, g.ignorePatterns, g.has .includePackageFiles, g.has .skipHidden,
    g.has .noFunctions, g.has .noModules, g.has .noResources, g.has .noComponents⟩

def configOptions (g : Given) : ConfigOptions :=
  ⟨g.path.getD ".", g.configFile, g.has .defaults⟩

end Given

-- What the arguments of the program ask for. `colorVariable` is the variable for plain output.
def Invocation.read (colorVariable : Option String) (arguments : List String) :
    Except Usage Invocation := do
  let (outer, call) ← readArguments .program false .start arguments
  match call with
  | none =>
    let color ← outer.colorVariable colorVariable
    throw (if outer.seen.isEmpty && color.isNone then .noArguments else .missingCommand)
  | some call =>
    let (inner, _) ← readArguments call.command false .start call.arguments
    let plainInside ← inner.check colorVariable
    let plainOutside ← outer.check colorVariable
    let task := match call.command with
      | .config => .config inner.configOptions
      | _ => .scan inner.scanOptions
    return ⟨Given.common outer inner (plainInside || plainOutside), task⟩

end Likeness.Command
