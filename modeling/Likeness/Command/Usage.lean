import Likeness.Command.Switch

namespace Likeness.Command

-- Why a text is no whole number.
inductive NumberFault where
  | empty
  | notADigit
  | tooLarge
deriving DecidableEq

def NumberFault.message : NumberFault → String
  | .empty => "cannot parse integer from empty string"
  | .notADigit => "invalid digit found in string"
  | .tooLarge => "number too large to fit in target type"

-- Why the arguments ask for nothing that can be done: they ask for help, or they are not
-- understood. Options are named as messages name them.
inductive Usage where
  | help (l : Level)
  | version (l : Level)
  | noArguments
  | missingCommand
  | unknownCommand (name : String)
  | unknownArgument (argument : String)
  | missingValue (option : String)
  | wrongValue (value option : String)
  | wrongNumber (value option : String) (fault : NumberFault)
  | unneededValue (value option : String)
  | twice (option : String)
  | conflict (first second : String)

namespace Usage

-- What is wrong; nothing if only help is asked for.
def message? : Usage → Option String
  | .help _ | .version _ | .noArguments => none
  | .missingCommand => some "'dupecheck' requires a subcommand but one was not provided"
  | .unknownCommand name => some s!"unrecognized subcommand '{name}'"
  | .unknownArgument argument => some s!"unexpected argument '{argument}' found"
  | .missingValue option => some s!"a value is required for '{option}' but none was supplied"
  | .wrongValue value option => some s!"invalid value '{value}' for '{option}'"
  | .wrongNumber value option fault =>
    some s!"invalid value '{value}' for '{option}': {fault.message}"
  | .unneededValue value option =>
    some s!"unexpected value '{value}' for '{option}' found; no more were expected"
  | .twice option => some s!"the argument '{option}' cannot be used multiple times"
  | .conflict first second => some s!"the argument '{first}' cannot be used with '{second}'"

-- The number the program ends with.
def exitNumber : Usage → Nat
  | .help _ | .version _ => 0
  | _ => 2

end Usage

end Likeness.Command
