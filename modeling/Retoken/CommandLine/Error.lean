/-!
# Errors on the command line
-/

namespace Retoken

inductive UsageError where
  | noCommand
  | helpRequested
  | unknownCommand (word : String)
  | unknownArgument (word : String)
  | missingValue (option : String)
  | emptyPath
  | unlistedValue (value : String)
  | malformedNumber (value : String)
  /-- A value given to an option that takes none. -/
  | unexpectedValue (option value : String)
  | repeatedOption (option : String)
  | missingArgument (argument : String)
deriving DecidableEq, Repr

def UsageError.message : UsageError → String
  | noCommand => "a command is required: replace or sites"
  | helpRequested => "help was asked for"
  | unknownCommand word => s!"unrecognized command '{word}'"
  | unknownArgument word => s!"unexpected argument '{word}' found"
  | missingValue option => s!"a value is required for '{option}' but none was supplied"
  | emptyPath => "a path must not be empty"
  | unlistedValue value => s!"invalid value '{value}'"
  | malformedNumber value => s!"invalid number '{value}'"
  | unexpectedValue option value => s!"unexpected value '{value}' for '{option}'"
  | repeatedOption option => s!"the argument '{option}' cannot be used multiple times"
  | missingArgument argument => s!"the argument '{argument}' was not provided"

end Retoken
