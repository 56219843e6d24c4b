import FieldSieve.Text.Decimal
import FieldSieve.Text.Quoted

/-!
# Wrong usage

What can be wrong with the arguments of the program.  Raw arguments are shown in quoted form, since
they need not be text; the path of a capture is text by the time it is looked at, and is shown as it
was given.
-/
namespace FieldSieve.CommandLine

/-- An option as it was written. -/
inductive OptionName where
  | short (c : Char)
  | long (name : String)
  deriving DecidableEq, Repr

/-- The name with its dashes. -/
def OptionName.text : OptionName → String
  | short c => "-" ++ c.toString
  | long name => "--" ++ name

/-- What is wrong with the arguments. -/
inductive UsageError where
  /-- There is more than one positional argument. -/
  | unexpectedArgument (raw : Bytes)
  /-- A flag was given a value. -/
  | unexpectedValue (option : OptionName) (value : Bytes)
  /-- Nothing follows an option that takes a value. -/
  | missingValue (option : OptionName)
  | invalidOption (option : OptionName)
  /-- An argument is not UTF-8. -/
  | notText (raw : Bytes)
  | invalidPath (text : String) (error : Text.NumberError)
  | emptyPath
  | conflictingModes
  deriving DecidableEq, Repr

/-- The cause in words. -/
def UsageError.message : UsageError → String
  | unexpectedArgument raw => "unexpected argument " ++ Text.quoteBytes raw
  | unexpectedValue option value =>
    "unexpected argument for option '" ++ option.text ++ "': " ++ Text.quoteBytes value
  | missingValue option => "missing argument for option '" ++ option.text ++ "'"
  | invalidOption option => "invalid option '" ++ option.text ++ "'"
  | notText raw => "argument is invalid unicode: " ++ Text.quoteBytes raw
  | invalidPath text error => "invalid capture path \"" ++ text ++ "\": " ++ error.message
  | emptyPath => "capture path must not be empty"
  | conflictingModes => "\x60--fee\x60 and \x60--capture\x60 cannot be combined"

end FieldSieve.CommandLine
