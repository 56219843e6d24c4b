import FieldSieve.CommandLine

/-!
# The program

A run of the program is a function of its arguments and of what its source of input gives.  The
source is read only if the arguments are in order and ask for it, so a run is a request first and
an outcome second.
-/
namespace FieldSieve.Program

/-- Why the input could not be read. -/
inductive ReadError where
  /-- The operating system refused, with a number, a kind and a text of its own. -/
  | system (code : Nat) (kind : String) (text : String)
  /-- The bytes are not UTF-8. -/
  | notText
  deriving DecidableEq, Repr

namespace ReadError

/-- There is no such file. -/
def notFound : ReadError := system 2 "NotFound" "No such file or directory"

/-- The file is a directory. -/
def isDirectory : ReadError := system 21 "IsADirectory" "Is a directory"

/-- The cause in words. -/
def message : ReadError → String
  | system code kind text =>
    "Os \x7b code: " ++ code.repr ++ ", kind: " ++ kind ++ ", message: " ++ Text.quote text
      ++ " \x7d"
  | notText =>
    "Error \x7b kind: InvalidData, message: " ++ Text.quote "stream did not contain valid UTF-8"
      ++ " \x7d"

end ReadError

/-- Where the input comes from. -/
inductive Source where
  | standardInput
  | file (name : String)
  deriving DecidableEq, Repr

/-- The source that the settings name.  A single dash stands for the standard input. -/
def source (settings : CommandLine.Settings) : Source :=
  match settings.input with
  | none | some "-" => .standardInput
  | some name => .file name

/-- What a run leaves behind. -/
structure Outcome where
  status : Nat
  output : String
  errors : String
  deriving DecidableEq, Repr

/-- A run that went well. -/
def Outcome.success (output : String) : Outcome := ⟨0, output, ""⟩

/-- A run that an error ended. -/
def Outcome.failure (message : String) : Outcome := ⟨1, "", "Error: " ++ message ++ "\n"⟩

/-- The reports on an input. -/
def output (settings : CommandLine.Settings) (input : String) : String :=
  let reports := settings.mode.reports (InputLine.ofText input)
  String.join <| reports.map fun report =>
    if settings.json then report.json ++ "\n" else report.text

/-- The outcome for an input that was read, or was not. -/
def outcome (settings : CommandLine.Settings) (input : Except ReadError Bytes) : Outcome :=
  match input with
  | .error error => .failure error.message
  | .ok bytes =>
    match Text.Utf8.decode? bytes with
    | some text => .success (output settings text)
    | none => .failure ReadError.notText.message

/-- A run of the program in a setting where sources can be read with `read`. -/
def run {m : Type → Type} [Monad m] (name : String) (args : List Bytes)
    (read : Source → m (Except ReadError Bytes)) : m Outcome :=
  match CommandLine.read args with
  | .error error => pure (.failure error.message)
  | .ok .help => pure (.success (CommandLine.usage name))
  | .ok (.extract settings) => do
    let input ← read (source settings)
    return outcome settings input

end FieldSieve.Program
