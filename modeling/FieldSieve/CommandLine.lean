import FieldSieve.CommandLine.Item
import FieldSieve.Extraction

/-!
# Command line

The items of a command line are taken into account one after another, and whatever is wrong first is
what is reported.  Only what they ask for together, a mode, is settled at the end: paths to capture
add up in their order, and fees cannot be asked for beside them.
-/
namespace FieldSieve.CommandLine

/-- What the arguments ask for. -/
structure Settings where
  /-- The file to read, or nothing for the standard input. -/
  input : Option String := none
  mode : Mode := .dump
  json : Bool := false
  verbose : Bool := false
  deriving DecidableEq, Repr

/-- What the items read so far ask for. -/
structure Draft where
  input : Option String := none
  fee : Bool := false
  captures : List FieldPath := []
  json : Bool := false
  verbose : Bool := false
  deriving DecidableEq, Repr

/-- A text among the arguments. -/
def readText (raw : Bytes) : Except UsageError String :=
  match Text.Utf8.decode? raw with
  | some text => .ok text
  | none => .error (.notText raw)

/-- A path to capture.  The root is refused, as no field is there. -/
def readPath (raw : Bytes) : Except UsageError FieldPath := do
  let text ← readText raw
  match FieldPath.read text with
  | .ok path => if path.isRoot then .error .emptyPath else .ok path
  | .error error => .error (.invalidPath text error)

/-- One more item. -/
def Draft.add (draft : Draft) : Item → Except UsageError Draft
  | .flag .fee => .ok { draft with fee := true }
  | .flag .json => .ok { draft with json := true }
  | .flag .verbose => .ok { draft with verbose := true }
  | .flag .help => .ok draft
  | .capture value => do
    let path ← readPath value
    return { draft with captures := draft.captures ++ [path] }
  | .positional raw =>
    match draft.input with
    | none => do
      let text ← readText raw
      return { draft with input := some text }
    | some _ => .error (.unexpectedArgument raw)
  | .malformed error => .error error

/-- What all items ask for together.  Fees and paths cannot both be asked for. -/
def Draft.settings (draft : Draft) : Except UsageError Settings :=
  match draft.fee, draft.captures with
  | true, _ :: _ => .error .conflictingModes
  | true, [] => .ok ⟨draft.input, .fee, draft.json, draft.verbose⟩
  | false, [] => .ok ⟨draft.input, .dump, draft.json, draft.verbose⟩
  | false, paths => .ok ⟨draft.input, .capture paths, draft.json, draft.verbose⟩

/-- What to do. -/
inductive Request where
  /-- Show how the program is used. -/
  | help
  | extract (settings : Settings)
  deriving DecidableEq, Repr

/-- Takes the items into account in order.  A request for help ends them, whatever follows. -/
def Draft.request (draft : Draft) : List Item → Except UsageError Request
  | [] => draft.settings.map .extract
  | .flag .help :: _ => .ok .help
  | item :: rest => do
    let draft ← draft.add item
    draft.request rest

/-- What some arguments ask for. -/
def read (args : List Bytes) : Except UsageError Request :=
  Draft.request {} (items args)

/-- How the program is used. -/
def usage (program : String) : String :=
  String.join <| List.map (· ++ "\n") [
    "Extract fields from hex-encoded Protocol Buffers messages.",
    "",
    "Reads one message per line from <input>, or stdin if <input> is \"-\" or",
    "omitted. By default every field of the root message is printed.",
    "",
    "Usage: " ++ program ++ " [OPTIONS] [<input>]",
    "",
    "  -f, --fee             Extract the fee from Cosmos SDK transactions",
    "  -c, --capture <PATH>  Capture fields at PATH, eg. \"2:2:1\". Repeatable.",
    "  -j, --json            Print one JSON object per message",
    "  -v, --verbose         Enable verbose logging",
    "  -h, --help            Print help",
    "",
    "The number of decoding threads can be set with PROTOSCAN_NUM_THREADS.",
    ""]

/-- What is wrong first is reported, and a request for help ends the reading. -/
example : Draft.request {} [.capture [0x31], .flag .help, .malformed .emptyPath] = .ok .help := by
  cbv
example : Draft.request {} [.capture [0x20], .flag .help] = .error .emptyPath := by cbv

end FieldSieve.CommandLine
