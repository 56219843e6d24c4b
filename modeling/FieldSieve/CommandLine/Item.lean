import FieldSieve.CommandLine.UsageError

/-!
# Items of a command line

Arguments are byte strings, and an argument is not always a unit of meaning: a cluster of short
options is several, and an option may need the argument after it.  Here the arguments are cut into
items, each an option with its value or a positional argument.

An argument that starts with two dashes is a long option, and may carry a value after `=`.  One that
starts with a single dash is a cluster of short options; the option that takes a value takes the
rest of the cluster, without a `=` in front, or the next argument as it stands.  Two dashes alone
end the options, and a single dash alone is positional.
-/
namespace FieldSieve.CommandLine

/-- An option without a value. -/
inductive Flag where
  | fee
  | json
  | verbose
  | help
  deriving DecidableEq, Repr

/-- One unit of the command line. -/
inductive Item where
  | flag (flag : Flag)
  /-- The option that takes a path. -/
  | capture (value : Bytes)
  | positional (raw : Bytes)
  /-- What follows cannot be read. -/
  | malformed (error : UsageError)
  deriving DecidableEq, Repr

/-- The flag with a given name. -/
def Flag.ofName? : OptionName → Option Flag
  | .short 'f' | .long "fee" => some fee
  | .short 'j' | .long "json" => some json
  | .short 'v' | .long "verbose" => some verbose
  | .short 'h' | .long "help" => some help
  | _ => none

/-- The option with a given name is the one that takes a path. -/
def takesPath : OptionName → Bool
  | .short 'c' | .long "capture" => true
  | _ => false

/-- An argument by its form. -/
inductive Form where
  /-- Two dashes and nothing else. -/
  | terminator
  | long (name : String) (value : Option Bytes)
  /-- The bytes after the dash. -/
  | cluster (bytes : Bytes)
  | plain
  deriving DecidableEq, Repr

/-- The form of an argument. -/
def Form.ofBytes : Bytes → Form
  | [0x2d, 0x2d] => terminator
  | 0x2d :: 0x2d :: body =>
    let name := Text.Utf8.decodeLossy (body.takeWhile (· != 0x3d))
    match body.dropWhile (· != 0x3d) with
    | _ :: value => long name (some value)
    | [] => long name none
  | 0x2d :: b :: rest => cluster (b :: rest)
  | _ => plain

/-- The items in a cluster of short options, the last option read given.  The flag says that the
last item still needs its value. -/
def clusterItems (last : Option Char) : Bytes → List Item × Bool
  | [] => ([], false)
  | b :: rest =>
    let (first, taken) := Text.Utf8.piece b rest
    let behind := rest.drop taken
    match first, last with
    | .char '=', some c => ([.malformed (.unexpectedValue (.short c) behind)], false)
    | .broken _, _ => ([.malformed (.invalidOption (.short '\ufffd'))], false)
    | .char c, _ =>
      if takesPath (.short c) then
        match behind with
        | [] => ([], true)
        | 0x3d :: value => ([.capture value], false)
        | value => ([.capture value], false)
      else match Flag.ofName? (.short c) with
        | some flag =>
          let (items, needsValue) := clusterItems (some c) behind
          (.flag flag :: items, needsValue)
        | none => ([.malformed (.invalidOption (.short c))], false)
termination_by bytes => bytes.length
decreasing_by exact Text.Utf8.length_drop_lt b rest _

/-- The items of a long option that does not take the next argument. -/
def longItems (name : String) (value : Option Bytes) : List Item :=
  match Flag.ofName? (.long name), value with
  | some flag, none => [.flag flag]
  | some flag, some value => [.flag flag, .malformed (.unexpectedValue (.long name) value)]
  | none, _ => [.malformed (.invalidOption (.long name))]

/-- The items of the command line. -/
def items : List Bytes → List Item
  | [] => []
  | arg :: rest =>
    match Form.ofBytes arg with
    | .terminator => rest.map .positional
    | .plain => .positional arg :: items rest
    | .long name value =>
      if takesPath (.long name) then
        match value, rest with
        | some value, rest => .capture value :: items rest
        | none, value :: rest => .capture value :: items rest
        | none, [] => [.malformed (.missingValue (.long name))]
      else longItems name value ++ items rest
    | .cluster bytes =>
      let (found, needsValue) := clusterItems none bytes
      if needsValue then
        match rest with
        | value :: rest => found ++ .capture value :: items rest
        | [] => found ++ [.malformed (.missingValue (.short 'c'))]
      else found ++ items rest

/-- Flags in one cluster and flags in arguments of their own are the same items. -/
example : items [[0x2d, 0x66, 0x6a]] = items [[0x2d, 0x66], [0x2d, 0x6a]] := by cbv

end FieldSieve.CommandLine
