import FieldSieve.Fault
import FieldSieve.FieldPath.Text
import FieldSieve.Key
import FieldSieve.Policy

/-!
# What happens in a scan

A scan keeps a journal: every key read, every question put to the policy, every value delivered,
and how the scan ended.  The calls on the policy and the log are both read off the journal.
-/
namespace FieldSieve

/-- One thing that happened in a scan. -/
inductive Event where
  /-- A key was read at an offset; the path is that of its field. -/
  | keyRead (offset : Nat) (key : Key) (path : FieldPath)
  /-- The policy was asked about a payload that starts at an offset and declares a length. -/
  | asked (number : UInt64) (parent : FieldPath) (start length : Nat) (answer : Decision)
  /-- The policy was given a value. -/
  | delivered (wireType : WireType) (number : UInt64) (value : Bytes) (path : FieldPath)
  /-- The scan broke off at a field. -/
  | failed (error : DecodeError)
  /-- The scan reached the end of a buffer of a given length, with a number of fields visited. -/
  | completed (length visited : Nat)
  deriving DecidableEq, Repr

/-- How much a log entry matters. -/
inductive LogLevel where
  | trace
  | debug
  deriving DecidableEq, Repr

/-- The name of a level. -/
def LogLevel.name : LogLevel → String
  | trace => "TRACE"
  | debug => "DEBUG"

/-- One line of the log: a message and named values. -/
structure LogEntry where
  level : LogLevel
  message : String
  values : List (String × String)
  deriving DecidableEq, Repr

namespace Event

/-- The call on the policy, if the event is one. -/
def call? : Event → Option Call
  | asked number parent _ _ answer => some (.asked number parent answer)
  | delivered wireType number value path => some (.delivered wireType number value path)
  | _ => none

/-- The line that the event leaves in the log, if it leaves one. -/
def logEntry? : Event → Option LogEntry
  | asked number parent _ length answer => some ⟨.trace, "length-delimited field",
      [("number", number.toNat.repr), ("len", length.repr), ("path", (parent.child number).text),
        ("decision", answer.logName)]⟩
  | failed error => some ⟨.debug, "parse failed",
      [("offset", error.offset.repr), ("path", error.path), ("error", error.fault.message)]⟩
  | completed length visited => some ⟨.debug, "parse complete",
      [("len", length.repr), ("fields", visited.repr)]⟩
  | _ => none

end Event
end FieldSieve
