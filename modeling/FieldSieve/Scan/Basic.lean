import FieldSieve.Event
import FieldSieve.Nesting

/-!
# Scans

A scan goes over a buffer once, from field to field, and asks a policy which messages to enter.  It
does not cut the buffer into messages: a message that is entered becomes an open frame with an end,
its fields are read like any others, and the frame is closed when the position reaches its end.

Between two fields a scan is a cursor, the open frames and a count.  While it is under way it also
carries the state of its policy and a journal (`Walk`).
-/
namespace FieldSieve

/-- What a scan may use. -/
structure Limits where
  /-- The greatest length of the whole buffer. -/
  maxLength : Option Nat := none
  /-- The greatest number of nested fields, the innermost scalar or payload included. -/
  maxDepth : Option Nat := none
  deriving DecidableEq, Repr

/-- A scan between two fields. -/
structure Scan where
  cursor : Cursor
  nesting : Nesting
  /-- How many keys were read. -/
  visited : Nat
  limits : Limits

/-- A scan that is under way: with the state of its policy, and with what has happened so far. -/
structure Walk (σ : Type) extends Scan where
  state : σ
  /-- What happened, oldest first. -/
  journal : Array Event

namespace Scan

/-- A scan that has not begun. -/
def ofBytes (bytes : Bytes) (limits : Limits) : Scan :=
  ⟨.ofBytes bytes, .empty, 0, limits⟩

/-- What is wrong with the length of the buffer. -/
def excess? (scan : Scan) : Option Fault :=
  match scan.limits.maxLength with
  | some limit =>
    if limit < scan.cursor.size then some (.inputTooLarge scan.cursor.size limit) else none
  | none => none

end Scan

namespace Walk

variable {σ : Type}

/-- Writes a line of the journal. -/
def record (event : Event) (walk : Walk σ) : Walk σ :=
  { walk with journal := walk.journal.push event }

end Walk
end FieldSieve
