import FieldSieve.Selection
import FieldSieve.Text.Utf8

/-!
# Captured fields

A collector keeps what a scan delivers, in the order of delivery.  It looks either for the targets
of a selection or at the fields of the root message, whose payloads it keeps as they are.

A scalar is delivered wherever the scan passes it, so a collector that selects keeps only the values
at targets.
-/
namespace FieldSieve

/-- A value and where it stood. -/
structure CapturedField where
  path : FieldPath
  wireType : WireType
  value : Bytes
  deriving DecidableEq, Repr

namespace CapturedField

/-- The field's own number, or zero for a value at the root. -/
def number (field : CapturedField) : UInt64 := field.path.last?.getD 0

/-- The integer, of a field that holds one. -/
def integer? (field : CapturedField) : Option UInt64 :=
  if field.wireType.isScalar then some field.value.word else none

/-- The text, of a payload that is one. -/
def text? (field : CapturedField) : Option String :=
  if field.wireType = .lengthDelimited then Text.Utf8.decode? field.value else none

end CapturedField

/-- What a collector keeps. -/
inductive Scope where
  /-- The targets of a selection. -/
  | selected (selection : Selection)
  /-- The fields of the root message. -/
  | rootFields

namespace Scope

/-- What to do with a length-delimited field. -/
def answer : Scope → UInt64 → FieldPath → Decision
  | selected selection, number, parent => selection.answer number parent
  | rootFields, _, _ => .capture

/-- A value at this path is kept. -/
def keeps : Scope → FieldPath → Bool
  | selected selection, path => selection.isTarget path
  | rootFields, _ => true

/-- The policy that keeps what is in scope, oldest first. -/
def collector (scope : Scope) : Policy (Array CapturedField) where
  answer number parent fields := (scope.answer number parent, fields)
  deliver wireType _ value path fields :=
    if scope.keeps path then fields.push ⟨path, wireType, value⟩ else fields

/-- A value leaves the collector's list longer by itself, or as it was. -/
theorem toList_deliver_collector (scope : Scope) (wireType : WireType) (number : UInt64)
    (value : Bytes) (path : FieldPath) (fields : Array CapturedField) :
    (scope.collector.deliver wireType number value path fields).toList =
      fields.toList ++ if scope.keeps path then [⟨path, wireType, value⟩] else [] := by
  cases h : scope.keeps path <;> simp [collector, h]

end Scope
end FieldSieve
