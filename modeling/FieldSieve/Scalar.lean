import FieldSieve.Bytes
import FieldSieve.WireType

/-!
# Scalars

A value of fixed shape is a number, stored as a varint or on eight or four bytes.  A policy receives
it as bytes, like any other value: the bytes of the buffer if the width is fixed, and the shortest
bytes of the number if it was a varint, so that the two agree on what the number is and a padded
varint cannot be told from a tight one.
-/
namespace FieldSieve

/-- A number and how it is stored. -/
inductive Scalar where
  | varint (value : UInt64)
  | fixed64 (value : UInt64)
  | fixed32 (value : UInt32)
  deriving DecidableEq, Repr

namespace Scalar

/-- How the number is stored. -/
def wireType : Scalar → WireType
  | varint _ => .varint
  | fixed64 _ => .fixed64
  | fixed32 _ => .fixed32

/-- The bytes that a policy receives. -/
def bytes : Scalar → Bytes
  | varint value => Bytes.ofWord value
  | fixed64 value => Bytes.littleEndian 8 value.toNat
  | fixed32 value => Bytes.littleEndian 4 value.toNat

/-- The number. -/
def word : Scalar → UInt64
  | varint value => value
  | fixed64 value => value
  | fixed32 value => value.toUInt64

/-- The signed number behind a zigzag code: even codes count up from zero, odd ones down from
minus one. -/
def zigzag (code : UInt64) : Int :=
  if code % 2 = 0 then (code / 2).toNat else -(code / 2).toNat - 1

theorem isScalar_wireType (scalar : Scalar) : scalar.wireType.isScalar = true := by
  cases scalar <;> rfl

end Scalar
end FieldSieve
