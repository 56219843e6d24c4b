import FieldSieve.Key
import FieldSieve.Scalar
import FieldSieve.Text.Utf8

/-!
# Writing messages

A message is its fields one after another, so a field is written as its bytes and a message is put
together with `++`.  Every number is written in its shortest form.  An embedded message is no more
than a payload: its own bytes with their length in front.
-/
namespace FieldSieve.Message

/-- A field with a number. -/
def scalar (number : UInt64) : Scalar → Bytes
  | .varint value => Key.encode 0 number ++ Varint.encode value
  | .fixed64 value => Key.encode 1 number ++ Bytes.littleEndian 8 value.toNat
  | .fixed32 value => Key.encode 5 number ++ Bytes.littleEndian 4 value.toNat

/-- A field with a payload: a byte string, a text or an embedded message. -/
def payload (number : UInt64) (value : Bytes) : Bytes :=
  Key.encode 2 number ++ Varint.encode (UInt64.ofNat value.length) ++ value

/-- A field with a text. -/
def text (number : UInt64) (value : String) : Bytes :=
  payload number (Text.Utf8.encode value)

theorem payload_ne_nil (number : UInt64) (value : Bytes) : payload number value ≠ [] := by
  simp [payload, Key.encode, Varint.encode_ne_nil]

end FieldSieve.Message
