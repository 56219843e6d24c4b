import FieldSieve.Message
import FieldSieve.Policy

/-!
# Messages as trees

A message under a policy is a tree.  Its leaves are scalars and the payloads that the policy did
not enter, each marked as delivered or not; its inner nodes are the messages that it did enter.

The tree says both what the bytes are, when every number is written in its shortest form
(`Node.encodeAll`), and which calls the policy sees: those of a walk that visits a message before
its fields and the fields in order (`Node.callsAll`).
-/
namespace FieldSieve

/-- A field with all that is in it. -/
inductive Node where
  | scalar (number : UInt64) (value : Scalar)
  /-- A payload that is not looked into, delivered or passed over. -/
  | payload (number : UInt64) (value : Bytes) (delivered : Bool)
  /-- A message that is entered. -/
  | message (number : UInt64) (fields : List Node)

namespace Node

mutual

/-- The bytes of a field. -/
def encode : Node → Bytes
  | scalar number value => Message.scalar number value
  | payload number value _ => Message.payload number value
  | message number fields => Message.payload number (encodeAll fields)

/-- The bytes of a message with these fields. -/
def encodeAll : List Node → Bytes
  | [] => []
  | node :: rest => node.encode ++ encodeAll rest

end

mutual

/-- The calls that a field of the message at `parent` gives rise to. -/
def calls (parent : FieldPath) : Node → List Call
  | scalar number value => [.delivered value.wireType number value.bytes (parent.child number)]
  | payload number _ false => [.asked number parent .skip]
  | payload number value true =>
    [.asked number parent .capture,
      .delivered .lengthDelimited number value (parent.child number)]
  | message number fields => .asked number parent .descend :: callsAll (parent.child number) fields

/-- The calls that the fields of the message at `parent` give rise to. -/
def callsAll (parent : FieldPath) : List Node → List Call
  | [] => []
  | node :: rest => node.calls parent ++ callsAll parent rest

end

mutual

/-- How many fields there are in a field, itself included. -/
def count : Node → Nat
  | scalar _ _ => 1
  | payload _ _ _ => 1
  | message _ fields => countAll fields + 1

/-- How many fields there are in a message, at any depth. -/
def countAll : List Node → Nat
  | [] => 0
  | node :: rest => node.count + countAll rest

end

variable {fields rest : List Node} {parent : FieldPath}

@[simp] theorem callsAll_append :
    callsAll parent (fields ++ rest) = callsAll parent fields ++ callsAll parent rest := by
  induction fields with
  | nil => rfl
  | cons node fields ih => rw [List.cons_append, callsAll, callsAll, ih, List.append_assoc]

end Node
end FieldSieve
