import FieldSieve.Tree

/-!
# Reading a message from its own bytes

The plain way to read a message under a policy: take the fields off the front of its bytes one by
one, and where the policy enters a payload, read the payload in the same way as a message of its
own.  The bytes are cut at every payload, so no field can reach past the message around it, and no
position or end is ever compared.

The result is the tree of the message and the policy's last state, or nothing where some piece
cannot be read.
-/
namespace FieldSieve

/-- A field by its own bytes alone: a number or a payload. -/
inductive Item where
  | scalar (number : UInt64) (value : Scalar)
  | payload (number : UInt64) (value : Bytes)
  deriving DecidableEq, Repr

namespace Item

/-- How many bytes of payload there are. -/
def payloadLength : Item → Nat
  | scalar _ _ => 0
  | payload _ value => value.length

/-- Reads what stands behind a key. -/
def readBehind (key : Key) : Reader Item :=
  match key.wireType with
  | .varint => do
    let value ← Cursor.readVarint
    return scalar key.number (.varint value.value)
  | .fixed64 => do
    let bytes ← Cursor.readBytes 8
    return scalar key.number (.fixed64 bytes.word)
  | .fixed32 => do
    let bytes ← Cursor.readBytes 4
    return scalar key.number (.fixed32 bytes.word.toUInt32)
  | .lengthDelimited => do
    let length ← Cursor.readVarint
    let value ← Cursor.readBytes length.value.toNat
    return payload key.number value
  | .startGroup | .endGroup => throw (.unsupportedWireType key.wireType.id)

/-- Reads a key and what stands behind it. -/
def read : Reader Item := do
  let key ← Cursor.readKey
  readBehind key

/-- The first field of a row, and the bytes after it. -/
def split? (bytes : Bytes) : Option (Item × Bytes) :=
  match read (.ofBytes bytes) with
  | .ok item cursor => some (item, cursor.unread)
  | .error _ _ => none

variable {item : Item} {c d : Cursor}

theorem remaining_le_of_readVarint {v : Varint} (h : Cursor.readVarint c = .ok v d) :
    d.remaining ≤ c.remaining := by
  have := (Cursor.forward_readVarint c).remaining_le
  rwa [h] at this

theorem remaining_le_of_readBehind {key : Key} (h : readBehind key c = .ok item d) :
    item.payloadLength + d.remaining ≤ c.remaining := by
  obtain ⟨type, number⟩ := key
  cases type with
  | varint =>
    obtain ⟨value, after, hv, h⟩ := bind_eq_ok.mp h
    cases h
    simpa [payloadLength] using remaining_le_of_readVarint hv
  | fixed64 =>
    obtain ⟨bytes, after, hb, h⟩ := bind_eq_ok.mp h
    cases h
    have := Cursor.length_of_readBytes hb
    simp only [payloadLength]; omega
  | fixed32 =>
    obtain ⟨bytes, after, hb, h⟩ := bind_eq_ok.mp h
    cases h
    have := Cursor.length_of_readBytes hb
    simp only [payloadLength]; omega
  | lengthDelimited =>
    obtain ⟨length, afterLength, hl, h⟩ := bind_eq_ok.mp h
    obtain ⟨value, after, hb, h⟩ := bind_eq_ok.mp h
    cases h
    have := remaining_le_of_readVarint hl
    have := Cursor.length_of_readBytes hb
    simp only [payloadLength]; omega
  | startGroup => cases h
  | endGroup => cases h

theorem remaining_lt_of_read (h : read c = .ok item d) :
    item.payloadLength + d.remaining < c.remaining := by
  obtain ⟨key, afterKey, hkey, h⟩ := bind_eq_ok.mp h
  exact Nat.lt_of_le_of_lt (remaining_le_of_readBehind h) (Cursor.remaining_lt_of_readKey hkey)

/-- A field is longer than its payload, so the payload and what follows are shorter than the row. -/
theorem length_lt_of_split? {bytes rest : Bytes} (h : split? bytes = some (item, rest)) :
    item.payloadLength + rest.length < bytes.length := by
  unfold split? at h
  split at h
  · next hr =>
    cases h
    have := remaining_lt_of_read hr
    rwa [← Cursor.unread_length, ← Cursor.unread_length] at this
  · cases h

end Item

namespace Node

variable {σ : Type}

/-- The fields of a message and the policy's state after them. -/
def decodeAll (P : Policy σ) (path : FieldPath) (bytes : Bytes) (state : σ) :
    Option (List Node × σ) :=
  if bytes.isEmpty then some ([], state)
  else match _split : Item.split? bytes with
    | none => none
    | some (.scalar number value, rest) => do
      let state := P.deliver value.wireType number value.bytes (path.child number) state
      let (fields, state) ← decodeAll P path rest state
      return (scalar number value :: fields, state)
    | some (.payload number value, rest) =>
      match P.answer number path state with
      | (.skip, state) => do
        let (fields, state) ← decodeAll P path rest state
        return (payload number value false :: fields, state)
      | (.capture, state) => do
        let state := P.deliver .lengthDelimited number value (path.child number) state
        let (fields, state) ← decodeAll P path rest state
        return (payload number value true :: fields, state)
      | (.descend, state) => do
        let (inner, state) ← decodeAll P (path.child number) value state
        let (fields, state) ← decodeAll P path rest state
        return (message number inner :: fields, state)
termination_by bytes.length
decreasing_by
  all_goals
    have := Item.length_lt_of_split? _split
    simp only [Item.payloadLength] at this
    omega

end Node
end FieldSieve
