import FieldSieve.Varint
import FieldSieve.WireType

/-!
# Field keys

Every field starts with a varint that packs its number and its wire type.  A key is usable when its
type can be followed by a value; group markers and unassigned types are refused by their number.
-/
namespace FieldSieve

/-- What stands before a value. -/
structure Key where
  wireType : WireType
  number : UInt64
  deriving DecidableEq, Repr

/-- The wire type with a given number; other numbers are unassigned. -/
def WireType.ofNumber (id : Nat) : Except Fault WireType :=
  match WireType.ofId? id with
  | some type => .ok type
  | none => .error (.unsupportedWireType id)

namespace Key

/-- A type and a number in one word.  The three highest bits of the number fall out. -/
def pack (type number : UInt64) : UInt64 :=
  type ||| number <<< 3

/-- The shortest written form of a packed key. -/
def encode (type number : UInt64) : Bytes :=
  Varint.encode (pack type number)

/-- The key in a word. -/
def unpack (word : UInt64) : Except Fault Key :=
  let id := (word % 8).toNat
  match WireType.ofId? id with
  | some type =>
    if type.isGroup then .error (.unsupportedWireType id) else .ok ⟨type, word / 8⟩
  | none => .error (.unsupportedWireType id)

theorem isGroup_of_unpack {word : UInt64} {key : Key} (h : unpack word = .ok key) :
    key.wireType.isGroup = false := by
  simp only [unpack] at h
  split at h
  · split at h
    · cases h
    · cases h; simp_all
  · cases h

theorem number_of_unpack {word : UInt64} {key : Key} (h : unpack word = .ok key) :
    key.number = word / 8 := by
  simp only [unpack] at h
  split at h
  · split at h <;> cases h
    rfl
  · cases h

end Key

namespace Cursor

/-- Reads a varint and takes it apart.  A refused key has been read all the same. -/
def readKey : Reader Key := fun cursor =>
  match readVarint cursor with
  | .ok word cursor =>
    match Key.unpack word.value with
    | .ok key => .ok key cursor
    | .error fault => .error fault cursor
  | .error fault cursor => .error fault cursor

variable {c d : Cursor}

/-- A key read is the word between the two cursors, taken apart. -/
theorem readVarint_of_readKey {key : Key} (h : readKey c = .ok key d) :
    ∃ word, readVarint c = .ok word d ∧ Key.unpack word.value = .ok key := by
  simp only [readKey] at h
  split at h
  · next word _ hw =>
    split at h
    · next hk => cases h; exact ⟨word, hw, hk⟩
    · cases h
  · cases h

theorem forward_readKey : readKey.Forward := by
  intro c
  have h := forward_readVarint c
  unfold readKey
  cases hr : readVarint c with
  | ok word d =>
    rw [hr] at h
    dsimp only
    split <;> exact h
  | error fault d =>
    rw [hr] at h
    exact h

/-- A key takes at least one byte. -/
theorem remaining_lt_of_readKey {key : Key} (h : readKey c = .ok key d) :
    d.remaining < c.remaining := by
  obtain ⟨word, hw, -⟩ := readVarint_of_readKey h
  obtain ⟨hpos, fits, rfl⟩ := advance_of_readVarint hw
  rw [remaining_advance]
  omega

end Cursor
end FieldSieve
