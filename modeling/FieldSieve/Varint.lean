import FieldSieve.Cursor

/-!
# Variable-length integers

A varint is a row of bytes below one another's weight: each holds seven bits of the number, least
significant first, and its high bit says that another byte follows.  Nothing bounds the row.  A
number has many written forms, since any of them may be padded with empty groups, and bits that
would land beyond the sixty-fourth fall away.

`encode` writes the shortest form.  `Cursor.readVarint` reads up to the first byte with a clear
high bit, and keeps a tally on the way: the bits so far, the place of the next ones and the count.
If there is no such byte the whole rest of the buffer is read and the read fails.
-/
namespace FieldSieve

/-- A number read and the bytes it took. -/
structure Varint where
  value : UInt64
  /-- How many bytes held it. -/
  size : Nat
  deriving DecidableEq, Repr

namespace Varint

/-- Another byte follows this one. -/
def continues (b : UInt8) : Bool :=
  0x80 ≤ b

/-- The sum of the seven-bit groups, each weighing 128 times the one before it. -/
def ofGroups (bytes : Bytes) : UInt64 :=
  bytes.foldr (fun b n => (b &&& 0x7f).toUInt64 + 128 * n) 0

/-- What the groups read so far come to. -/
structure Tally where
  value : UInt64 := 0
  /-- The place of the next group's lowest bit. -/
  shift : Nat := 0
  /-- How many groups there were. -/
  size : Nat := 0
  deriving DecidableEq, Repr

namespace Tally

/-- A place is kept in 32 bits and grows no further than they reach. -/
def lastShift : Nat := 0xffffffff

/-- One more group.  Bits beyond the sixty-fourth are dropped. -/
def add (tally : Tally) (b : UInt8) : Tally where
  value :=
    if tally.shift < 64 then tally.value ||| (b &&& 0x7f).toUInt64 <<< UInt64.ofNat tally.shift
    else tally.value
  shift := min (tally.shift + 7) lastShift
  size := tally.size + 1

/-- The number, once its last group is there. -/
def number (tally : Tally) : Varint := ⟨tally.value, tally.size⟩

end Tally

/-- The shortest row of groups for a number. -/
def groups (n : Nat) : Bytes :=
  if n < 128 then [UInt8.ofNat n] else UInt8.ofNat (n % 128 + 128) :: groups (n / 128)

/-- The shortest written form. -/
def encode (value : UInt64) : Bytes :=
  groups value.toNat

theorem groups_of_lt {n : Nat} (h : n < 128) : groups n = [UInt8.ofNat n] := by
  rw [groups, if_pos h]

theorem groups_of_le {n : Nat} (h : 128 ≤ n) :
    groups n = UInt8.ofNat (n % 128 + 128) :: groups (n / 128) := by
  rw [groups, if_neg (Nat.not_lt.mpr h)]

theorem groups_ne_nil (n : Nat) : groups n ≠ [] := by
  rw [groups]; split <;> simp

theorem encode_ne_nil (value : UInt64) : encode value ≠ [] :=
  groups_ne_nil _

end Varint

namespace Cursor

/-- Reads groups up to the last one, or to the end of the buffer if no group is the last. -/
def readGroups (tally : Varint.Tally) (cursor : Cursor) :
    (unread : Bytes) → cursor.unread = unread → EStateM.Result Fault Cursor Varint
  | [], _ => .error .endOfStream cursor
  | b :: rest, h =>
    let next := cursor.advance 1 (one_le_remaining h)
    if Varint.continues b then readGroups (tally.add b) next rest (by simp [next, h])
    else .ok (tally.add b).number next

/-- Reads a number. -/
def readVarint : Reader Varint := fun cursor => readGroups {} cursor cursor.unread rfl

variable {c d : Cursor} {tally : Varint.Tally} {unread : Bytes}

/-- Each turn of the loop reads a byte. -/
theorem readGroups_eq (tally : Varint.Tally) (c : Cursor) : readGroups tally c c.unread rfl =
    match readByte c with
    | .ok b d =>
      if Varint.continues b then readGroups (tally.add b) d d.unread rfl
      else .ok (tally.add b).number d
    | .error fault d => .error fault d := by
  obtain ⟨position, remaining, unread, hlength⟩ := c
  cases unread <;> rfl

theorem leadsTo_readGroups (h : c.unread = unread) :
    c.LeadsTo (stateAfter (readGroups tally c unread h)) := by
  induction unread generalizing tally c with
  | nil => exact .refl c
  | cons b rest ih =>
    have fits := one_le_remaining h
    rw [readGroups]
    split
    · exact (leadsTo_advance fits).trans (ih _)
    · exact leadsTo_advance fits

theorem forward_readVarint : readVarint.Forward :=
  fun _ => leadsTo_readGroups rfl

/-- A number read fills the bytes between the two cursors, and there is at least one. -/
theorem advance_of_readGroups {v : Varint} (h : c.unread = unread)
    (hread : readGroups tally c unread h = .ok v d) :
    ∃ n, ∃ fits, 0 < n ∧ v.size = tally.size + n ∧ d = c.advance n fits := by
  induction unread generalizing tally c with
  | nil => cases hread
  | cons b rest ih =>
    have fits := one_le_remaining h
    rw [readGroups] at hread
    split at hread
    · obtain ⟨n, hn, -, hsize, rfl⟩ := ih _ hread
      refine ⟨1 + n, _, by omega, ?_, advance_advance fits hn⟩
      rw [hsize, Varint.Tally.add, Nat.add_assoc]
    · cases hread
      exact ⟨1, fits, Nat.one_pos, rfl, rfl⟩

theorem advance_of_readVarint {v : Varint} (h : readVarint c = .ok v d) :
    0 < v.size ∧ ∃ fits, d = c.advance v.size fits := by
  obtain ⟨n, fits, hn, hsize, rfl⟩ := advance_of_readGroups rfl h
  obtain rfl : v.size = n := hsize.trans (Nat.zero_add n)
  exact ⟨hn, fits, rfl⟩

/-- A number may be padded, and only its written form tells. -/
example : readVarint (.ofBytes [0x96, 0x01]) = .ok ⟨150, 2⟩ ⟨2, 0, [], rfl⟩ := by cbv
example : readVarint (.ofBytes [0x96, 0x81, 0x00]) = .ok ⟨150, 3⟩ ⟨3, 0, [], rfl⟩ := by cbv

/-- A number without a last group uses up the buffer. -/
example : readVarint (.ofBytes [0x96, 0x81]) = .error .endOfStream ⟨2, 0, [], rfl⟩ := by cbv

end Cursor
end FieldSieve
