import FieldSieve.Key

/-!
# Reading with positions in machine words

On a machine a position is a word of 64 bits, and so are a length, what is left of the buffer and
the sum of a position and a length.  A difference of words that would be negative and a sum that
does not fit come out as some other word, and nothing tells.

The cursor below is no more than a buffer and such a position.  It computes what is left when it
needs it and goes on by adding lengths that come from the input.  Wherever a difference would be
negative or a sum would lie past the end of the buffer, it stops and says so (`Stop.outOfRange`).
Nothing in its types rules that out: it depends on what is checked before the sums are taken.
-/
namespace FieldSieve

/-- A buffer and a position in it. -/
structure WordCursor where
  buffer : Bytes
  position : UInt64

/-- Why a read breaks off. -/
inductive Stop where
  /-- Something is wrong with the bytes. -/
  | fault (fault : Fault)
  /-- A difference of words would be negative, or a position would lie past the buffer. -/
  | outOfRange

/-- A read: its result or why there is none, and the cursor that either leaves. -/
abbrev WordReader := EStateM Stop WordCursor

namespace WordCursor

/-- The start of a buffer. -/
def ofBytes (buffer : Bytes) : WordCursor := ⟨buffer, 0⟩

/-- The length of the buffer, in a word. -/
def length (cursor : WordCursor) : UInt64 := UInt64.ofNat cursor.buffer.length

/-- How many bytes are left: the length less the position. -/
def remaining : WordReader UInt64 := fun cursor =>
  if cursor.position ≤ cursor.length then .ok (cursor.length - cursor.position) cursor
  else .error .outOfRange cursor

/-- Moves on to the sum of the position and a length. -/
def advance (n : UInt64) : WordReader Unit := fun cursor =>
  if cursor.position.toNat + n.toNat ≤ cursor.length.toNat then
    .ok () { cursor with position := cursor.position + n }
  else .error .outOfRange cursor

/-- Fails unless `n` bytes are left; reads none. -/
def require (n : UInt64) : WordReader Unit := do
  let left ← remaining
  if n ≤ left then return () else throw (.fault .endOfStream)

/-- The next byte. -/
def readByte : WordReader UInt8 := do
  let cursor ← get
  match cursor.buffer[cursor.position.toNat]? with
  | some b => do
    advance 1
    return b
  | none => throw (.fault .endOfStream)

/-- The next `n` bytes: those between the position and the one after the read. -/
def readBytes (n : UInt64) : WordReader Bytes := do
  require n
  let before ← get
  advance n
  let behind ← get
  return (before.buffer.take behind.position.toNat).drop before.position.toNat

/-- The next `n` bytes, looked at once more. -/
def readArray (n : UInt64) : WordReader Bytes := do
  let bytes ← readBytes n
  if bytes.length = n.toNat then return bytes else throw (.fault .endOfStream)

/-- Passes over the next `n` bytes. -/
def skip (n : UInt64) : WordReader Unit := do
  require n
  advance n

variable {cursor next : WordCursor} {n : UInt64}

/-- A sum that is not past the end of the buffer is the sum of the numbers. -/
theorem position_of_advance (h : advance n cursor = .ok () next) :
    next.buffer = cursor.buffer ∧ next.position.toNat = cursor.position.toNat + n.toNat ∧
      next.position.toNat ≤ cursor.buffer.length := by
  unfold advance at h
  split at h
  · next hsum =>
    cases h
    have hlength : cursor.length.toNat = cursor.buffer.length % 2 ^ 64 := UInt64.toNat_ofNat'
    have hposition : (cursor.position + n).toNat = cursor.position.toNat + n.toNat := by
      rw [UInt64.toNat_add, Nat.mod_eq_of_lt (by omega)]
    exact ⟨rfl, hposition, by dsimp only; omega⟩
  · cases h

/-- Each byte read leaves less in front of the position. -/
theorem length_sub_lt_of_readByte {b : UInt8} (h : readByte cursor = .ok b next) :
    next.buffer.length - next.position.toNat < cursor.buffer.length - cursor.position.toNat := by
  obtain ⟨_, _, hget, h⟩ := bind_eq_ok.mp h
  cases hget
  cases hbyte : cursor.buffer[cursor.position.toNat]? with
  | none =>
    rw [hbyte] at h
    cases h
  | some found =>
    rw [hbyte] at h
    obtain ⟨_, _, hadvance, h⟩ := bind_eq_ok.mp h
    cases h
    obtain ⟨hbuffer, hposition, hle⟩ := position_of_advance hadvance
    rw [hbuffer, hposition]
    rw [hposition] at hle
    exact Nat.sub_lt_sub_left (Nat.lt_of_succ_le hle) (Nat.lt_succ_self _)

/-- Reads groups, byte by byte, up to the last one. -/
def readGroups (tally : Varint.Tally) (cursor : WordCursor) :
    EStateM.Result Stop WordCursor Varint :=
  match _ : readByte cursor with
  | .ok b next =>
    if Varint.continues b then readGroups (tally.add b) next else .ok (tally.add b).number next
  | .error stop next => .error stop next
termination_by cursor.buffer.length - cursor.position.toNat
decreasing_by exact length_sub_lt_of_readByte ‹_›

/-- Reads a number. -/
def readVarint : WordReader Varint := readGroups {}

/-- Reads a number and takes it apart. -/
def readKey : WordReader Key := do
  let word ← readVarint
  match Key.unpack word.value with
  | .ok key => return key
  | .error fault => throw (.fault fault)

end WordCursor
end FieldSieve
