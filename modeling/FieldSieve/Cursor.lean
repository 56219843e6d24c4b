import FieldSieve.Bytes
import FieldSieve.Fault

/-!
# Reading position

A cursor is a position together with the bytes not yet read.  Their number is kept beside them, so
that a length taken from the input is compared with what is left and never counted out.

A `Reader` gives its result and the cursor after it, also when it fails.  A read of `n` bytes
succeeds exactly when `n` bytes are left; when it fails the cursor has not moved.  No read ever goes
back: the cursor after it lies further on in the same buffer (`Cursor.LeadsTo`).
-/
namespace FieldSieve

/-- A position in a buffer and what follows it. -/
structure Cursor where
  /-- How many bytes were read. -/
  position : Nat
  /-- How many bytes are left. -/
  remaining : Nat
  /-- The bytes left. -/
  unread : Bytes
  unread_length : unread.length = remaining
  deriving DecidableEq, Repr

/-- A read: its result or a fault, and the cursor that either leaves. -/
abbrev Reader := EStateM Fault Cursor

namespace Cursor

/-- The start of a buffer. -/
def ofBytes (bytes : Bytes) : Cursor :=
  ⟨0, bytes.length, bytes, rfl⟩

/-- The length of the whole buffer. -/
def size (cursor : Cursor) : Nat :=
  cursor.position + cursor.remaining

/-- Nothing is left to read. -/
def atEnd (cursor : Cursor) : Bool :=
  cursor.remaining == 0

/-- The cursor `n` bytes further on. -/
def advance (cursor : Cursor) (n : Nat) (h : n ≤ cursor.remaining) : Cursor where
  position := cursor.position + n
  remaining := cursor.remaining - n
  unread := cursor.unread.drop n
  unread_length := by
    have := cursor.unread_length
    simp; omega

/-- Fails unless `n` bytes are left; reads none. -/
def require (n : Nat) : Reader Unit := fun cursor =>
  if n ≤ cursor.remaining then .ok () cursor else .error .endOfStream cursor

/-- The next `n` bytes. -/
def readBytes (n : Nat) : Reader Bytes := fun cursor =>
  if h : n ≤ cursor.remaining then .ok (cursor.unread.take n) (cursor.advance n h)
  else .error .endOfStream cursor

/-- Passes over the next `n` bytes. -/
def skip (n : Nat) : Reader Unit := fun cursor =>
  if h : n ≤ cursor.remaining then .ok () (cursor.advance n h) else .error .endOfStream cursor

theorem one_le_remaining {cursor : Cursor} {b : UInt8} {rest : Bytes}
    (h : cursor.unread = b :: rest) : 1 ≤ cursor.remaining := by
  simp [← cursor.unread_length, h]

/-- The next byte. -/
def readByte : Reader UInt8 := fun cursor =>
  match h : cursor.unread with
  | [] => .error .endOfStream cursor
  | b :: _ => .ok b (cursor.advance 1 (one_le_remaining h))

variable {cursor : Cursor} {n : Nat}

@[ext] theorem ext {c d : Cursor} (hp : c.position = d.position) (hu : c.unread = d.unread) :
    c = d := by
  obtain ⟨p, r, u, h⟩ := c
  obtain ⟨q, s, v, k⟩ := d
  obtain rfl : p = q := hp
  obtain rfl : u = v := hu
  obtain rfl : r = s := h.symm.trans k
  rfl

@[simp] theorem unread_ofBytes (bytes : Bytes) : (ofBytes bytes).unread = bytes := rfl

@[simp] theorem size_ofBytes (bytes : Bytes) : (ofBytes bytes).size = bytes.length := by
  simp [ofBytes, size]

theorem atEnd_iff : cursor.atEnd = true ↔ cursor.unread = [] := by
  simp [atEnd, ← cursor.unread_length]

@[simp] theorem position_advance (h : n ≤ cursor.remaining) :
    (cursor.advance n h).position = cursor.position + n := rfl

@[simp] theorem remaining_advance (h : n ≤ cursor.remaining) :
    (cursor.advance n h).remaining = cursor.remaining - n := rfl

@[simp] theorem unread_advance (h : n ≤ cursor.remaining) :
    (cursor.advance n h).unread = cursor.unread.drop n := rfl

theorem advance_advance {m : Nat} (hn : n ≤ cursor.remaining)
    (hm : m ≤ (cursor.advance n hn).remaining) : (cursor.advance n hn).advance m hm =
      cursor.advance (n + m) (by rw [remaining_advance] at hm; omega) := by
  ext1 <;> simp [Nat.add_assoc]

/-- Moving on inside the buffer does not change its length. -/
@[simp] theorem size_advance (h : n ≤ cursor.remaining) :
    (cursor.advance n h).size = cursor.size := by
  simp [size]; omega

theorem readBytes_of_le (h : n ≤ cursor.remaining) :
    readBytes n cursor = .ok (cursor.unread.take n) (cursor.advance n h) := by
  simp [readBytes, h]

theorem readBytes_of_lt (h : cursor.remaining < n) :
    readBytes n cursor = .error .endOfStream cursor := by
  simp [readBytes, Nat.not_le.mpr h]

theorem skip_of_le (h : n ≤ cursor.remaining) : skip n cursor = .ok () (cursor.advance n h) := by
  simp [skip, h]

theorem skip_of_lt (h : cursor.remaining < n) : skip n cursor = .error .endOfStream cursor := by
  simp [skip, Nat.not_le.mpr h]

theorem require_of_le (h : n ≤ cursor.remaining) : require n cursor = .ok () cursor := by
  simp [require, h]

theorem require_of_lt (h : cursor.remaining < n) :
    require n cursor = .error .endOfStream cursor := by
  simp [require, Nat.not_le.mpr h]

/-- A byte is a read of one byte. -/
theorem readByte_eq : readByte cursor = match readBytes 1 cursor with
    | .ok bytes c => .ok (bytes.headD 0) c
    | .error fault c => .error fault c := by
  obtain ⟨p, r, u, h⟩ := cursor
  cases u with
  | nil =>
    obtain rfl : r = 0 := by simpa using h.symm
    rfl
  | cons b rest =>
    have : 1 ≤ r := by simp at h; omega
    simp [readByte, readBytes, this]

/-- The second cursor lies on the same buffer, `n` bytes further on for some `n`. -/
def LeadsTo (c d : Cursor) : Prop :=
  ∃ n, ∃ h : n ≤ c.remaining, d = c.advance n h

theorem leadsTo_advance (h : n ≤ cursor.remaining) : cursor.LeadsTo (cursor.advance n h) :=
  ⟨n, h, rfl⟩

theorem LeadsTo.refl (c : Cursor) : c.LeadsTo c :=
  ⟨0, Nat.zero_le _, by ext1 <;> simp⟩

theorem LeadsTo.trans {c d e : Cursor} (hcd : c.LeadsTo d) (hde : d.LeadsTo e) : c.LeadsTo e := by
  obtain ⟨n, hn, rfl⟩ := hcd
  obtain ⟨m, hm, rfl⟩ := hde
  exact ⟨n + m, _, advance_advance hn hm⟩

theorem LeadsTo.remaining_le {c d : Cursor} (h : c.LeadsTo d) : d.remaining ≤ c.remaining := by
  obtain ⟨n, hn, rfl⟩ := h
  simp

theorem LeadsTo.position_le {c d : Cursor} (h : c.LeadsTo d) : c.position ≤ d.position := by
  obtain ⟨n, hn, rfl⟩ := h
  simp

theorem LeadsTo.size_eq {c d : Cursor} (h : c.LeadsTo d) : d.size = c.size := by
  obtain ⟨n, hn, rfl⟩ := h
  simp

end Cursor

/-- The state that a result leaves, whether it is a value or an error. -/
def stateAfter {ε σ α : Type} : EStateM.Result ε σ α → σ
  | .ok _ state => state
  | .error _ state => state

section Bind

variable {ε σ α β : Type} {step : EStateM ε σ α} {next : α → EStateM ε σ β} {state between : σ}

theorem bind_of_ok {a : α} (h : step state = .ok a between) :
    (step >>= next) state = next a between := by
  rw [show (step >>= next) state = EStateM.bind step next state from rfl, EStateM.bind, h]

theorem bind_of_error {fault : ε} (h : step state = .error fault between) :
    (step >>= next) state = .error fault between := by
  rw [show (step >>= next) state = EStateM.bind step next state from rfl, EStateM.bind, h]

/-- Two steps in a row succeed exactly when the first does and the second does from there. -/
theorem bind_eq_ok {done : σ} {b : β} :
    (step >>= next) state = .ok b done ↔
      ∃ a between, step state = .ok a between ∧ next a between = .ok b done := by
  rw [show (step >>= next) state = EStateM.bind step next state from rfl, EStateM.bind]
  cases step state with
  | ok a between =>
    exact ⟨fun h => ⟨a, between, rfl, h⟩, by rintro ⟨_, _, ⟨⟩, h⟩; exact h⟩
  | error fault between => exact ⟨nofun, by rintro ⟨_, _, ⟨⟩, _⟩⟩

end Bind

/-- The read never goes back. -/
def Reader.Forward {α : Type} (reader : Reader α) : Prop :=
  ∀ cursor : Cursor, cursor.LeadsTo (stateAfter (reader cursor))

namespace Cursor

theorem forward_require (n : Nat) : (require n).Forward := by
  intro c
  unfold require
  split <;> exact LeadsTo.refl c

theorem forward_readBytes (n : Nat) : (readBytes n).Forward := by
  intro c
  unfold readBytes
  split
  · next h => exact leadsTo_advance h
  · exact LeadsTo.refl c

theorem length_of_readBytes {c d : Cursor} {bytes : Bytes} (h : readBytes n c = .ok bytes d) :
    bytes.length + d.remaining = c.remaining := by
  have hc := c.unread_length
  unfold readBytes at h
  split at h
  · next hn =>
    cases h
    rw [List.length_take, remaining_advance]
    omega
  · cases h

theorem forward_skip (n : Nat) : (skip n).Forward := by
  intro c
  unfold skip
  split
  · next h => exact leadsTo_advance h
  · exact LeadsTo.refl c

end Cursor
end FieldSieve
