import FieldSieve.Scalar
import FieldSieve.Scan.Basic

/-!
# Reading a field

At each field the checks come in this order: the key must be there and usable, the frame must not
be too deep, the value or the length must be there, the policy is asked, the payload must be there,
and a message must end inside the message around it.  A scalar, a skipped or a captured payload that
runs past the end of its message is noticed only when it has been read, by the frame that should
have ended before the position.

Main statement: a field moves the position by at least the byte of its key
(`Walk.remaining_lt_of_field`), which is why a scan ends.
-/
namespace FieldSieve

/-- A part of a field's reading. -/
abbrev Step (σ α : Type) := EStateM Fault (Walk σ) α

namespace Walk

variable {σ α β : Type}

/-- Reads from the buffer. -/
def read (reader : Reader α) : Step σ α := fun walk =>
  match reader walk.cursor with
  | .ok a cursor => .ok a { walk with cursor }
  | .error fault cursor => .error fault { walk with cursor }

/-- Counts a field whose key stood at `offset`, and opens its frame. -/
def enter (offset : Nat) (key : Key) : Step σ Unit := fun walk =>
  let nesting := walk.nesting.push key.number none
  let walk := { walk with
    nesting
    visited := walk.visited + 1
    journal := walk.journal.push (.keyRead offset key nesting.path) }
  match walk.limits.maxDepth with
  | some limit =>
    if limit < nesting.depth then .error (.depthLimitExceeded limit) walk else .ok () walk
  | none => .ok () walk

/-- Closes the field's frame. -/
def leave : Step σ Unit := fun walk =>
  .ok () { walk with nesting := walk.nesting.pop }

/-- Delivers the field's value and closes its frame. -/
def deliver (P : Policy σ) (key : Key) (value : Bytes) : Step σ Unit := fun walk =>
  let path := walk.nesting.path
  .ok () { walk with
    nesting := walk.nesting.pop
    state := P.deliver key.wireType key.number value path walk.state
    journal := walk.journal.push (.delivered key.wireType key.number value path) }

/-- Asks the policy about the payload of `length` bytes that starts here. -/
def ask (P : Policy σ) (key : Key) (length : Nat) : Step σ Decision := fun walk =>
  let parent := walk.nesting.path.parent
  let (answer, state) := P.answer key.number parent walk.state
  .ok answer { walk with
    state
    journal := walk.journal.push (.asked key.number parent walk.cursor.position length answer) }

/-- Leaves the field's frame open, to end `length` bytes further on. -/
def descend (length : Nat) : Step σ Unit := fun walk =>
  let finish := walk.cursor.position + length
  if walk.nesting.enclosingEnd?.any (· < finish) then .error .messageOverrun walk
  else match walk.nesting.setEnd finish with
    | .ok nesting => .ok () { walk with nesting }
    | .error fault => .error fault walk

/-- Reads the length of a payload and does what the policy says. -/
def payload (P : Policy σ) (key : Key) : Step σ Unit := do
  let length := (← read Cursor.readVarint).value.toNat
  match ← ask P key length with
  | .skip =>
    read (Cursor.skip length)
    leave
  | .capture =>
    let value ← read (Cursor.readBytes length)
    deliver P key value
  | .descend =>
    read (Cursor.require length)
    descend length

/-- Reads what stands behind a key. -/
def value (P : Policy σ) (key : Key) : Step σ Unit :=
  match key.wireType with
  | .varint => do
    let number ← read Cursor.readVarint
    deliver P key (Scalar.varint number.value).bytes
  | .fixed64 => do
    let value ← read (Cursor.readBytes 8)
    deliver P key value
  | .fixed32 => do
    let value ← read (Cursor.readBytes 4)
    deliver P key value
  | .lengthDelimited => payload P key
  | .startGroup | .endGroup => throw (.unsupportedWireType key.wireType.id)

/-- Closes the frames that end here; none may have ended before. -/
def close : Step σ Unit := fun walk =>
  let position := walk.cursor.position
  let nesting := walk.nesting.closeAt position
  let walk := { walk with nesting }
  if nesting.overrunAt position then .error .messageOverrun walk else .ok () walk

/-- Reads one field. -/
def field (P : Policy σ) : Step σ Unit := do
  let offset := (← get).cursor.position
  let key ← read Cursor.readKey
  enter offset key
  value P key
  close

/-- The step never goes back in the buffer. -/
def Forward (step : Step σ α) : Prop :=
  ∀ walk : Walk σ, walk.cursor.LeadsTo (stateAfter (step walk)).cursor

theorem Forward.bind {step : Step σ α} {next : α → Step σ β} (hs : Forward step)
    (hn : ∀ a, Forward (next a)) : Forward (step >>= next) := by
  intro walk
  have h := hs walk
  rw [show (step >>= next) walk = EStateM.bind step next walk from rfl, EStateM.bind]
  cases hr : step walk with
  | ok a w =>
    rw [hr] at h
    exact h.trans (hn a w)
  | error fault w =>
    rw [hr] at h
    exact h

theorem forward_read {reader : Reader α} (h : reader.Forward) :
    Forward (read reader : Step σ α) := by
  intro walk
  have h := h walk.cursor
  unfold read
  cases hr : reader walk.cursor with
  | ok a c => rw [hr] at h; exact h
  | error fault c => rw [hr] at h; exact h

theorem forward_enter (offset : Nat) (key : Key) : Forward (enter offset key : Step σ Unit) := by
  intro walk
  simp only [enter]
  split
  · split <;> exact .refl _
  · exact .refl _

theorem forward_descend (length : Nat) : Forward (descend length : Step σ Unit) := by
  intro walk
  simp only [descend]
  split
  · exact .refl _
  · split <;> exact .refl _

theorem forward_payload (P : Policy σ) (key : Key) : Forward (payload P key) := by
  refine (forward_read Cursor.forward_readVarint).bind fun word => ?_
  refine Forward.bind (fun _ => .refl _) fun answer => ?_
  cases answer with
  | skip => exact (forward_read (Cursor.forward_skip _)).bind fun _ _ => .refl _
  | capture => exact (forward_read (Cursor.forward_readBytes _)).bind fun _ _ => .refl _
  | descend => exact (forward_read (Cursor.forward_require _)).bind fun _ => forward_descend _

theorem forward_value (P : Policy σ) (key : Key) : Forward (value P key) := by
  unfold value
  split
  · exact (forward_read Cursor.forward_readVarint).bind fun _ _ => .refl _
  · exact (forward_read (Cursor.forward_readBytes _)).bind fun _ _ => .refl _
  · exact (forward_read (Cursor.forward_readBytes _)).bind fun _ _ => .refl _
  · exact forward_payload P key
  · exact fun _ => .refl _
  · exact fun _ => .refl _

theorem forward_close : Forward (close : Step σ Unit) := by
  intro walk
  simp only [close]
  split <;> exact .refl _

/-- A field that was read leaves less to read. -/
theorem remaining_lt_of_field {P : Policy σ} {walk next : Walk σ} {done : Unit}
    (h : field P walk = .ok done next) : next.cursor.remaining < walk.cursor.remaining := by
  obtain ⟨_, _, hget, h⟩ := bind_eq_ok.mp h
  cases hget
  obtain ⟨key, afterKey, hkey, h⟩ := bind_eq_ok.mp h
  have hlt : afterKey.cursor.remaining < walk.cursor.remaining := by
    unfold read at hkey
    split at hkey
    · next hr =>
      cases hkey
      exact Cursor.remaining_lt_of_readKey hr
    · cases hkey
  let rest : Step σ Unit :=
    enter walk.cursor.position key >>= fun _ => value P key >>= fun _ => close
  have hrest : Forward rest :=
    (forward_enter _ _).bind fun _ => (forward_value P key).bind fun _ => forward_close
  have hle := (hrest afterKey).remaining_le
  rw [show rest afterKey = .ok done next from h] at hle
  exact Nat.lt_of_le_of_lt hle hlt

end Walk
end FieldSieve
