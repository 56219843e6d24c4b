import FieldSieve.Scan.Field

/-!
# Running a scan

A run reads field after field until the buffer is used up or a field cannot be read.  An error is
given the offset of the field's key and the path of the frames then open.

A scan may be run again after it has ended: it goes on where it stopped, with the frames and the
count that it was left with.  Only then can frames be open at the end of the buffer.

The loop is governed by three equations, for the end of the buffer, for a field that can be read and
for one that cannot (`toEnd_of_atEnd`, `toEnd_of_ok`, `toEnd_of_error`).
-/
namespace FieldSieve

namespace Walk

variable {σ : Type}

/-- One field, and the fact that reading it leaves less to read. -/
def nextField (P : Policy σ) (walk : Walk σ) :
    { result : EStateM.Result Fault (Walk σ) Unit //
      ∀ next, result = .ok () next → next.cursor.remaining < walk.cursor.remaining } :=
  ⟨field P walk, fun _ => remaining_lt_of_field⟩

/-- What a fault makes of a walk that stood at `offset` before the field. -/
def broken (offset : Nat) (fault : Fault) (walk : Walk σ) :
    EStateM.Result DecodeError (Walk σ) Unit :=
  let error := fault.located offset walk.nesting.path.text
  .error error (walk.record (.failed error))

/-- Reads field after field up to the end of the buffer. -/
def toEnd (P : Policy σ) (walk : Walk σ) : EStateM.Result DecodeError (Walk σ) Unit :=
  if walk.cursor.atEnd then .ok () walk
  else match nextField P walk with
    | ⟨.ok _ next, _shorter⟩ => toEnd P next
    | ⟨.error fault rest, _⟩ => broken walk.cursor.position fault rest
termination_by walk.cursor.remaining
decreasing_by exact _shorter _ rfl

/-- At the end of the buffer every frame has to be closed. -/
def finish (walk : Walk σ) : EStateM.Result DecodeError (Walk σ) Unit :=
  if walk.nesting.isEmpty then .ok () (walk.record (.completed walk.cursor.size walk.visited))
  else
    let fault := Fault.brokenNesting "frames remain open at end of input"
    .error (fault.located walk.cursor.position walk.nesting.path.text) walk

variable {P : Policy σ} {walk next : Walk σ}

theorem toEnd_of_atEnd (h : walk.cursor.atEnd = true) : toEnd P walk = .ok () walk := by
  rw [toEnd, if_pos h]

/-- A field that can be read is read, and the walk goes on behind it. -/
theorem toEnd_of_ok (h : walk.cursor.atEnd = false) (hf : field P walk = .ok () next) :
    toEnd P walk = toEnd P next := by
  rw [toEnd, if_neg (by simp [h]), nextField]
  split
  · next hn => cases hf.symm.trans (congrArg Subtype.val hn); rfl
  · next hn => cases hf.symm.trans (congrArg Subtype.val hn)

/-- A field that cannot be read ends the walk. -/
theorem toEnd_of_error {fault : Fault} (h : walk.cursor.atEnd = false)
    (hf : field P walk = .error fault next) :
    toEnd P walk = broken walk.cursor.position fault next := by
  rw [toEnd, if_neg (by simp [h]), nextField]
  split
  · next hn => cases hf.symm.trans (congrArg Subtype.val hn)
  · next hn => cases hf.symm.trans (congrArg Subtype.val hn); rfl

end Walk

/-- What a run of a scan gives. -/
structure Run (σ : Type) where
  result : Except DecodeError Unit
  /-- What is left of the scan. -/
  scan : Scan
  /-- The policy's state after the run. -/
  state : σ
  /-- What happened, oldest first. -/
  events : List Event

namespace Run

variable {σ : Type}

/-- The run that came to a result. -/
def ofResult : EStateM.Result DecodeError (Walk σ) Unit → Run σ
  | .ok _ walk => ⟨.ok (), walk.toScan, walk.state, walk.journal.toList⟩
  | .error error walk => ⟨.error error, walk.toScan, walk.state, walk.journal.toList⟩

/-- The calls made on the policy. -/
def calls (run : Run σ) : List Call := run.events.filterMap Event.call?

/-- The lines left in the log. -/
def log (run : Run σ) : List LogEntry := run.events.filterMap Event.logEntry?

/-- How many fields the scan has visited, earlier runs included. -/
def visited (run : Run σ) : Nat := run.scan.visited

end Run

/-- Scans what is left of the buffer.  Values delivered before an error stay delivered. -/
def Scan.run {σ : Type} (P : Policy σ) (scan : Scan) (state : σ) : Run σ :=
  match scan.excess? with
  | some fault => ⟨.error fault.unlocated, scan, state, []⟩
  | none =>
    .ofResult <| match Walk.toEnd P ⟨scan, state, #[]⟩ with
      | .ok _ walk => walk.finish
      | .error error walk => .error error walk

/-- Scans a whole buffer with a policy that starts in `state`. -/
def scan {σ : Type} (P : Policy σ) (bytes : Bytes) (state : σ) (limits : Limits := {}) :
    Run σ :=
  (Scan.ofBytes bytes limits).run P state

/-- The buffer `08 01 0a 02 10 05`: field 1 with the number one, and a field 1 that is the message
with 5 in its field 2. -/
example : (scan .countValues [0x08, 0x01, 0x0a, 0x02, 0x10, 0x05] 0).state = 2 := by cbv

/-- A number that ends behind its message is an overrun, at its key and in its message. -/
example : (scan .countValues [0x0a, 0x02, 0x10, 0x96, 0x01] 0).result =
    .error (Fault.messageOverrun.located 2 "1") := by cbv

/-- A length that nothing stands behind is found when its field is read. -/
example : (scan .countValues [0x08, 0x01, 0x0a, 0x02, 0x10] 0).result =
    .error (Fault.endOfStream.located 2 "1") := by cbv

end FieldSieve
