import FieldSieve.Proofs.LastMessages
import FieldSieve.Proofs.ScalarValues

/-!
# Given numbers as they stand in the buffer

A policy is given a number as bytes.  The journal of the run leads to the number itself: whenever a
varint is given, its key was read just before, and behind the offset of that key the number stands in
the buffer.  So the numbers given at a path can be looked up there, without a word about the bytes
that the policy received (`Bytes.varintsAt`), and they are the words that those bytes make up
(`Bytes.varintsAt_scan`).

In the tree of a message a number is found in its leaf (`Node.varintsAtAll`).
-/
namespace FieldSieve

open CapturedField (valuesAt)

/-- The offset of the key that was read last, after an event. -/
def Event.lastKey (offset : Nat) : Event → Nat
  | keyRead offset _ _ => offset
  | _ => offset

/-- The policy is given a varint at a path. -/
def Event.givesVarintAt (path : FieldPath) : Event → Bool
  | delivered .varint _ _ own => own == path
  | _ => false

namespace Event

variable {event : Event} {path : FieldPath}

/-- Right after a key it is the key that was read last. -/
theorem foldl_lastKey (front : List Event) (start offset : Nat) (key : Key) (path : FieldPath) :
    (front ++ [keyRead offset key path]).foldl lastKey start = offset := by
  rw [List.foldl_append]
  rfl

theorem eq_of_givesVarintAt (h : event.givesVarintAt path = true) :
    ∃ number value, event = delivered .varint number value path := by
  unfold givesVarintAt at h
  split at h
  · next number value own => exact ⟨number, value, by rw [eq_of_beq h]⟩
  · cases h

/-- No other event brings a value of this type to this path. -/
theorem valuesAt_of_not_givesVarintAt (h : event.givesVarintAt path = false) :
    valuesAt .varint path (([event].filterMap call?).filterMap Call.received?) = [] := by
  cases event with
  | keyRead | asked | failed | completed => rfl
  | delivered wireType number value own =>
    refine List.filterMap_cons_none (if_neg ?_)
    rintro ⟨rfl, rfl⟩
    simp [givesVarintAt] at h

end Event

namespace Bytes

/-- The number that stands as a varint behind the key at an offset. -/
def varintBehind (bytes : Bytes) (offset : Nat) : Nat :=
  let written := bytes.drop offset
  let behind := written.drop (Varint.firstForm written).length
  Varint.total (Varint.firstForm behind) % 2 ^ 64

/-- The numbers that a row of events gives as varints at a path, oldest first: each stands behind the
key that was read last, which at the beginning is the one at `offset`. -/
def varintsAt (bytes : Bytes) (path : FieldPath) (offset : Nat) : List Event → List Nat
  | [] => []
  | event :: events =>
    let more := bytes.varintsAt path (event.lastKey offset) events
    if event.givesVarintAt path then bytes.varintBehind offset :: more else more

variable {bytes : Bytes} {path : FieldPath} {front events : List Event} {event : Event}

theorem Holds.varintBehind_eq {offset n : Nat} {number : UInt64}
    (h : bytes.Holds offset ⟨.varint, number⟩ n) : bytes.varintBehind offset = n := by
  obtain ⟨form, raw, rest, hdrop, hform, -, hstores⟩ := h
  obtain ⟨hraw⟩ := hstores
  rw [varintBehind, hdrop, List.append_assoc, hform.firstForm_append, List.drop_left,
    hraw.firstForm_append]

/-- Behind a padded key and in three groups. -/
example : varintBehind [0x90, 0x00, 0xc0, 0x9a, 0x0c, 0x01] 0 = 200000 := by decide

/-- In a row of events that the buffer backs, what is looked up there is what the policy is given. -/
theorem Backs.varintsAt_eq (h : bytes.Backs (front ++ events)) :
    bytes.varintsAt path (front.foldl Event.lastKey 0) events =
      (valuesAt .varint path ((events.filterMap Event.call?).filterMap Call.received?)).map
        (·.word.toNat) := by
  -- The events in front are kept, because the last key among them is the one that counts.
  induction events generalizing front with
  | nil => rfl
  | cons event events ih =>
    have hrest := ih (List.append_cons front event events ▸ h)
    rw [List.foldl_append, List.foldl_cons, List.foldl_nil] at hrest
    rw [varintsAt, hrest]
    by_cases hgives : event.givesVarintAt path = true
    · obtain ⟨number, value, rfl⟩ := Event.eq_of_givesVarintAt hgives
      obtain ⟨earlier, offset, n, rfl, hholds, hn⟩ := h _ _ _ _ _ _ rfl rfl
      obtain rfl : value.word.toNat = n := Option.some.inj hn
      rw [if_pos hgives, Event.foldl_lastKey, hholds.varintBehind_eq]
      simp [valuesAt, CapturedField.valueAt?, Event.call?, Call.received?]
    · rw [if_neg hgives, ← List.singleton_append (l := events), List.filterMap_append,
        List.filterMap_append, CapturedField.valuesAt_append,
        Event.valuesAt_of_not_givesVarintAt (Bool.eq_false_iff.mpr hgives), List.nil_append]

/-- The numbers given as varints in a scan make up the words that they stand for in the buffer. -/
theorem varintsAt_scan {σ : Type} (P : Policy σ) (bytes : Bytes) (state : σ) (limits : Limits)
    (path : FieldPath) : bytes.varintsAt path 0 (scan P bytes state limits).events =
      (valuesAt .varint path ((scan P bytes state limits).calls.filterMap Call.received?)).map
        (·.word.toNat) :=
  have hin : (Scan.ofBytes bytes limits).cursor.In bytes := rfl
  Backs.varintsAt_eq (show bytes.Backs ([] ++ _) from backs_run hin P state)

end Bytes

namespace Node

mutual

/-- The numbers that are varints at a path, in a field of the message at `parent`. -/
def varintsAt (target parent : FieldPath) : Node → List UInt64
  | scalar number (.varint word) => if parent.child number = target then [word] else []
  | scalar _ _ => []
  | payload _ _ _ => []
  | message number fields => varintsAtAll target (parent.child number) fields

/-- The numbers that are varints at a path, in the message at `parent`, as they stand there. -/
def varintsAtAll (target parent : FieldPath) : List Node → List UInt64
  | [] => []
  | node :: rest => node.varintsAt target parent ++ varintsAtAll target parent rest

end

/-- The varints at a path are the words of the leaves there. -/
theorem words_leavesAll (target parent : FieldPath) (fields : List Node) :
    (valuesAt .varint target (leavesAll parent fields)).map Bytes.word =
      varintsAtAll target parent fields := by
  match fields with
  | [] => rfl
  | node :: rest =>
    rw [leavesAll, varintsAtAll, CapturedField.valuesAt_append, List.map_append,
      words_leavesAll target parent rest]
    congr 1
    cases node with
    | scalar number value =>
      cases value with
      | varint word =>
        have hword : (Scalar.varint word).bytes.word = word := Scalar.word_bytes _
        by_cases hpath : parent.child number = target <;>
          simp [leaves, varintsAt, valuesAt, CapturedField.valueAt?, Scalar.wireType, hpath, hword]
      | fixed64 | fixed32 => rfl
    | payload number value delivered => rfl
    | message number inner => exact words_leavesAll target (parent.child number) inner

end Node
end FieldSieve
