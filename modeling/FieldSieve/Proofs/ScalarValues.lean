import FieldSieve.Capture
import FieldSieve.Proofs.Calls
import FieldSieve.Proofs.Reruns
import Mathlib.Data.List.DropRight
import Mathlib.Tactic.Conv

/-!
# Numbers that are delivered as bytes

A policy receives a number as bytes and makes a word of them again.  The two ways undo each other:
from the bytes of a word comes the word, and from the word that some bytes make up come those bytes,
as far as they count.  Bytes after the eighth do not, and zeros at the end do not.

All of this follows from one fact: bytes without spare ones at the end are the shortest of their
number, because their length and the number determine them (`Bytes.shortest_of_length_le`).

So nothing is lost on the way of a number from the buffer to the policy.  Every scalar that a run
delivers is, read as a word, the number that stands behind its key (`Bytes.Backs`), whatever was
run before.
-/
namespace FieldSieve

namespace Bytes

variable {bytes : Bytes} {last : UInt8} {word : UInt64}

theorem ofLittleEndian_append (bytes more : Bytes) : ofLittleEndian (bytes ++ more) =
    ofLittleEndian bytes + 256 ^ bytes.length * ofLittleEndian more := by
  induction bytes with
  | nil => simp
  | cons b rest ih =>
    rw [List.cons_append, ofLittleEndian_cons, ih, ofLittleEndian_cons, List.length_cons,
      Nat.pow_succ', Nat.mul_add, Nat.mul_assoc, Nat.add_assoc]

theorem ofLittleEndian_of_zeros (h : ∀ b ∈ bytes, b = 0) : ofLittleEndian bytes = 0 := by
  induction bytes with
  | nil => rfl
  | cons b rest ih =>
    obtain ⟨rfl, hrest⟩ := List.forall_mem_cons.mp h
    rw [ofLittleEndian_cons, ih hrest]
    rfl

/-- No bytes stand for a number on fewer places than its shortest ones. -/
theorem length_shortest_ofLittleEndian_le (h : bytes ≠ []) :
    (shortest (ofLittleEndian bytes)).length ≤ bytes.length :=
  length_shortest_le (List.length_pos_iff.mpr h) (ofLittleEndian_lt bytes)

/-- Bytes that are no longer than the shortest ones of their number are those. -/
theorem shortest_of_length_le (h : bytes ≠ [])
    (hle : bytes.length ≤ (shortest (ofLittleEndian bytes)).length) :
    shortest (ofLittleEndian bytes) = bytes := by
  have hlength := Nat.le_antisymm (length_shortest_ofLittleEndian_le h) hle
  rw [← littleEndian_length_shortest, hlength, littleEndian_ofLittleEndian]

/-- A last byte that is not zero is needed. -/
theorem shortest_concat (h : last ≠ 0) :
    shortest (ofLittleEndian (bytes ++ [last])) = bytes ++ [last] := by
  refine shortest_of_length_le (by simp) ?_
  have hlast : 0 < last.toNat := Nat.pos_of_ne_zero fun hzero => h (UInt8.toNat_inj.mp hzero)
  have hlow : 256 ^ bytes.length ≤ ofLittleEndian (bytes ++ [last]) := by
    rw [ofLittleEndian_append, ofLittleEndian_cons, ofLittleEndian_nil, Nat.mul_zero, Nat.add_zero]
    exact Nat.le_add_left_of_le (Nat.le_mul_of_pos_right _ hlast)
  have hhigh := ofLittleEndian_lt (shortest (ofLittleEndian (bytes ++ [last])))
  rw [ofLittleEndian_shortest] at hhigh
  have hlt := (Nat.pow_lt_pow_iff_right (by decide)).mp (Nat.lt_of_le_of_lt hlow hhigh)
  rw [List.length_append, List.length_singleton]
  exact hlt

/-- The shortest bytes of what bytes stand for are these bytes without the zeros at the end, or one
zero if nothing else is left. -/
theorem shortest_ofLittleEndian (bytes : Bytes) : shortest (ofLittleEndian bytes) =
    if bytes.rdropWhile (· == 0) = [] then [0] else bytes.rdropWhile (· == 0) := by
  have hzeros : ∀ b ∈ bytes.rtakeWhile (· == 0), b = 0 :=
    fun b hb => by simpa using List.mem_rtakeWhile_imp hb
  have hsame : ofLittleEndian bytes = ofLittleEndian (bytes.rdropWhile (· == 0)) := by
    conv_lhs => rw [← List.rdropWhile_append_rtakeWhile (p := (· == 0)) (l := bytes)]
    rw [ofLittleEndian_append, ofLittleEndian_of_zeros hzeros, Nat.mul_zero, Nat.add_zero]
  rw [hsame]
  split
  · next hnone =>
    rw [hnone, ofLittleEndian_nil, shortest]
    rfl
  · next hsome =>
    have hlast := List.rdropWhile_last_not (· == 0) bytes hsome
    rw [← List.dropLast_append_getLast hsome]
    exact shortest_concat (by simpa using hlast)

/-- Whatever other bytes make up a word, they are more than those that are written for it. -/
theorem length_ofWord_le (h : bytes ≠ []) (hword : bytes.word = word) :
    (ofWord word).length ≤ bytes.length ∧
      (bytes.length = (ofWord word).length → bytes = ofWord word) := by
  subst hword
  have hwritten : ofWord bytes.word = shortest (ofLittleEndian (bytes.take 8)) := by
    rw [ofWord_eq_shortest, toNat_word_eq]
  have hne : bytes.take 8 ≠ [] := by simpa using h
  have hle := length_shortest_ofLittleEndian_le hne
  rw [← hwritten] at hle
  have htake : (bytes.take 8).length ≤ bytes.length := List.length_take_le' 8 bytes
  refine ⟨Nat.le_trans hle htake, fun hlength => ?_⟩
  have hall : bytes.take 8 = bytes := List.take_of_length_le (by simp at hle; omega)
  rw [hall] at hwritten
  rw [hwritten] at hlength
  rw [hwritten, shortest_of_length_le h (Nat.le_of_eq hlength)]

end Bytes

/-- What is stored for a scalar of this type, and the number that it is. -/
inductive WireType.Stores : WireType → Bytes → Nat → Prop
  | varint {raw : Bytes} (h : Varint.IsForm raw) : Stores .varint raw (Varint.total raw % 2 ^ 64)
  | fixed64 {raw : Bytes} (h : raw.length = 8) : Stores .fixed64 raw (Bytes.ofLittleEndian raw)
  | fixed32 {raw : Bytes} (h : raw.length = 4) : Stores .fixed32 raw (Bytes.ofLittleEndian raw)

/-- At an offset a key stands, and behind it a number is stored as scalars of its type are. -/
def Bytes.Holds (bytes : Bytes) (offset : Nat) (key : Key) (n : Nat) : Prop :=
  ∃ form raw rest, bytes.drop offset = form ++ raw ++ rest ∧ Varint.IsForm form ∧
    Key.unpack (Varint.ofGroups form) = .ok key ∧ key.wireType.Stores raw n

/-- Every scalar that is delivered in a row of events comes right after its key was read, and what
is read off it is the number that stands behind this key. -/
def Bytes.Backs (bytes : Bytes) (events : List Event) : Prop :=
  ∀ before wireType number value path after,
    events = before ++ .delivered wireType number value path :: after →
      wireType.isScalar = true → ∃ earlier offset n,
        before = earlier ++ [.keyRead offset ⟨wireType, number⟩ path] ∧
        bytes.Holds offset ⟨wireType, number⟩ n ∧
        (CapturedField.mk path wireType value).integer?.map UInt64.toNat = some n

namespace Item

variable {key : Key} {value : Scalar} {raw : Bytes}

theorem Behind.stores (h : Behind key (.scalar key.number value) raw) :
    key.wireType.Stores raw value.word.toNat := by
  cases h with
  | varint htype hform =>
    rw [htype, Scalar.word, Varint.toNat_ofGroups]
    exact .varint hform
  | fixed64 htype hlength =>
    rw [htype, Scalar.word, Bytes.toNat_word (by omega)]
    exact .fixed64 hlength
  | fixed32 htype hlength =>
    rw [htype, Scalar.word, UInt32.toNat_toUInt64, Bytes.toNat_word32 hlength]
    exact .fixed32 hlength

end Item

namespace Bytes.Backs

variable {bytes : Bytes} {events more : List Event}

/-- Events among which no scalar is delivered need no backing, -/
theorem of_no_scalars (h : ∀ call ∈ events.filterMap Event.call?, call.isScalar = false) :
    bytes.Backs events := by
  rintro before wireType number value path after rfl hscalar
  have hnone := h (.delivered wireType number value path) (List.mem_filterMap.mpr
    ⟨_, List.mem_append_right _ List.mem_cons_self, rfl⟩)
  cases hnone.symm.trans hscalar

/-- and neither do those among which there is no call. -/
theorem of_no_calls (h : events.filterMap Event.call? = []) : bytes.Backs events :=
  of_no_scalars (by rw [h]; exact List.forall_mem_nil _)

theorem append (h : bytes.Backs events) (hmore : bytes.Backs more) :
    bytes.Backs (events ++ more) := by
  intro before wireType number value path after hsplit hscalar
  rcases List.append_eq_append_iff.mp hsplit with
    ⟨later, rfl, hlater⟩ | ⟨between, hbefore, hafter⟩
  · obtain ⟨earlier, offset, n, rfl, hread⟩ := hmore _ _ _ _ _ _ hlater hscalar
    exact ⟨events ++ earlier, offset, n, (List.append_assoc ..).symm, hread⟩
  · cases between with
    | nil =>
      -- A row that began with the delivery would lack the key.
      obtain ⟨earlier, offset, n, hnone, -⟩ := hmore [] _ _ _ _ _ hafter.symm hscalar
      simp at hnone
    | cons event between =>
      obtain ⟨rfl, rfl⟩ := List.cons.inj hafter
      exact h _ _ _ _ _ _ hbefore hscalar

theorem of_delivery {offset n : Nat} {key : Key} {value : Bytes} {path : FieldPath}
    (hholds : bytes.Holds offset key n)
    (hvalue : (CapturedField.mk path key.wireType value).integer?.map UInt64.toNat = some n) :
    bytes.Backs [.keyRead offset key path, .delivered key.wireType key.number value path] := by
  intro before wireType number given place after hsplit _
  match before with
  | [] => cases hsplit
  | [first] =>
    cases hsplit
    exact ⟨[], offset, n, rfl, hholds, hvalue⟩
  | first :: second :: before => simp at hsplit

end Bytes.Backs

namespace Walk

variable {σ : Type} {walk : Walk σ} {bytes : Bytes}

/-- A scalar that was read stands behind its key in the buffer. -/
theorem holds_of_readBehind {key : Key} {value : Scalar} {c d : Cursor} (hin : walk.cursor.In bytes)
    (hkey : Cursor.readKey walk.cursor = .ok key c)
    (hread : Item.readBehind key c = .ok (.scalar key.number value) d) :
    bytes.Holds walk.cursor.position key value.word.toNat := by
  obtain ⟨form, hform, hpasses, hunpack⟩ := Cursor.readKey_eq_ok_iff.mp hkey
  obtain ⟨raw, hbehind, hmore⟩ := Item.readBehind_eq_ok_iff.mp hread
  exact ⟨form, raw, d.unread, hin.symm.trans (hpasses.trans hmore).unread, hform, hunpack,
    hbehind.stores⟩

/-- The step: what a field adds to the journal is backed by the buffer. -/
theorem backs_field (P : Policy σ) (hin : walk.cursor.In bytes) :
    ∃ events : List Event, (stateAfter (field P walk)).journal = walk.journal ++ events ∧
      bytes.Backs events := by
  have houtcome := fieldOutcome P walk
  generalize field P walk = result at houtcome
  cases houtcome with
  | badKey => exact ⟨[], Array.ext' (by simp [stateAfter, movedTo]), .of_no_calls rfl⟩
  | tooDeep | noValue | noLength => exact ⟨_, rfl, .of_no_calls rfl⟩
  | missing | outside =>
    exact ⟨_, rfl, .of_no_scalars (List.forall_mem_singleton.mpr rfl)⟩
  | skipped | descended =>
    exact ⟨_, journal_close, .of_no_scalars (List.forall_mem_singleton.mpr rfl)⟩
  | captured h =>
    refine ⟨_, journal_close, .of_no_scalars (List.forall_mem_cons.mpr ⟨rfl, ?_⟩)⟩
    refine List.forall_mem_singleton.mpr ?_
    rw [Call.isScalar, h.wireType]
    rfl
  | @scalar key value c d h hread =>
    refine ⟨_, journal_close, .of_delivery (holds_of_readBehind hin h.readKey hread) ?_⟩
    have hscalar : key.wireType.isScalar = true := by
      obtain ⟨raw, hbehind, -⟩ := Item.readBehind_eq_ok_iff.mp hread
      rw [hbehind.wireType_eq, Scalar.isScalar_wireType]
    rw [CapturedField.integer?, if_pos hscalar, Option.map_some, Scalar.word_bytes]

/-- A walk in the buffer leads to another one there, and adds what is backed to the journal. -/
def AddsBacked (bytes : Bytes) (walk next : Walk σ) : Prop :=
  walk.cursor.In bytes → next.cursor.In bytes ∧
    ∃ events : List Event, next.journal = walk.journal ++ events ∧ bytes.Backs events

namespace AddsBacked

variable {next last : Walk σ} {event : Event}

theorem refl (walk : Walk σ) : AddsBacked bytes walk walk :=
  fun hin => ⟨hin, [], Array.ext' (by simp), .of_no_calls rfl⟩

theorem trans (h : AddsBacked bytes walk next) (hlast : AddsBacked bytes next last) :
    AddsBacked bytes walk last := by
  intro hin
  obtain ⟨hin, events, hevents, hbacks⟩ := h hin
  obtain ⟨hin, more, hmore, hlater⟩ := hlast hin
  refine ⟨hin, events ++ more, ?_, hbacks.append hlater⟩
  rw [hmore, hevents]
  exact Array.ext' (by simp)

theorem field (P : Policy σ) (walk : Walk σ) :
    AddsBacked bytes walk (stateAfter (Walk.field P walk)) :=
  fun hin => ⟨hin.leadsTo (forward_field P walk), backs_field P hin⟩

theorem record (walk : Walk σ) (h : event.call? = none) :
    AddsBacked bytes walk (walk.record event) :=
  fun hin => ⟨hin, [event], Array.ext' (by simp [Walk.record]), .of_no_calls (by simp [h])⟩

end AddsBacked

end Walk

section Run

variable {σ : Type} {scan : Scan} {bytes : Bytes}

theorem events_ofResult (result : EStateM.Result DecodeError (Walk σ) Unit) :
    (Run.ofResult result).events = (stateAfter result).journal.toList := by
  cases result <;> rfl

/-- The run: everything that it adds is backed, and what it adds is all there is of it. -/
theorem backs_run (hin : scan.cursor.In bytes) (P : Policy σ) (state : σ) :
    bytes.Backs (scan.run P state).events := by
  cases hexcess : scan.excess? with
  | some fault =>
    rw [run_of_excess hexcess]
    exact .of_no_calls rfl
  | none =>
    obtain ⟨result, hrun, hadds⟩ := exists_ofResult_of_fields Walk.AddsBacked.refl
      Walk.AddsBacked.trans (Walk.AddsBacked.field P) (fun walk _ => .record walk) state hexcess
    obtain ⟨-, events, hevents, hbacks⟩ := hadds hin
    rw [hrun, events_ofResult, hevents]
    simpa using hbacks

end Run

/-- **Words and bytes undo each other.**  The bytes written for a word make up that word, there is
at least one of them, and any other bytes that make up the word are more than they are.  The bytes
written for the word that any bytes make up are the first eight of these without the zeros at the
end, or one zero if nothing is left.  So whatever is run on a scan, after whatever other runs, every
scalar that it delivers is, as an integer, the number that stands behind its key in the buffer. -/
theorem scalar_bytes_inverse :
    (∀ word : UInt64, (Bytes.ofWord word).word = word ∧ Bytes.ofWord word ≠ [] ∧
      ∀ bytes : Bytes, bytes ≠ [] → bytes.word = word →
        (Bytes.ofWord word).length ≤ bytes.length ∧
          (bytes.length = (Bytes.ofWord word).length → bytes = Bytes.ofWord word)) ∧
    (∀ bytes : Bytes, let significant := (bytes.take 8).rdropWhile (· == 0)
      Bytes.ofWord bytes.word = if significant = [] then [0] else significant) ∧
    ∀ (bytes : Bytes) (limits : Limits) (earlier : List Turn) (turn : Turn),
      bytes.Backs (turn.run ((Scan.ofBytes bytes limits).after earlier)).events := by
  refine ⟨fun word => ⟨?_, ?_, fun bytes => Bytes.length_ofWord_le⟩, fun bytes => ?_,
    fun bytes limits earlier turn => ?_⟩
  · rw [Bytes.ofWord_eq_shortest, Bytes.word_shortest]
  · rw [Bytes.ofWord_eq_shortest]
    exact Bytes.shortest_ne_nil _
  · dsimp only
    rw [Bytes.ofWord_eq_shortest, Bytes.toNat_word_eq, Bytes.shortest_ofLittleEndian]
  · have hfresh : (Scan.ofBytes bytes limits).cursor.In bytes := rfl
    exact backs_run (in_after hfresh earlier) turn.policy turn.state

/-- Two bytes are more than the number needs, a ninth byte does not count, and a padded number is
delivered without the padding. -/
theorem scalar_bytes_inverse_padded :
    let turn : Turn := ⟨Nat, .countValues, 0⟩
    let bytes : Bytes := [0x08, 0x96, 0x81, 0x00]
    (Bytes.ofWord 0x96).length ≤ [0x96, 0x00].length ∧
    Bytes.ofWord (Bytes.word [0x00, 0x01, 0x00, 0x00, 0x00, 0x00, 0x00, 0x00, 0x2a]) =
      [0x00, 0x01] ∧
    (turn.run ((Scan.ofBytes bytes {}).after [])).calls =
      [.delivered .varint 1 [0x96] (.ofList [1])] ∧
    bytes.Holds 0 ⟨.varint, 1⟩ 0x96 := by
  intro turn bytes
  obtain ⟨hword, hbytes, hbacks⟩ := scalar_bytes_inverse
  have hpadded := (hword 0x96).2.2 [0x96, 0x00] (by decide) (by decide +kernel)
  have hcut := hbytes [0x00, 0x01, 0x00, 0x00, 0x00, 0x00, 0x00, 0x00, 0x2a]
  have hevents : (turn.run ((Scan.ofBytes bytes {}).after [])).events =
      [.keyRead 0 ⟨.varint, 1⟩ (.ofList [1])] ++
        .delivered .varint 1 [0x96] (.ofList [1]) :: [.completed 4 1] := by decide +kernel
  obtain ⟨earlier, offset, n, hkey, hholds, hn⟩ :=
    hbacks bytes {} [] turn _ _ _ _ _ _ hevents rfl
  obtain rfl : 0 = offset := by simpa using congrArg List.getLast? hkey
  obtain rfl : 0x96 = n := Option.some.inj hn
  exact ⟨hpadded.1, hcut.trans (by decide), by decide +kernel, hholds⟩

end FieldSieve
