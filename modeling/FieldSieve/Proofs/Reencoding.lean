import FieldSieve.Proofs.WrittenTrees

/-!
# Writing again what was scanned

The tree of a buffer can be written again.  The result is scanned like the buffer, with the same
calls, but it need not be the buffer: a number may be padded there or hold bits beyond the
sixty-fourth, and a message that gets shorter changes the length in front of it, and with it the
lengths in front of all messages around it.

So the new buffer is never longer, and it is the same only if every number in the buffer was written
as it is written now.  Piece by piece this is one argument: a row of pieces, none of which got
longer, is the same row only if each piece is the same (`Bytes.append_eq_append_iff`).  The numbers
that a run reads are found at the keys in its journal (`Run.forms`).
-/
namespace FieldSieve

/-- The forms of numbers at the front of a field: that of its key, and that of the number or of the
length behind it. -/
def Key.forms (key : Key) (bytes : Bytes) : List Bytes :=
  let form := Varint.firstForm bytes
  match key.wireType with
  | .varint | .lengthDelimited => [form, Varint.firstForm (bytes.drop form.length)]
  | _ => [form]

namespace Key

variable {number : UInt64} {type : WireType} {form second rest : Bytes} {c d e : Cursor}

theorem forms_of_two (hform : Varint.IsForm form) (hsecond : Varint.IsForm second)
    (htype : type = .varint ∨ type = .lengthDelimited) :
    forms ⟨type, number⟩ (form ++ (second ++ rest)) = [form, second] := by
  have hfirst : Varint.firstForm (form ++ (second ++ rest)) = form := hform.firstForm_append _
  have hnext : Varint.firstForm ((form ++ (second ++ rest)).drop form.length) = second := by
    rw [List.drop_left, hsecond.firstForm_append]
  rcases htype with rfl | rfl <;> simp only [forms, hfirst, hnext]

theorem forms_of_one (hform : Varint.IsForm form) (htype : type = .fixed64 ∨ type = .fixed32) :
    forms ⟨type, number⟩ (form ++ rest) = [form] := by
  have hfirst : Varint.firstForm (form ++ rest) = form := hform.firstForm_append _
  rcases htype with rfl | rfl <;> simp only [forms, hfirst]

end Key

/-- The forms of numbers that stand where an event was noted. -/
def Event.forms (bytes : Bytes) : Event → List Bytes
  | keyRead offset key _ => key.forms (bytes.drop offset)
  | _ => []

/-- The forms of all numbers that a run over `bytes` has read: keys, values and lengths. -/
def Run.forms {σ : Type} (run : Run σ) (bytes : Bytes) : List Bytes :=
  run.events.flatMap (Event.forms bytes)

namespace Bytes

theorem drop_behind {whole piece rest : Bytes} {offset : Nat}
    (h : whole.drop offset = piece ++ rest) : whole.drop (offset + piece.length) = rest := by
  rw [← List.drop_drop, h, List.drop_left]

/-- Where no piece of the first row is longer, two rows are the same only piece by piece. -/
theorem append_eq_append_iff {a b c d : Bytes} (hfirst : a.length ≤ c.length)
    (hsecond : b.length ≤ d.length) : a ++ b = c ++ d ↔ a = c ∧ b = d := by
  constructor
  · intro h
    have hlength := congrArg List.length h
    rw [List.length_append, List.length_append] at hlength
    exact List.append_inj h (by omega)
  · rintro ⟨rfl, rfl⟩
    rfl

end Bytes

namespace Varint

/-- The form is the one that is written for its number. -/
def IsShortest (form : Bytes) : Prop := encode (ofGroups form) = form

end Varint

namespace Item

variable {number : UInt64} {written head rest : Bytes} {value : Scalar} {payload again : Bytes}

/-- A field with a number is written in no more bytes, and in the same ones if its forms are the
shortest. -/
theorem Written.scalar_again (h : Written (.scalar number value) written) (rest : Bytes) :
    (Message.scalar number value).length ≤ written.length ∧
    (Message.scalar number value = written ↔
      ∀ form ∈ Key.forms ⟨value.wireType, number⟩ (written ++ rest), Varint.IsShortest form) := by
  obtain ⟨form, behind, rfl, hform, hkey, hbehind⟩ := h.of_scalar
  have hshort := hform.length_encode_le
  rw [Message.scalar_eq, Key.encode_of_unpack hkey, List.append_assoc]
  cases hbehind with
  | varint _ hvalue =>
    have hbehind := hvalue.length_encode_le
    rw [Scalar.stored, Scalar.wireType, Key.forms_of_two hform hvalue (.inl rfl),
      Bytes.append_eq_append_iff hshort hbehind]
    simp only [List.length_append, List.forall_mem_cons, Varint.IsShortest]
    exact ⟨by omega, by simp⟩
  | fixed64 _ hlength =>
    rw [Scalar.stored, Scalar.wireType, Key.forms_of_one hform (.inl rfl),
      Bytes.littleEndian_word64 hlength]
    simp [hshort, Varint.IsShortest]
  | fixed32 _ hlength =>
    rw [Scalar.stored, Scalar.wireType, Key.forms_of_one hform (.inr rfl),
      Bytes.littleEndian_word32 hlength]
    simp [hshort, Varint.IsShortest]

/-- So is a field with a payload, if the payload is written in no more bytes. -/
theorem Written.payload_again (h : Written (.payload number payload) (head ++ payload))
    (hle : again.length ≤ payload.length) (rest : Bytes) :
    (Message.payload number again).length ≤ (head ++ payload).length ∧
    (Message.payload number again = head ++ payload ↔
      (∀ form ∈ Key.forms ⟨.lengthDelimited, number⟩ (head ++ payload ++ rest),
        Varint.IsShortest form) ∧ again = payload) := by
  obtain ⟨form, lengthForm, happend, hform, hkey, hlengthForm, hlength⟩ := h.of_payload
  obtain rfl := List.append_cancel_right happend
  have hkeyShort := hform.length_encode_le
  have hword : UInt64.ofNat payload.length = Varint.ofGroups lengthForm := by
    rw [← hlength, UInt64.ofNat_toNat]
  -- A shorter payload has a smaller length, and a smaller length is not written in more bytes.
  have hlengthShort : (Varint.encode (UInt64.ofNat again.length)).length ≤ lengthForm.length := by
    refine Nat.le_trans ?_ hlengthForm.length_encode_le
    apply Varint.length_groups_mono
    rw [← hword, UInt64.toNat_ofNat', UInt64.toNat_ofNat']
    have := hlength ▸ (Varint.ofGroups lengthForm).toNat_lt
    omega
  rw [Message.payload_eq, Key.encode_of_unpack hkey]
  simp only [List.append_assoc]
  rw [Key.forms_of_two hform hlengthForm (.inr rfl), Bytes.append_eq_append_iff hkeyShort,
    Bytes.append_eq_append_iff hlengthShort hle]
  · simp only [List.length_append, List.forall_mem_cons, Varint.IsShortest]
    refine ⟨by omega, ?_⟩
    constructor
    · rintro ⟨hkeyForm, hlengthEq, rfl⟩
      exact ⟨⟨hkeyForm, hword ▸ hlengthEq, by simp⟩, rfl⟩
    · rintro ⟨⟨hkeyForm, hlengthEq, -⟩, rfl⟩
      exact ⟨hkeyForm, hword ▸ hlengthEq, rfl⟩
  · simp only [List.length_append]
    omega

end Item

namespace Node

variable {offset : Nat} {path : FieldPath} {fields : List Node} {bytes after whole : Bytes}
  {events : List Event}

theorem numbers_lt_of_spells (h : Spells offset path fields bytes events) :
    ∀ number ∈ numbersAll fields, number.toNat < 2 ^ 61 := by
  induction h with
  | nil => simp [numbersAll]
  | scalar hwritten _ ih =>
    obtain ⟨_, _, -, -, hkey, -⟩ := hwritten.of_scalar
    simp only [numbersAll, numbers, List.cons_append, List.nil_append, List.forall_mem_cons]
    exact ⟨Key.number_lt_of_unpack hkey, ih⟩
  | payload hwritten _ ih =>
    obtain ⟨_, _, -, -, hkey, -⟩ := hwritten.of_payload
    simp only [numbersAll, numbers, List.cons_append, List.nil_append, List.forall_mem_cons]
    exact ⟨Key.number_lt_of_unpack hkey, ih⟩
  | message hwritten _ _ ihInner ih =>
    obtain ⟨_, _, -, -, hkey, -⟩ := hwritten.of_payload
    simp only [numbersAll, numbers, List.cons_append, List.forall_mem_cons, List.forall_mem_append]
    exact ⟨Key.number_lt_of_unpack hkey, ihInner, ih⟩

/-- Fields as they stand are written in no more bytes, and in the same ones if all their numbers
stand in the shortest form. -/
theorem encodeAll_again (h : Spells offset path fields bytes events)
    (hwhole : whole.drop offset = bytes ++ after) :
    (encodeAll fields).length ≤ bytes.length ∧
    (encodeAll fields = bytes ↔
      ∀ form ∈ events.flatMap (Event.forms whole), Varint.IsShortest form) := by
  -- No piece gets longer, so the rows agree as a whole exactly if they agree at each piece.
  induction h generalizing after with
  | nil => simp [encodeAll]
  | @scalar offset path number value fields written rest events hwritten _ ih =>
    rw [List.append_assoc] at hwhole
    obtain ⟨hle, hiff⟩ := ih (Bytes.drop_behind hwhole)
    obtain ⟨hshort, hsame⟩ := hwritten.scalar_again (rest ++ after)
    refine ⟨by simp only [encodeAll, encode, List.length_append]; omega, ?_⟩
    rw [encodeAll, encode, Bytes.append_eq_append_iff hshort hle, hsame, hiff]
    simp [Event.forms, hwhole, or_imp, forall_and]
  | @payload offset path number value delivered fields head rest events hwritten _ ih =>
    rw [List.append_assoc] at hwhole
    obtain ⟨hle, hiff⟩ := ih (Bytes.drop_behind hwhole)
    obtain ⟨hshort, hsame⟩ := hwritten.payload_again (Nat.le_refl _) (rest ++ after)
    refine ⟨by simp only [encodeAll, encode, List.length_append] at hshort ⊢; omega, ?_⟩
    rw [encodeAll, encode, Bytes.append_eq_append_iff hshort hle, hsame, hiff]
    cases delivered <;> simp [Event.forms, hwhole, or_imp, forall_and]
  | @message offset path number value inner fields head rest innerEvents events hwritten _ _
      ihInner ih =>
    rw [List.append_assoc] at hwhole
    have hinside : whole.drop (offset + head.length) = value ++ (rest ++ after) := by
      rw [List.append_assoc] at hwhole
      exact Bytes.drop_behind hwhole
    obtain ⟨hle, hiff⟩ := ih (Bytes.drop_behind hwhole)
    -- The payload is the message written again, so its length may have become another number.
    obtain ⟨hinnerLe, hinnerIff⟩ := ihInner hinside
    obtain ⟨hshort, hsame⟩ := hwritten.payload_again hinnerLe (rest ++ after)
    refine ⟨by simp only [encodeAll, encode, List.length_append] at hshort ⊢; omega, ?_⟩
    rw [encodeAll, encode, Bytes.append_eq_append_iff hshort hle, hsame, hiff, hinnerIff]
    simp [Event.forms, hwhole, or_imp, forall_and, and_assoc]

variable {σ : Type}

/-- **What was scanned can be written again.**  The tree of a buffer that was scanned is written in
no more bytes, and a scan of those makes the same calls.  They are the bytes of the buffer exactly
if all numbers that were read stood there in their shortest form. -/
theorem scan_encodeAll_decoded (P : Policy σ) (bytes : Bytes) (state : σ)
    (hlength : bytes.length < 2 ^ 64) (hok : (scan P bytes state).result = .ok ()) :
    ∃ fields last, decodeAll P .root bytes state = some (fields, last) ∧
      callsAll .root fields = (scan P bytes state).calls ∧
      (scan P (encodeAll fields) state).result = .ok () ∧
      (scan P (encodeAll fields) state).calls = (scan P bytes state).calls ∧
      (scan P (encodeAll fields) state).visited = (scan P bytes state).visited ∧
      (scan P (encodeAll fields) state).state = (scan P bytes state).state ∧
      (encodeAll fields).length ≤ bytes.length ∧
      (encodeAll fields = bytes ↔ ∀ form ∈ (scan P bytes state).forms bytes,
        Varint.encode (Varint.ofGroups form) = form) := by
  obtain ⟨-, fields, events, last, hspells, hreplay, hroom⟩ := spelled_of_scan hok
  obtain ⟨_, -, hrun⟩ := scan_of_spells hspells rfl hroom hreplay
  have hdecode : decodeAll P .root bytes state = some (fields, last) :=
    decodeAll_of_spells hspells hreplay
  obtain ⟨hle, hiff⟩ : (encodeAll fields).length ≤ bytes.length ∧ (encodeAll fields = bytes ↔
      ∀ form ∈ events.flatMap (Event.forms bytes), Varint.IsShortest form) :=
    encodeAll_again hspells (List.append_nil bytes).symm
  obtain ⟨againEvents, hagain⟩ :=
    spells_encodeAll fields 0 .root (numbers_lt_of_spells hspells) (Nat.lt_of_le_of_lt hle hlength)
  have hdecodeAgain : decodeAll P .root (encodeAll fields) state = some (fields, last) :=
    decodeAll_of_spells hagain hreplay
  obtain ⟨-, hstate, hcalls, hvisited⟩ := scan_of_decodeAll hdecode
  obtain ⟨hokAgain, hstateAgain, hcallsAgain, hvisitedAgain⟩ := scan_of_decodeAll hdecodeAgain
  refine ⟨fields, last, hdecode, hcalls.symm, hokAgain, ?_, ?_, ?_, hle, ?_⟩
  · rw [hcallsAgain, hcalls]
  · rw [hvisitedAgain, hvisited]
  · rw [hstateAgain, hstate]
  · rw [Run.forms, hrun, List.flatMap_append, hiff]
    simp [Event.forms, Varint.IsShortest]

/-- A padded number in a message whose length is padded: the calls are the same, but not the
bytes. -/
theorem calls_encodeAll_padded : ∃ fields last,
    decodeAll .countValues .root [0x0a, 0x84, 0x00, 0x10, 0x85, 0x80, 0x00] 0 =
      some (fields, last) ∧
    (scan .countValues (encodeAll fields) 0).calls =
      (scan .countValues [0x0a, 0x84, 0x00, 0x10, 0x85, 0x80, 0x00] 0).calls ∧
    encodeAll fields ≠ [0x0a, 0x84, 0x00, 0x10, 0x85, 0x80, 0x00] := by
  have hscan : (scan .countValues [0x0a, 0x84, 0x00, 0x10, 0x85, 0x80, 0x00] 0).result = .ok () ∧
      (scan .countValues [0x0a, 0x84, 0x00, 0x10, 0x85, 0x80, 0x00] 0).forms
        [0x0a, 0x84, 0x00, 0x10, 0x85, 0x80, 0x00] =
      [[0x0a], [0x84, 0x00], [0x10], [0x85, 0x80, 0x00]] := by
    rw [scan_of_toEnd rfl, Walk.toEnd_of_ok rfl rfl, Walk.toEnd_of_ok rfl rfl,
      Walk.toEnd_of_atEnd rfl]
    exact ⟨rfl, rfl⟩
  obtain ⟨fields, last, hdecode, -, -, hcalls, -, -, -, hsame⟩ := scan_encodeAll_decoded .countValues
    [0x0a, 0x84, 0x00, 0x10, 0x85, 0x80, 0x00] 0 (by decide) hscan.1
  refine ⟨fields, last, hdecode, hcalls, ?_⟩
  rw [ne_eq, hsame, hscan.2]
  intro hall
  have hpadded : Varint.encode (Varint.ofGroups [0x84, 0x00]) = [0x04] :=
    Varint.groups_of_lt (by decide)
  cases hpadded.symm.trans (hall [0x84, 0x00] (by simp))

end Node
end FieldSieve
