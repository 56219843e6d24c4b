import FieldSieve.Proofs.WrittenFields

/-!
# Keys as they are written

A key is written by packing its type into the low three bits of a word and its number above them.
Both come out again when it is read, but for the three highest bits of a number, which have no room
in the word (`Key.toNat_pack_mod`, `Key.pack_div`).

Only four of the eight types can be followed by a value.  Two of the others are refused because they
mark the ends of groups, and two because nothing is assigned to them; either way the fault names the
type, and the refused key has been read (`readKey_encode`).  A key that was read is usable, so what
is written for it is read as that key again, even if it stood in another form.
-/
namespace FieldSieve

namespace Key

variable {word type number : UInt64}

/-- The types that can be followed by a value. -/
theorem unpack_pack_of_usable (h : type ∈ [0, 1, 2, 5]) : ∃ wireType : WireType,
    wireType.id = type.toNat ∧
      unpack (pack type number) = .ok ⟨wireType, UInt64.ofNat (number.toNat % 2 ^ 61)⟩ := by
  obtain ⟨wireType, rfl, hgroup⟩ : ∃ wireType : WireType,
      UInt64.ofNat wireType.id = type ∧ wireType.isGroup = false := by
    simp only [List.mem_cons, List.not_mem_nil, or_false] at h
    rcases h with rfl | rfl | rfl | rfl
    · exact ⟨.varint, rfl, rfl⟩
    · exact ⟨.fixed64, rfl, rfl⟩
    · exact ⟨.lengthDelimited, rfl, rfl⟩
    · exact ⟨.fixed32, rfl, rfl⟩
  exact ⟨wireType, by cases wireType <;> rfl, unpack_pack hgroup⟩

/-- A type that marks the end of a group, or that is unassigned, is refused by its number. -/
theorem unpack_of_refused (h : ∀ type, WireType.ofId? (word % 8).toNat = some type →
    type.isGroup = true) : unpack word = .error (.unsupportedWireType (word % 8).toNat) := by
  simp only [unpack]
  split
  · next type htype => rw [if_pos (h type htype)]
  · rfl

/-- The types that cannot. -/
theorem unpack_pack_of_refused (h : type ∈ [3, 4, 6, 7]) :
    unpack (pack type number) = .error (.unsupportedWireType type.toNat) := by
  simp only [List.mem_cons, List.not_mem_nil, or_false] at h
  have hsmall : type.toNat < 8 := by
    rcases h with rfl | rfl | rfl | rfl <;> decide
  have hrefused : ∀ wireType, WireType.ofId? (pack type number % 8).toNat = some wireType →
      wireType.isGroup = true := by
    intro wireType hid
    rw [toNat_pack_mod hsmall] at hid
    rcases h with rfl | rfl | rfl | rfl <;> cases hid <;> rfl
  rw [unpack_of_refused hrefused, toNat_pack_mod hsmall]

end Key

namespace Cursor

variable {c d : Cursor} {form : Bytes}

/-- Whether or not the key in a form can be used, the form has been read. -/
theorem readKey_of_form (hform : Varint.IsForm form) (h : c.Passes form d) :
    readKey c = match Key.unpack (Varint.ofGroups form) with
      | .ok key => .ok key d
      | .error fault => .error fault d := by
  have hread := readVarint_eq_ok_iff.mpr ⟨form, hform, h, rfl⟩
  cases hunpack : Key.unpack (Varint.ofGroups form) <;> simp only [readKey, hread, hunpack]

/-- Where a written key comes next, the word in it is taken apart. -/
theorem readKey_written (type number : UInt64) (h : c.Passes (Key.encode type number) d) :
    readKey c = match Key.unpack (Key.pack type number) with
      | .ok key => .ok key d
      | .error fault => .error fault d := by
  rw [readKey_of_form (Varint.isForm_encode _) h, Varint.ofGroups_encode]

end Cursor

/-- **Keys are read as they were written.**  Write a type, by its number, and a field number
anywhere in a buffer and read a key there.  If the type can be followed by a value, the key has this type and
the low 61 bits of the field number, and if not, the read fails and names the type.  It stops where
the key ends in both cases.  And whatever form a key was read from, its number has no more than 61
bits, and what is written for the key is read as the same key. -/
theorem readKey_encode :
    (∀ (type number : UInt64) (before rest : Bytes),
      let buffer := before ++ (Key.encode type number ++ rest)
      let behind := buffer.cursorAt (before.length + (Key.encode type number).length)
      behind.unread = rest ∧
      (type ∈ [0, 1, 2, 5] → ∃ key,
        Cursor.readKey (buffer.cursorAt before.length) = .ok key behind ∧
        key.wireType.id = type.toNat ∧ key.number.toNat = number.toNat % 2 ^ 61 ∧
        (number.toNat < 2 ^ 61 → key.number = number)) ∧
      (type ∈ [3, 4, 6, 7] → Cursor.readKey (buffer.cursorAt before.length) =
        .error (.unsupportedWireType type.toNat) behind)) ∧
    ∀ (c d : Cursor) (key : Key), Cursor.readKey c = .ok key d →
      key.number.toNat < 2 ^ 61 ∧ ∀ before rest : Bytes,
        let written := Key.encode (UInt64.ofNat key.wireType.id) key.number
        let buffer := before ++ (written ++ rest)
        Cursor.readKey (buffer.cursorAt before.length) =
          .ok key (buffer.cursorAt (before.length + written.length)) := by
  constructor
  · intro type number before rest buffer behind
    have hread := Cursor.readKey_written type number (Cursor.passes_middle before _ rest)
    refine ⟨Cursor.unread_behind before _ rest, fun htype => ?usable, fun htype => ?refused⟩
    case usable =>
      obtain ⟨wireType, hid, hunpack⟩ := Key.unpack_pack_of_usable htype
      rw [hunpack] at hread
      refine ⟨_, hread, hid, ?_, fun hnumber => ?_⟩
      · rw [UInt64.toNat_ofNat']
        omega
      · rw [Nat.mod_eq_of_lt hnumber, UInt64.ofNat_toNat]
    case refused =>
      rw [Key.unpack_pack_of_refused htype] at hread
      exact hread
  · intro c d key hread
    obtain ⟨form, -, -, hunpack⟩ := Cursor.readKey_eq_ok_iff.mp hread
    refine ⟨Key.number_lt_of_unpack hunpack, fun before rest => ?_⟩
    have hagain := Cursor.readKey_written (UInt64.ofNat key.wireType.id) key.number
      (Cursor.passes_middle before _ rest)
    rwa [Key.pack_of_unpack hunpack, hunpack] at hagain

/-- The highest number comes back as its 61 low bits, the end of a group and an unassigned type are
refused, and a padded key is written again without the padding. -/
theorem readKey_encode_edges :
    (∃ key,
      Cursor.readKey (Bytes.cursorAt (0x2a :: 0xfa :: List.replicate 8 0xff ++ [0x01, 0x05]) 1) =
        .ok key (Bytes.cursorAt (0x2a :: 0xfa :: List.replicate 8 0xff ++ [0x01, 0x05]) 11) ∧
      key.wireType.id = 2 ∧ key.number.toNat = 2 ^ 61 - 1) ∧
    Cursor.readKey (Bytes.cursorAt [0x2a, 0x0c, 0x05] 1) =
      .error (.unsupportedWireType 4) (Bytes.cursorAt [0x2a, 0x0c, 0x05] 2) ∧
    Cursor.readKey (Bytes.cursorAt [0x2a, 0x0f, 0x05] 1) =
      .error (.unsupportedWireType 7) (Bytes.cursorAt [0x2a, 0x0f, 0x05] 2) ∧
    Cursor.readKey (.ofBytes [0x8d, 0x80, 0x00]) = .ok ⟨.fixed32, 1⟩ ⟨3, 0, [], rfl⟩ ∧
    Cursor.readKey (Bytes.cursorAt [0x2a, 0x0d, 0x05] 1) =
      .ok ⟨.fixed32, 1⟩ (Bytes.cursorAt [0x2a, 0x0d, 0x05] 2) := by
  have hhighest : Key.encode 2 0xffffffffffffffff = 0xfa :: List.replicate 8 0xff ++ [0x01] := by
    cbv
  have hpadded : Cursor.readKey (.ofBytes [0x8d, 0x80, 0x00]) =
      .ok ⟨.fixed32, 1⟩ ⟨3, 0, [], rfl⟩ := by cbv
  obtain ⟨hwritten, hagain⟩ := readKey_encode
  obtain ⟨-, husable, -⟩ := hwritten 2 0xffffffffffffffff [0x2a] [0x05]
  obtain ⟨-, -, hgroup⟩ := hwritten 4 1 [0x2a] [0x05]
  obtain ⟨-, -, hunassigned⟩ := hwritten 7 1 [0x2a] [0x05]
  have hsame := (hagain _ _ _ hpadded).2 [0x2a] [0x05]
  rw [hhighest] at husable
  rw [show Key.encode 4 1 = [0x0c] by cbv] at hgroup
  rw [show Key.encode 7 1 = [0x0f] by cbv] at hunassigned
  dsimp only at hsame
  rw [show Key.encode (UInt64.ofNat WireType.fixed32.id) 1 = [0x0d] by cbv] at hsame
  obtain ⟨key, hkey, hid, hnumber, -⟩ := husable (by decide)
  exact ⟨⟨key, hkey, hid, hnumber.trans (by decide)⟩, hgroup (by decide), hunassigned (by decide),
    hpadded, hsame⟩

end FieldSieve
