import FieldSieve.Proofs.WrittenForms
import FieldSieve.Tree.Decode

/-!
# Fields as they stand in a buffer

The bytes of a field are a form of its key and what belongs behind that key: a form of a number, the
bytes of a fixed width, or a form of a length and so many bytes (`Item.Written`).  A field is read
exactly where its bytes come next (`Item.read_eq_ok_iff`), so the first field of a row is the one
whose bytes the row begins with (`Item.split?_eq_some_iff`).
-/
namespace FieldSieve

namespace Key

variable {type number word : UInt64} {key : Key}

/-- A type and the low 61 bits of a number stand side by side in a word. -/
theorem toNat_pack (h : type.toNat < 8) :
    (pack type number).toNat = 8 * (number.toNat % 2 ^ 61) + type.toNat := by
  have hshift : number.toNat <<< 3 % 2 ^ 64 = 8 * (number.toNat % 2 ^ 61) := by
    rw [Nat.shiftLeft_eq]
    omega
  -- The type has three bits and the shifted number has none of them.
  have hor := Nat.two_pow_add_eq_or_of_lt (show type.toNat < 2 ^ 3 from h) (number.toNat % 2 ^ 61)
  rw [pack, UInt64.toNat_or, UInt64.toNat_shiftLeft,
    show (3 : UInt64).toNat % 64 = 3 from rfl, hshift, Nat.or_comm]
  exact hor.symm

theorem id_of_unpack (h : unpack word = .ok key) : key.wireType.id = word.toNat % 8 := by
  simp only [unpack] at h
  split at h
  · next hid =>
    split at h <;> cases h
    rw [WireType.id_of_ofId? hid, UInt64.toNat_mod]
    rfl
  · cases h

/-- The word of a usable key is its type and its number packed together again. -/
theorem pack_of_unpack (h : unpack word = .ok key) :
    pack (UInt64.ofNat key.wireType.id) key.number = word := by
  have hid := id_of_unpack h
  have hword := word.toNat_lt
  have htype : (UInt64.ofNat key.wireType.id).toNat = word.toNat % 8 := by
    rw [hid, UInt64.toNat_ofNat', Nat.mod_eq_of_lt (by omega)]
  apply UInt64.toNat_inj.mp
  rw [toNat_pack (by omega), htype, number_of_unpack h, UInt64.toNat_div,
    show (8 : UInt64).toNat = 8 from rfl]
  omega

theorem encode_of_unpack (h : unpack word = .ok key) :
    encode (UInt64.ofNat key.wireType.id) key.number = Varint.encode word :=
  congrArg Varint.encode (pack_of_unpack h)

/-- The number of a key has three bits less than a word. -/
theorem number_lt_of_unpack (h : unpack word = .ok key) : key.number.toNat < 2 ^ 61 := by
  have hword := word.toNat_lt
  rw [number_of_unpack h, UInt64.toNat_div, show (8 : UInt64).toNat = 8 from rfl]
  omega

/-- The low three bits of a packed key are its type, -/
theorem toNat_pack_mod (h : type.toNat < 8) : (pack type number % 8).toNat = type.toNat := by
  rw [UInt64.toNat_mod, toNat_pack h, show (8 : UInt64).toNat = 8 from rfl]
  omega

/-- and the others are the number, less its three highest bits. -/
theorem pack_div (h : type.toNat < 8) :
    pack type number / 8 = UInt64.ofNat (number.toNat % 2 ^ 61) := by
  apply UInt64.toNat_inj.mp
  rw [UInt64.toNat_div, toNat_pack h, show (8 : UInt64).toNat = 8 from rfl, UInt64.toNat_ofNat']
  omega

/-- A type that can be followed by a value and a number, packed together, are that key again, less
the three highest bits of the number. -/
theorem unpack_pack {type : WireType} (h : type.isGroup = false) :
    unpack (pack (UInt64.ofNat type.id) number) =
      .ok ⟨type, UInt64.ofNat (number.toNat % 2 ^ 61)⟩ := by
  have htype : (UInt64.ofNat type.id).toNat = type.id := by cases type <;> rfl
  have hid : (UInt64.ofNat type.id).toNat < 8 := by cases type <;> decide
  simp only [unpack, toNat_pack_mod hid, pack_div hid, htype, WireType.ofId?_id, h,
    Bool.false_eq_true, if_false]

theorem unpack_pack_of_lt {type : WireType} (h : type.isGroup = false)
    (hnumber : number.toNat < 2 ^ 61) :
    unpack (pack (UInt64.ofNat type.id) number) = .ok ⟨type, number⟩ := by
  rw [unpack_pack h, Nat.mod_eq_of_lt hnumber, UInt64.ofNat_toNat]

end Key

/-- The bytes of a number behind its key, on as few as can be. -/
def Scalar.stored : Scalar → Bytes
  | varint value => Varint.encode value
  | fixed64 value => Bytes.littleEndian 8 value.toNat
  | fixed32 value => Bytes.littleEndian 4 value.toNat

theorem Message.scalar_eq (number : UInt64) (value : Scalar) : Message.scalar number value =
    Key.encode (UInt64.ofNat value.wireType.id) number ++ value.stored := by
  cases value <;> rfl

theorem Message.payload_eq (number : UInt64) (value : Bytes) : Message.payload number value =
    Key.encode (UInt64.ofNat WireType.lengthDelimited.id) number ++
      (Varint.encode (UInt64.ofNat value.length) ++ value) :=
  List.append_assoc ..

namespace Item

/-- The bytes of an item behind its key. -/
inductive Behind (key : Key) : Item → Bytes → Prop
  | varint {form : Bytes} (htype : key.wireType = .varint) (hform : Varint.IsForm form) :
    Behind key (.scalar key.number (.varint (Varint.ofGroups form))) form
  | fixed64 {raw : Bytes} (htype : key.wireType = .fixed64) (hlength : raw.length = 8) :
    Behind key (.scalar key.number (.fixed64 raw.word)) raw
  | fixed32 {raw : Bytes} (htype : key.wireType = .fixed32) (hlength : raw.length = 4) :
    Behind key (.scalar key.number (.fixed32 raw.word.toUInt32)) raw
  | payload {form value : Bytes} (htype : key.wireType = .lengthDelimited)
      (hform : Varint.IsForm form) (hlength : (Varint.ofGroups form).toNat = value.length) :
    Behind key (.payload key.number value) (form ++ value)

/-- The bytes of an item, in one of its forms. -/
inductive Written : Item → Bytes → Prop
  | mk {item : Item} {key : Key} {form behind : Bytes} (hform : Varint.IsForm form)
      (hkey : Key.unpack (Varint.ofGroups form) = .ok key) (hbehind : Behind key item behind) :
    Written item (form ++ behind)

variable {key : Key} {item : Item} {c d : Cursor} {bytes rest : Bytes}

theorem readBehind_eq_ok_iff :
    readBehind key c = .ok item d ↔ ∃ behind, Behind key item behind ∧ c.Passes behind d := by
  constructor
  · intro h
    obtain ⟨type, number⟩ := key
    cases type with
    | varint =>
      obtain ⟨word, between, hword, h⟩ := bind_eq_ok.mp h
      cases h
      obtain ⟨form, hform, hpasses, rfl⟩ := Cursor.readVarint_eq_ok_iff.mp hword
      exact ⟨form, .varint rfl hform, hpasses⟩
    | fixed64 =>
      obtain ⟨raw, between, hraw, h⟩ := bind_eq_ok.mp h
      cases h
      obtain ⟨hpasses, hlength⟩ := Cursor.readBytes_eq_ok_iff.mp hraw
      exact ⟨raw, .fixed64 rfl hlength, hpasses⟩
    | fixed32 =>
      obtain ⟨raw, between, hraw, h⟩ := bind_eq_ok.mp h
      cases h
      obtain ⟨hpasses, hlength⟩ := Cursor.readBytes_eq_ok_iff.mp hraw
      exact ⟨raw, .fixed32 rfl hlength, hpasses⟩
    | lengthDelimited =>
      obtain ⟨word, between, hword, h⟩ := bind_eq_ok.mp h
      obtain ⟨value, after, hvalue, h⟩ := bind_eq_ok.mp h
      cases h
      obtain ⟨form, hform, hpasses, rfl⟩ := Cursor.readVarint_eq_ok_iff.mp hword
      obtain ⟨hmore, hlength⟩ := Cursor.readBytes_eq_ok_iff.mp hvalue
      exact ⟨form ++ value, .payload rfl hform hlength.symm, hpasses.trans hmore⟩
    | startGroup | endGroup => cases h
  · rintro ⟨behind, hbehind, hpasses⟩
    obtain ⟨type, number⟩ := key
    cases hbehind with
    | varint htype hform =>
      cases htype
      exact bind_eq_ok.mpr ⟨_, _, Cursor.readVarint_eq_ok_iff.mpr ⟨_, hform, hpasses, rfl⟩, rfl⟩
    | fixed64 htype hlength =>
      cases htype
      exact bind_eq_ok.mpr ⟨_, _, Cursor.readBytes_eq_ok_iff.mpr ⟨hpasses, hlength⟩, rfl⟩
    | fixed32 htype hlength =>
      cases htype
      exact bind_eq_ok.mpr ⟨_, _, Cursor.readBytes_eq_ok_iff.mpr ⟨hpasses, hlength⟩, rfl⟩
    | @payload form value htype hform hlength =>
      cases htype
      obtain ⟨between, hfirst, hrest⟩ := hpasses.split
      exact bind_eq_ok.mpr ⟨_, _, Cursor.readVarint_eq_ok_iff.mpr ⟨_, hform, hfirst, rfl⟩,
        bind_eq_ok.mpr ⟨_, _, Cursor.readBytes_eq_ok_iff.mpr ⟨hrest, hlength.symm⟩, rfl⟩⟩

/-- Something stands behind every key: an empty payload has its length. -/
theorem Behind.ne_nil (h : Behind key item bytes) : bytes ≠ [] := by
  cases h with
  | varint _ hform => exact hform.ne_nil
  | fixed64 _ hlength | fixed32 _ hlength =>
    rintro rfl
    cases hlength
  | payload _ hform _ => simp [hform.ne_nil]

/-- A number has the type of its key. -/
theorem Behind.wireType_eq {number : UInt64} {value : Scalar}
    (h : Behind key (.scalar number value) bytes) : key.wireType = value.wireType := by
  cases h with
  | varint htype | fixed64 htype | fixed32 htype => exact htype

theorem position_lt_of_readBehind (h : readBehind key c = .ok item d) :
    c.position < d.position := by
  obtain ⟨behind, hbehind, hpasses⟩ := readBehind_eq_ok_iff.mp h
  exact hpasses.position_lt hbehind.ne_nil

/-- An item is read exactly where its bytes come next. -/
theorem read_eq_ok_iff :
    read c = .ok item d ↔ ∃ written, Written item written ∧ c.Passes written d := by
  constructor
  · intro h
    obtain ⟨key, afterKey, hkey, h⟩ := bind_eq_ok.mp h
    obtain ⟨form, hform, hpasses, hunpack⟩ := Cursor.readKey_eq_ok_iff.mp hkey
    obtain ⟨behind, hbehind, hmore⟩ := readBehind_eq_ok_iff.mp h
    exact ⟨form ++ behind, .mk hform hunpack hbehind, hpasses.trans hmore⟩
  · rintro ⟨written, ⟨hform, hunpack, hbehind⟩, hpasses⟩
    obtain ⟨between, hfirst, hrest⟩ := hpasses.split
    exact bind_eq_ok.mpr ⟨_, _, Cursor.readKey_eq_ok_iff.mpr ⟨_, hform, hfirst, hunpack⟩,
      readBehind_eq_ok_iff.mpr ⟨_, hbehind, hrest⟩⟩

/-- The first item of a row is the one whose bytes the row begins with. -/
theorem split?_eq_some_iff :
    split? bytes = some (item, rest) ↔
      ∃ written, Written item written ∧ bytes = written ++ rest := by
  constructor
  · intro h
    unfold split? at h
    split at h
    · next hread =>
      cases h
      obtain ⟨written, hwritten, hpasses⟩ := read_eq_ok_iff.mp hread
      exact ⟨written, hwritten, hpasses.unread⟩
    · cases h
  · rintro ⟨written, hwritten, rfl⟩
    obtain ⟨d, hpasses, hrest⟩ := Cursor.exists_passes (Cursor.unread_ofBytes (written ++ rest))
    rw [split?, read_eq_ok_iff.mpr ⟨written, hwritten, hpasses⟩, ← hrest]

variable {number : UInt64} {written : Bytes}

theorem Written.ne_nil (h : Written item written) : written ≠ [] := by
  obtain ⟨hform, -, -⟩ := h
  simp [hform.ne_nil]

theorem Written.of_scalar {value : Scalar} (h : Written (.scalar number value) written) :
    ∃ form behind, written = form ++ behind ∧ Varint.IsForm form ∧
      Key.unpack (Varint.ofGroups form) = .ok ⟨value.wireType, number⟩ ∧
      Behind ⟨value.wireType, number⟩ (.scalar number value) behind := by
  cases h with
  | @mk key form behind hform hkey hbehind =>
    obtain ⟨type, _⟩ := key
    refine ⟨form, behind, rfl, hform, ?_⟩
    cases hbehind with
    | varint htype hvalue =>
      cases htype
      exact ⟨hkey, .varint rfl hvalue⟩
    | fixed64 htype hlength =>
      cases htype
      exact ⟨hkey, .fixed64 rfl hlength⟩
    | fixed32 htype hlength =>
      cases htype
      exact ⟨hkey, .fixed32 rfl hlength⟩

theorem Written.of_payload {value : Bytes} (h : Written (.payload number value) written) :
    ∃ form lengthForm, written = form ++ lengthForm ++ value ∧ Varint.IsForm form ∧
      Key.unpack (Varint.ofGroups form) = .ok ⟨.lengthDelimited, number⟩ ∧
      Varint.IsForm lengthForm ∧ (Varint.ofGroups lengthForm).toNat = value.length := by
  cases h with
  | @mk key form behind hform hkey hbehind =>
    obtain ⟨type, _⟩ := key
    cases hbehind with
    | @payload lengthForm _ htype hlengthForm hlength =>
      cases htype
      exact ⟨form, lengthForm, (List.append_assoc ..).symm, hform, hkey, hlengthForm, hlength⟩

theorem Written.head_ne_nil {head value : Bytes}
    (h : Written (.payload number value) (head ++ value)) : head ≠ [] := by
  obtain ⟨form, lengthForm, happend, hform, -⟩ := h.of_payload
  rw [List.append_cancel_right happend]
  simp [hform.ne_nil]

theorem behind_stored (number : UInt64) (value : Scalar) :
    Behind ⟨value.wireType, number⟩ (.scalar number value) value.stored := by
  cases value with
  | varint value =>
    have h : Behind ⟨.varint, number⟩
        (.scalar number (.varint (Varint.ofGroups (Varint.encode value)))) (Varint.encode value) :=
      .varint rfl (Varint.isForm_encode value)
    rwa [Varint.ofGroups_encode] at h
  | fixed64 value =>
    have h : Behind ⟨.fixed64, number⟩ _ _ :=
      .fixed64 rfl (Bytes.length_littleEndian 8 value.toNat)
    rwa [Bytes.word_littleEndian64] at h
  | fixed32 value =>
    have h : Behind ⟨.fixed32, number⟩ _ _ :=
      .fixed32 rfl (Bytes.length_littleEndian 4 value.toNat)
    rwa [Bytes.word_littleEndian32] at h

theorem isForm_key (type : WireType) (hgroup : type.isGroup = false) (h : number.toNat < 2 ^ 61) :
    Varint.IsForm (Key.encode (UInt64.ofNat type.id) number) ∧
      Key.unpack (Varint.ofGroups (Key.encode (UInt64.ofNat type.id) number)) =
        .ok ⟨type, number⟩ := by
  refine ⟨Varint.isForm_encode _, ?_⟩
  rw [Key.encode, Varint.ofGroups_encode, Key.unpack_pack_of_lt hgroup h]

/-- A field as it is written stands in one of its forms. -/
theorem written_scalar (value : Scalar) (h : number.toNat < 2 ^ 61) :
    Written (.scalar number value) (Message.scalar number value) := by
  have hgroup : value.wireType.isGroup = false := by cases value <;> rfl
  obtain ⟨hform, hkey⟩ := isForm_key _ hgroup h
  rw [Message.scalar_eq]
  exact .mk hform hkey (behind_stored number value)

theorem written_payload {value : Bytes} (h : number.toNat < 2 ^ 61)
    (hlength : value.length < 2 ^ 64) :
    Written (.payload number value) (Message.payload number value) := by
  obtain ⟨hform, hkey⟩ := isForm_key .lengthDelimited rfl h
  rw [Message.payload_eq]
  refine .mk hform hkey (.payload rfl (Varint.isForm_encode _) ?_)
  rw [Varint.ofGroups_encode, UInt64.toNat_ofNat', Nat.mod_eq_of_lt hlength]

end Item
end FieldSieve
