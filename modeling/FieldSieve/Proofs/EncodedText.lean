import FieldSieve.Text.Utf8

/-!
# Text as bytes

A text is the bytes of its characters one behind the other.  A character up to `U+007F` is a single
byte of the same number, and the bytes of all others are `80` and above.  So such a byte stands for
its own character wherever it comes up, and text can be searched for it byte by byte.
-/
namespace FieldSieve.Text.Utf8

variable {c : Char} {b : UInt8}

theorem toList_loop (bytes : ByteArray) (i : Nat) (read : List UInt8) :
    ByteArray.toList.loop bytes i read = read.reverse ++ bytes.data.toList.drop i := by
  fun_induction ByteArray.toList.loop bytes i read with
  | case1 i read h ih =>
    have hi : i < bytes.data.toList.length := h
    have hget : bytes.get! i = bytes.data.toList[i] := by
      simp only [ByteArray.get!, Array.getElem_toList]
      exact getElem!_pos bytes.data i h
    rw [ih, List.drop_eq_getElem_cons hi, List.reverse_cons, List.append_assoc, hget]
    rfl
  | case2 i read h =>
    have hi : bytes.data.toList.length ≤ i := Nat.le_of_not_lt h
    rw [List.drop_of_length_le hi, List.append_nil]

theorem toList_byteArray (bytes : ByteArray) : bytes.toList = bytes.data.toList := by
  rw [ByteArray.toList, toList_loop]
  rfl

/-- A text is written character by character. -/
theorem encode_eq (text : String) : encode text = text.toList.flatMap String.utf8EncodeChar := by
  obtain ⟨cs, rfl⟩ : ∃ cs, text = String.ofList cs := ⟨_, String.ofList_toList.symm⟩
  rw [encode, String.toUTF8, toList_byteArray, String.toByteArray_ofList, List.utf8Encode,
    List.data_toByteArray, List.toList_toArray, String.toList_ofList]

theorem encode_append (text behind : String) :
    encode (text ++ behind) = encode text ++ encode behind := by
  rw [encode_eq, encode_eq, encode_eq, String.toList_append, List.flatMap_append]

/-- What was written as bytes is read back. -/
theorem decode?_encode (text : String) : decode? (encode text) = some text := by
  have hbytes : ByteArray.mk (encode text).toArray = text.toByteArray := by
    rw [encode, toList_byteArray]
    rfl
  rw [decode?, hbytes, String.fromUTF8?, dif_pos text.isValidUTF8]
  rfl

/-- A character of the first half of the bytes is that byte. -/
theorem utf8EncodeChar_of_lt (h : c.toNat < 0x80) :
    String.utf8EncodeChar c = [UInt8.ofNat c.toNat] :=
  if_pos (Nat.le_of_lt_succ h)

/-- A text of such characters is as many bytes. -/
theorem encode_ofList {cs : List Char} (h : ∀ c ∈ cs, c.toNat < 0x80) :
    encode (String.ofList cs) = cs.map fun c => UInt8.ofNat c.toNat := by
  rw [encode_eq, String.toList_ofList]
  induction cs with
  | nil => rfl
  | cons c cs ih =>
    rw [List.forall_mem_cons] at h
    rw [List.flatMap_cons, utf8EncodeChar_of_lt h.1, ih h.2]
    rfl

/-- A byte whose upper bits are a mark that is no character of one byte. -/
theorem le_toNat_ofNat_add {n count mark : Nat} (hcount : 0 < count) (hmark : 0x80 ≤ mark)
    (hbyte : mark + count ≤ 0x100) : 0x80 ≤ (UInt8.ofNat (n % count + mark)).toNat := by
  have hlt := Nat.mod_lt n hcount
  rw [UInt8.toNat_ofNat_of_lt' (by rw [UInt8.size]; omega)]
  omega

/-- No byte of a character outside the first half is one of a character inside it. -/
theorem le_of_mem_utf8EncodeChar (h : 0x80 ≤ c.toNat) (hb : b ∈ String.utf8EncodeChar c) :
    0x80 ≤ b.toNat := by
  have hmore : ¬ c.val.toNat ≤ 0x7f := Nat.not_le_of_gt h
  simp only [String.utf8EncodeChar, if_neg hmore] at hb
  -- A character of two, three or four bytes: each of them is marked.
  repeat' split at hb
  all_goals
    simp only [List.mem_cons, List.not_mem_nil, or_false] at hb
    rcases hb with rfl | hb
    · exact le_toNat_ofNat_add (by decide) (by decide) (by decide)
  · subst hb
    exact le_toNat_ofNat_add (by decide) (by decide) (by decide)
  · rcases hb with rfl | rfl <;> exact le_toNat_ofNat_add (by decide) (by decide) (by decide)
  · rcases hb with rfl | rfl | rfl <;>
      exact le_toNat_ofNat_add (by decide) (by decide) (by decide)

/-- The byte of a character is found in no other one. -/
theorem eq_of_mem_utf8EncodeChar {d : Char} (hd : d.toNat < 0x80)
    (h : UInt8.ofNat d.toNat ∈ String.utf8EncodeChar c) : c = d := by
  have hbyte : (UInt8.ofNat d.toNat).toNat = d.toNat := by
    rw [UInt8.toNat_ofNat']
    omega
  rcases Nat.lt_or_ge c.toNat 0x80 with hc | hc
  · rw [utf8EncodeChar_of_lt hc, List.mem_singleton] at h
    have hsame := congrArg UInt8.toNat h
    rw [hbyte, UInt8.toNat_ofNat', Nat.mod_eq_of_lt (by omega)] at hsame
    rw [← Char.ofNat_toNat c, ← hsame, Char.ofNat_toNat]
  · have hle := le_of_mem_utf8EncodeChar hc h
    omega

/-- A text whose first byte is a character starts with it. -/
theorem head?_of_head?_encode {text : String} {d : Char} (hd : d.toNat < 0x80)
    (h : (encode text).head? = some (UInt8.ofNat d.toNat)) : text.toList.head? = some d := by
  rw [encode_eq] at h
  cases hchars : text.toList with
  | nil =>
    rw [hchars] at h
    cases h
  | cons c cs =>
    obtain ⟨b, bytes, hbytes⟩ := List.exists_cons_of_ne_nil (String.utf8EncodeChar_ne_nil (c := c))
    rw [hchars, List.flatMap_cons, hbytes] at h
    have hfirst : UInt8.ofNat d.toNat ∈ String.utf8EncodeChar c := by
      rw [hbytes, ← Option.some.inj h]
      exact List.mem_cons_self
    rw [eq_of_mem_utf8EncodeChar hd hfirst]
    rfl

end FieldSieve.Text.Utf8
