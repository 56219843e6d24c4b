import FieldSieve.Proofs.EncodedText
import FieldSieve.Proofs.FailingLoops
import FieldSieve.Text.Hex

/-!
# Digits in letters of either size

Bytes are written in small letters and read in letters of either size.  Whatever is read is pairs
of digits: an odd one out is an error, and so is a character that is no digit, wherever it stands.
A character of several bytes is no exception, as none of its bytes is that of a digit.
-/
namespace FieldSieve.Text.Hex

variable {c : Char} {b : UInt8} {n position : Nat} {digits : List Char} {bytes raw : Bytes}

/-- The characters that are digits. -/
def digitChars : List Char := "0123456789abcdefABCDEF".toList

/-- The characters are the digits of a byte string, in letters of either size. -/
def Spells (digits : List Char) (bytes : Bytes) : Prop :=
  digits.map Char.toLower = (encode bytes).toList

/-- The characters do not pair up, or one of them is no digit. -/
def Misspelt (digits : List Char) : Prop :=
  digits.length % 2 = 1 ∨ ∃ c ∈ digits, c ∉ digitChars

/-! ### Digits are read as the bytes they spell -/

/-- A letter is made small by counting up from it. -/
theorem toNat_le_toLower (c : Char) : c.toNat ≤ c.toLower.toNat := by
  unfold Char.toLower
  split
  · next h =>
    have hle : c.val.toNat ≤ 90 := h.2
    show c.val.toNat ≤ (c.val + 32).toNat
    rw [UInt32.toNat_add]
    simp only [UInt32.reduceToNat]
    omega
  · exact Nat.le_refl _

theorem toNat_lt_of_toLower (hn : n < 16) (h : c.toLower = n.digitChar) : c.toNat < 0x80 := by
  have hdigits : ∀ n < 16, n.digitChar.toNat < 0x80 := by decide
  exact Nat.lt_of_le_of_lt (h ▸ toNat_le_toLower c) (hdigits n hn)

theorem digit?_of_toLower (hn : n < 16) (h : c.toLower = n.digitChar) :
    digit? (UInt8.ofNat c.toNat) = some n := by
  have hdigits : ∀ m < 0x80, ∀ n < 16, (Char.ofNat m).toLower = n.digitChar →
      digit? (UInt8.ofNat m) = some n := by decide
  exact hdigits c.toNat (toNat_lt_of_toLower hn h) n hn (by rwa [Char.ofNat_toNat])

theorem digitAt_of_toLower (hn : n < 16) (h : c.toLower = n.digitChar) :
    digitAt position (UInt8.ofNat c.toNat) = .ok n := by
  rw [digitAt, digit?_of_toLower hn h]

/-- The digits of a byte, and then those of the bytes behind it. -/
theorem exists_cons_of_spells (h : Spells digits (b :: bytes)) :
    ∃ high low rest, digits = high :: low :: rest ∧ high.toLower = (b.toNat / 16).digitChar ∧
      low.toLower = (b.toNat % 16).digitChar ∧ Spells rest bytes := by
  rw [Spells, encode, String.toList_ofList, List.flatMap_cons, encodeByte] at h
  obtain ⟨high, behind, rfl, hhigh, h⟩ := List.map_eq_cons_iff.mp h
  obtain ⟨low, rest, rfl, hlow, h⟩ := List.map_eq_cons_iff.mp h
  exact ⟨high, low, rest, rfl, hhigh, hlow, by rwa [Spells, encode, String.toList_ofList]⟩

theorem eq_nil_of_spells (h : Spells digits []) : digits = [] :=
  List.map_eq_nil_iff.mp h

/-- Each of the digits is a byte of its own. -/
theorem toNat_lt_of_spells (h : Spells digits bytes) : ∀ c ∈ digits, c.toNat < 0x80 := by
  induction bytes generalizing digits with
  | nil => simp [eq_nil_of_spells h]
  | cons b bytes ih =>
    obtain ⟨high, low, rest, rfl, hhigh, hlow, hrest⟩ := exists_cons_of_spells h
    have hb := b.toNat_lt
    rw [List.forall_mem_cons, List.forall_mem_cons]
    exact ⟨toNat_lt_of_toLower (by omega) hhigh, toNat_lt_of_toLower (by omega) hlow, ih hrest⟩

theorem length_of_spells (h : Spells digits bytes) : digits.length = 2 * bytes.length := by
  rw [← List.length_map Char.toLower, h, encode, String.toList_ofList, length_flatMap_encodeByte]

theorem decodePairs_of_spells (h : Spells digits bytes) :
    decodePairs position (digits.map fun c => UInt8.ofNat c.toNat) = .ok bytes := by
  induction bytes generalizing digits position with
  | nil =>
    rw [eq_nil_of_spells h]
    rfl
  | cons b bytes ih =>
    obtain ⟨high, low, rest, rfl, hhigh, hlow, hrest⟩ := exists_cons_of_spells h
    have hb := b.toNat_lt
    have hbyte : UInt8.ofNat (16 * (b.toNat / 16) + b.toNat % 16) = b := by
      rw [Nat.div_add_mod, UInt8.ofNat_toNat]
    rw [List.map_cons, List.map_cons, decodePairs, digitAt_of_toLower (by omega) hhigh,
      digitAt_of_toLower (by omega) hlow, ih hrest]
    exact congrArg (Except.ok <| · :: bytes) hbyte

theorem decode_of_spells (h : Spells digits bytes) :
    decode (String.ofList digits) = .ok bytes := by
  have heven := length_of_spells h
  rw [decode, Utf8.encode_ofList (toNat_lt_of_spells h), List.length_map, if_neg (by omega)]
  exact decodePairs_of_spells h

/-! ### Nothing else is read -/

theorem isSome_of_digitAt (h : digitAt position b = .ok n) : (digit? b).isSome := by
  unfold digitAt at h
  split at h
  · next hdigit => rw [hdigit]; rfl
  · cases h

/-- What was read in pairs is digits throughout. -/
theorem isSome_of_decodePairs (h : decodePairs position raw = .ok bytes)
    (heven : raw.length % 2 = 0) : ∀ b ∈ raw, (digit? b).isSome := by
  induction position, raw using decodePairs.induct generalizing bytes with
  | case1 position high low rest ih =>
    rw [decodePairs] at h
    obtain ⟨m, hhigh, h⟩ := Except.bind_eq_ok_iff.mp h
    obtain ⟨n, hlow, h⟩ := Except.bind_eq_ok_iff.mp h
    obtain ⟨behind, hrest, -⟩ := Except.bind_eq_ok_iff.mp h
    have hbehind : rest.length % 2 = 0 := by
      simp only [List.length_cons] at heven
      omega
    rw [List.forall_mem_cons, List.forall_mem_cons]
    exact ⟨isSome_of_digitAt hhigh, isSome_of_digitAt hlow, ih hrest hbehind⟩
  | case2 raw position hpairs =>
    rcases raw with _ | ⟨high, _ | ⟨low, rest⟩⟩
    · exact nofun
    · cases heven
    · exact (hpairs high low rest rfl).elim

/-- The bytes of digits are below `80`. -/
theorem toNat_lt_of_isSome (h : (digit? b).isSome) : b.toNat < 0x80 := by
  unfold digit? at h
  dsimp only at h
  split at h
  · omega
  · split at h
    · omega
    · split at h
      · omega
      · cases h

/-- A character whose bytes are all read as digits is one. -/
theorem mem_digitChars_of_isSome (h : ∀ b ∈ String.utf8EncodeChar c, (digit? b).isSome) :
    c ∈ digitChars := by
  have hdigits : ∀ n < 0x80, (digit? (UInt8.ofNat n)).isSome → Char.ofNat n ∈ digitChars := by
    decide
  rcases Nat.lt_or_ge c.toNat 0x80 with hc | hc
  · rw [Utf8.utf8EncodeChar_of_lt hc, List.forall_mem_singleton] at h
    simpa using hdigits c.toNat hc h
  · obtain ⟨b, hb⟩ := List.exists_mem_of_ne_nil _ (String.utf8EncodeChar_ne_nil (c := c))
    have hlt := toNat_lt_of_isSome (h b hb)
    have hle := Utf8.le_of_mem_utf8EncodeChar hc hb
    omega

/-- Whatever is read is an even number of digits. -/
theorem digits_of_decode (h : decode (String.ofList digits) = .ok bytes) :
    digits.length % 2 = 0 ∧ ∀ c ∈ digits, c ∈ digitChars := by
  have hascii : digitChars.all (·.toNat < 0x80) := by decide
  rw [decode] at h
  by_cases hodd : (Utf8.encode (String.ofList digits)).length % 2 = 1
  · rw [if_pos hodd] at h
    cases h
  · rw [if_neg hodd] at h
    have hbytes := isSome_of_decodePairs h (Nat.mod_two_ne_one.mp hodd)
    rw [Utf8.encode_eq, String.toList_ofList] at hbytes
    have hchars : ∀ c ∈ digits, c ∈ digitChars := fun c hc =>
      mem_digitChars_of_isSome fun b hb => hbytes b (List.mem_flatMap_of_mem hc hb)
    have hsingle : ∀ c ∈ digits, c.toNat < 0x80 := fun c hc =>
      of_decide_eq_true (List.all_eq_true.mp hascii c (hchars c hc))
    rw [Utf8.encode_ofList hsingle, List.length_map] at hodd
    exact ⟨Nat.mod_two_ne_one.mp hodd, hchars⟩

/-- Characters that are not the digits of a byte string are not read as one. -/
theorem exists_error_of_misspelt (h : Misspelt digits) :
    ∃ error, decode (String.ofList digits) = .error error := by
  cases hread : decode (String.ofList digits) with
  | error error => exact ⟨error, rfl⟩
  | ok bytes =>
    obtain ⟨heven, hchars⟩ := digits_of_decode hread
    rcases h with hodd | ⟨c, hc, hno⟩
    · rw [heven] at hodd
      cases hodd
    · exact absurd (hchars c hc) hno

end FieldSieve.Text.Hex
