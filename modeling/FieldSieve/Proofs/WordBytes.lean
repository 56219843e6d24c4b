import FieldSieve.Scalar
import Mathlib.Algebra.Group.Nat.Defs

/-!
# Words and their bytes

The bytes that are written for a word are counted by its bits, and so many bytes are what dividing
comes to (`Bytes.length_shortest`): both are the least number of bytes that hold the word.  So they
are its shortest bytes (`Bytes.ofWord_eq_shortest`).

Bytes are put together to a word by shifting each to its place.  No byte meets a bit that is set
before, so that every byte adds what it stands for there (`Bytes.toNat_foldl_putByte`), and the word
is the sum of the first eight (`Bytes.toNat_word_eq`).
-/
namespace FieldSieve

namespace Bytes

variable {bytes : Bytes} {b : UInt8} {k n width : Nat}

theorem ofLittleEndian_lt (bytes : Bytes) : ofLittleEndian bytes < 256 ^ bytes.length := by
  induction bytes with
  | nil => simp
  | cons b rest ih =>
    have hb := b.toNat_lt
    rw [ofLittleEndian_cons, List.length_cons, Nat.pow_succ]
    omega

theorem length_shortest_le (hk : 0 < k) (h : n < 256 ^ k) : (shortest n).length ≤ k := by
  induction k generalizing n with
  | zero => omega
  | succ k ih =>
    rw [shortest]
    split
    · exact hk
    · have hk : 0 < k := by
        rcases Nat.eq_zero_or_pos k with rfl | hk
        · omega
        · exact hk
      rw [Nat.pow_succ'] at h
      exact Nat.succ_le_succ (ih hk (Nat.div_lt_of_lt_mul h))

/-- No fewer bits hold a word than it has. -/
theorem bitLength_le_iff {word : UInt64} : bitLength word ≤ k ↔ word.toNat < 2 ^ k := by
  have hlt : word.toNat < 2 ^ bitLength word := BitVec.toNat_lt_two_pow_sub_clz
  constructor
  · intro h
    exact Nat.lt_of_lt_of_le hlt (Nat.pow_le_pow_right (by decide) h)
  · intro h
    by_cases hzero : word.toBitVec = 0
    · rw [bitLength, hzero]
      exact Nat.zero_le k
    · -- The highest bit alone comes to the half of the bound.
      have hhalf : 2 ^ (64 - 1 - word.toBitVec.clz.toNat) ≤ word.toNat :=
        BitVec.two_pow_sub_clz_le_toNat_of_ne_zero (by decide) hzero
      have hpow := (Nat.pow_lt_pow_iff_right (by decide)).mp (Nat.lt_of_le_of_lt hhalf h)
      rw [bitLength]
      omega

/-- Counting bits comes to as many bytes as dividing does. -/
theorem length_shortest (word : UInt64) :
    (shortest word.toNat).length = max 1 ((bitLength word + 7) / 8) := by
  have hpow : ∀ k, 256 ^ k = 2 ^ (8 * k) := fun k => by rw [Nat.pow_mul]
  apply Nat.le_antisymm
  · refine length_shortest_le (by omega) ?_
    rw [hpow]
    exact bitLength_le_iff.mp (by omega)
  · have hpos : 0 < (shortest word.toNat).length :=
      List.length_pos_iff.mpr (shortest_ne_nil _)
    have hbits : bitLength word ≤ 8 * (shortest word.toNat).length := by
      have hlt := ofLittleEndian_lt (shortest word.toNat)
      rw [ofLittleEndian_shortest, hpow] at hlt
      exact bitLength_le_iff.mpr hlt
    omega

theorem ofWord_eq_shortest (word : UInt64) : ofWord word = shortest word.toNat := by
  have hbits : bitLength word ≤ 64 := bitLength_le_iff.mpr word.toNat_lt
  rw [ofWord, take_littleEndian (by omega), ← length_shortest, littleEndian_length_shortest]

/-- A number put in where all bits are clear adds to the word, less what has no place there. -/
theorem toNat_or_shiftLeft {value digit : UInt64} {shift : Nat} (hshift : shift < 64)
    (hclear : value.toNat < 2 ^ shift) :
    (value ||| digit <<< UInt64.ofNat shift).toNat =
      (value.toNat + digit.toNat * 2 ^ shift) % 2 ^ 64 := by
  have hplace : (UInt64.ofNat shift).toNat % 64 = shift := by
    rw [UInt64.toNat_ofNat']
    omega
  have hword : (2 : Nat) ^ 64 = 2 ^ shift * 2 ^ (64 - shift) := by
    rw [← Nat.pow_add, Nat.add_sub_cancel' (Nat.le_of_lt hshift)]
  calc (value ||| digit <<< UInt64.ofNat shift).toNat
      = value.toNat ||| 2 ^ shift * (digit.toNat % 2 ^ (64 - shift)) := by
        rw [UInt64.toNat_or, UInt64.toNat_shiftLeft, hplace, Nat.shiftLeft_eq, Nat.mul_comm, hword,
          Nat.mul_mod_mul_left]
    _ = value.toNat + 2 ^ shift * (digit.toNat % 2 ^ (64 - shift)) := by
        rw [Nat.or_comm, ← Nat.two_pow_add_eq_or_of_lt hclear, Nat.add_comm]
    _ = (value.toNat + digit.toNat * 2 ^ shift) % 2 ^ 64 := by
        rw [hword, Nat.mod_mul, Nat.mul_comm digit.toNat, Nat.add_mul_mod_self_left,
          Nat.mod_eq_of_lt hclear, Nat.add_mul_div_left _ _ (Nat.two_pow_pos shift),
          Nat.div_eq_of_lt hclear, Nat.zero_add]

/-- Behind the places that are taken, bytes add what they stand for there. -/
theorem toNat_foldl_putByte {value : UInt64} {place : Nat} (hvalue : value.toNat < 256 ^ place)
    (hfits : place + bytes.length ≤ 8) : ((bytes.zipIdx place).foldl putByte value).toNat =
      value.toNat + 256 ^ place * ofLittleEndian bytes := by
  induction bytes generalizing value place with
  | nil => simp
  | cons b rest ih =>
    rw [List.length_cons] at hfits
    have hb := b.toNat_lt
    have hpow : 256 ^ place = 2 ^ (8 * place) := by rw [Nat.pow_mul]
    have hnext : value.toNat + b.toNat * 256 ^ place < 256 ^ (place + 1) := by
      have hdigit : b.toNat * 256 ^ place ≤ 255 * 256 ^ place :=
        Nat.mul_le_mul_right _ (Nat.le_of_lt_succ hb)
      rw [Nat.pow_succ]
      omega
    have hroom : 256 ^ (place + 1) ≤ 2 ^ 64 :=
      Nat.pow_le_pow_right (show 0 < 256 by decide) (show place + 1 ≤ 8 by omega)
    have hput : (putByte value (b, place)).toNat = value.toNat + b.toNat * 256 ^ place := by
      rw [putByte, toNat_or_shiftLeft (by omega) (hpow ▸ hvalue), UInt8.toNat_toUInt64, ← hpow]
      exact Nat.mod_eq_of_lt (Nat.lt_of_lt_of_le hnext hroom)
    rw [List.zipIdx_cons, List.foldl_cons, ih (hput ▸ hnext) (by omega), hput, ofLittleEndian_cons,
      Nat.pow_succ, Nat.mul_add, Nat.mul_assoc, Nat.mul_comm b.toNat, Nat.add_assoc]

/-- A word is the number that its bytes stand for, as far as it has room for them. -/
theorem toNat_word_eq (bytes : Bytes) : bytes.word.toNat = ofLittleEndian (bytes.take 8) := by
  have hfits : 0 + (bytes.take 8).length ≤ 8 := by
    rw [Nat.zero_add]
    exact List.length_take_le 8 bytes
  rw [word, toNat_foldl_putByte (by decide) hfits, Nat.pow_zero, Nat.one_mul]
  exact Nat.zero_add _

theorem toNat_word (h : bytes.length ≤ 8) : bytes.word.toNat = ofLittleEndian bytes := by
  rw [toNat_word_eq, List.take_of_length_le h]

/-- A number that fits in a word is read back from its shortest bytes. -/
theorem word_shortest (value : UInt64) : word (shortest value.toNat) = value := by
  have hlength : (shortest value.toNat).length ≤ 8 :=
    length_shortest_le (by decide) value.toNat_lt
  apply UInt64.toNat_inj.mp
  rw [toNat_word hlength, ofLittleEndian_shortest]

theorem ofLittleEndian_littleEndian (width n : Nat) :
    ofLittleEndian (littleEndian width n) = n % 256 ^ width := by
  induction width generalizing n with
  | zero => rw [Nat.pow_zero, Nat.mod_one]; rfl
  | succ width ih =>
    have hlow : (UInt8.ofNat n).toNat = n % 256 := UInt8.toNat_ofNat'
    rw [littleEndian, ofLittleEndian_cons, ih, hlow, Nat.pow_succ', Nat.mod_mul]

/-- Four bytes are half a word. -/
theorem toNat_word32 (h : bytes.length = 4) :
    bytes.word.toUInt32.toNat = ofLittleEndian bytes := by
  have hlt := ofLittleEndian_lt bytes
  rw [h] at hlt
  rw [UInt64.toNat_toUInt32, toNat_word (by omega)]
  omega

theorem littleEndian_word64 (h : bytes.length = 8) : littleEndian 8 bytes.word.toNat = bytes := by
  rw [toNat_word (by omega), ← h, littleEndian_ofLittleEndian]

theorem littleEndian_word32 (h : bytes.length = 4) :
    littleEndian 4 bytes.word.toUInt32.toNat = bytes := by
  rw [toNat_word32 h, ← h, littleEndian_ofLittleEndian]

theorem word_littleEndian64 (value : UInt64) : word (littleEndian 8 value.toNat) = value := by
  apply UInt64.toNat_inj.mp
  have := value.toNat_lt
  rw [toNat_word (by simp), ofLittleEndian_littleEndian]
  omega

theorem word_littleEndian32 (value : UInt32) :
    (word (littleEndian 4 value.toNat)).toUInt32 = value := by
  apply UInt32.toNat_inj.mp
  have := value.toNat_lt
  rw [UInt64.toNat_toUInt32, toNat_word (by simp), ofLittleEndian_littleEndian]
  omega

end Bytes

namespace Scalar

theorem bytes_varint (value : UInt64) : (varint value).bytes = Bytes.shortest value.toNat :=
  Bytes.ofWord_eq_shortest value

/-- The bytes that a policy receives make up the number. -/
theorem word_bytes (value : Scalar) : value.bytes.word = value.word := by
  cases value with
  | varint word => rw [bytes_varint, Bytes.word_shortest, Scalar.word]
  | fixed64 word => exact Bytes.word_littleEndian64 word
  | fixed32 word =>
    apply UInt64.toNat_inj.mp
    have hlt := word.toNat_lt
    rw [bytes, Bytes.toNat_word (by simp), Bytes.ofLittleEndian_littleEndian, Scalar.word,
      UInt32.toNat_toUInt64]
    omega

end Scalar
end FieldSieve
