/-!
# Byte strings

A buffer is the list of its bytes.  Reading moves along the list, so what is still unread is
always a tail of the buffer, and every statement about reading is a statement about taking and
dropping.

Numbers are stored least significant byte first: on a fixed width (`littleEndian`), or on as few
bytes as hold the number, but at least one.  How few they are is a matter of dividing for numbers of
any size (`shortest`), and of counting the leading zeros of a word (`ofWord`).

Read back, a byte string is the number that its bytes add up to (`ofLittleEndian`).  A word is put
together from its bytes one by one, each in its own eight bits, and bytes after the eighth do not
count (`word`).
-/
namespace FieldSieve

/-- A byte string. -/
abbrev Bytes := List UInt8

namespace Bytes

/-- The `width` low bytes of a number, least significant first. -/
def littleEndian : Nat → Nat → Bytes
  | 0, _ => []
  | width + 1, n => UInt8.ofNat n :: littleEndian width (n / 256)

/-- The bytes of a number, least significant first, up to its last byte that is not zero. -/
def shortest (n : Nat) : Bytes :=
  if n < 256 then [UInt8.ofNat n] else UInt8.ofNat n :: shortest (n / 256)

/-- The number that a byte string stands for, least significant byte first. -/
def ofLittleEndian (bytes : Bytes) : Nat :=
  bytes.foldr (fun b n => b.toNat + 256 * n) 0

/-- How many bits a word has up to the highest one that is set. -/
def bitLength (word : UInt64) : Nat :=
  64 - word.toBitVec.clz.toNat

/-- The low bytes of a word, as many as its bits take up but at least one. -/
def ofWord (word : UInt64) : Bytes :=
  (littleEndian 8 word.toNat).take (max 1 ((bitLength word + 7) / 8))

/-- The word with a byte put in at a place. -/
def putByte (word : UInt64) : UInt8 × Nat → UInt64
  | (b, place) => word ||| b.toUInt64 <<< UInt64.ofNat (8 * place)

/-- The word that the first eight bytes make up. -/
def word (bytes : Bytes) : UInt64 :=
  (bytes.take 8).zipIdx.foldl putByte 0

variable {bytes : Bytes} {b : UInt8} {k n width : Nat}

@[simp] theorem ofLittleEndian_nil : ofLittleEndian [] = 0 := rfl

@[simp] theorem ofLittleEndian_cons :
    ofLittleEndian (b :: bytes) = b.toNat + 256 * ofLittleEndian bytes := rfl

@[simp] theorem length_littleEndian (width n : Nat) : (littleEndian width n).length = width := by
  induction width generalizing n with
  | zero => rfl
  | succ width ih => rw [littleEndian, List.length_cons, ih]

/-- As many bytes as there are determine the number, and the number determines them. -/
theorem littleEndian_ofLittleEndian (bytes : Bytes) :
    littleEndian bytes.length (ofLittleEndian bytes) = bytes := by
  induction bytes with
  | nil => rfl
  | cons b rest ih =>
    have hb := b.toNat_lt
    have hlow : UInt8.ofNat (b.toNat + 256 * ofLittleEndian rest) = b := by
      apply UInt8.toNat_inj.mp
      rw [UInt8.toNat_ofNat']
      omega
    rw [ofLittleEndian_cons, List.length_cons, littleEndian, hlow]
    congr
    rw [show (b.toNat + 256 * ofLittleEndian rest) / 256 = ofLittleEndian rest by omega, ih]

theorem take_littleEndian (h : k ≤ width) : (littleEndian width n).take k = littleEndian k n := by
  induction k generalizing width n with
  | zero => rfl
  | succ k ih =>
    obtain ⟨width, rfl⟩ : ∃ more, width = more + 1 := ⟨width - 1, by omega⟩
    rw [littleEndian, List.take_succ_cons, ih (Nat.le_of_succ_le_succ h), littleEndian]

theorem shortest_ne_nil (n : Nat) : shortest n ≠ [] := by
  rw [shortest]; split <;> simp

/-- The shortest bytes still hold the whole number. -/
theorem ofLittleEndian_shortest (n : Nat) : ofLittleEndian (shortest n) = n := by
  fun_induction shortest n with
  | case1 n h => simp [Nat.mod_eq_of_lt h]
  | case2 n h ih =>
    rw [ofLittleEndian_cons, ih, UInt8.toNat_ofNat']
    exact Nat.mod_add_div n 256

theorem littleEndian_length_shortest (n : Nat) :
    littleEndian (shortest n).length n = shortest n := by
  have h := littleEndian_ofLittleEndian (shortest n)
  rwa [ofLittleEndian_shortest] at h

end Bytes
end FieldSieve
