import FieldSieve.Proofs.WrittenForms
import Mathlib.Algebra.Order.Floor.Div
import Mathlib.Data.Nat.Size
import Mathlib.GroupTheory.GroupAction.Ring

/-!
# The shortest form of a number

Every seven bits of a number take a byte, and a number without bits takes one too
(`Varint.length_groups`).  What is written is read back, from whatever offset and whatever follows
(`readVarint_encode`), and it is the shortest of all forms of its number.

Forms of one length that add up to the same are the same form: which of their groups is the last is
settled by the length, and the groups are the digits of the sum (`Varint.IsForm.eq_of_total_eq`).
Up to nine groups a form adds up to the number itself.  From the tenth on bits are dropped, and a
number may have several forms of one length.
-/
namespace FieldSieve

namespace Varint

variable {form other : Bytes} {n : Nat}

/-- A byte is a group and a mark. -/
theorem eq_of_group_eq {b c : UInt8} (hmark : continues b = continues c)
    (hgroup : b.toNat % 128 = c.toNat % 128) : b = c := by
  have hb := b.toNat_lt
  have hc := c.toNat_lt
  have hhigh : 128 ≤ b.toNat ↔ 128 ≤ c.toNat := by
    simpa [continues, UInt8.le_iff_toNat_le] using hmark
  apply UInt8.toNat_inj.mp
  omega

theorem IsForm.eq_of_total_eq (h : IsForm form) (hother : IsForm other)
    (hlength : other.length = form.length) (htotal : total other = total form) : other = form := by
  obtain ⟨init, last, rfl, hinit, hlast⟩ := h
  obtain ⟨otherInit, otherLast, rfl, hotherInit, hotherLast⟩ := hother
  induction init generalizing otherInit with
  | nil =>
    obtain rfl : otherInit = [] := by simpa using hlength
    simp only [List.nil_append, total_cons, total_nil] at htotal
    rw [eq_of_group_eq (hotherLast.trans hlast.symm) (by omega)]
  | cons b init ih =>
    cases otherInit with
    | nil => simp at hlength
    | cons c otherInit =>
      rw [List.forall_mem_cons] at hinit hotherInit
      simp only [List.cons_append, total_cons] at htotal
      have hrest := ih hinit.2 otherInit (by simpa using hlength) (by omega) hotherInit.2
      have hfirst := eq_of_group_eq (hotherInit.1.trans hinit.1.symm) (by omega)
      rw [List.cons_append, List.cons_append, hrest, hfirst]

/-- Every seven bits take a byte, and no bits take one. -/
theorem length_groups (n : Nat) : (groups n).length = max 1 (n.size ⌈/⌉ 7) := by
  have hpow : ∀ k, 128 ^ k = 2 ^ (7 * k) := fun k => by rw [Nat.pow_mul]
  have hceil : ∀ k, n.size ⌈/⌉ 7 ≤ k ↔ n.size ≤ 7 * k := fun k => by
    rw [Nat.ceilDiv_eq_add_pred_div]
    omega
  apply Nat.le_antisymm
  · have hbits : n.size ≤ 7 * max 1 (n.size ⌈/⌉ 7) := (hceil _).mp (Nat.le_max_right ..)
    refine length_groups_le (Nat.lt_of_lt_of_le Nat.one_pos (Nat.le_max_left ..)) ?_
    rw [hpow]
    exact Nat.size_le.mp hbits
  · have hlt : n < 2 ^ (7 * (groups n).length) := by
      rw [← hpow]
      simpa [total_groups] using total_lt (groups n)
    exact Nat.max_le.mpr
      ⟨List.length_pos_iff.mpr (groups_ne_nil n), (hceil _).mpr (Nat.size_le.mpr hlt)⟩

/-- Up to nine groups nothing is dropped. -/
theorem toNat_ofGroups_of_length_lt (h : form.length < 10) :
    (ofGroups form).toNat = total form := by
  have hfits : 128 ^ form.length ≤ 2 ^ 64 :=
    calc 128 ^ form.length
        ≤ 128 ^ 9 := Nat.pow_le_pow_right (by decide) (Nat.le_of_lt_succ h)
      _ ≤ 2 ^ 64 := by decide
  rw [toNat_ofGroups, Nat.mod_eq_of_lt (Nat.lt_of_lt_of_le (total_lt form) hfits)]

/-- A form as short as the one that is written is that one, if nothing was dropped from it. -/
theorem IsForm.eq_encode (h : IsForm form)
    (hlength : form.length = (encode (ofGroups form)).length) (hshort : form.length < 10) :
    form = encode (ofGroups form) := by
  refine (isForm_encode _).eq_of_total_eq h hlength ?_
  rw [← toNat_ofGroups_of_length_lt hshort, encode, total_groups]

end Varint

/-- **What is written is read back, and it is the shortest form.**  A number that is written
anywhere in a buffer is read as that number.  It takes a byte for every seven bits, and at least
one, and the read stops where it ends.  Any other bytes that are read to their end as this number
are no fewer, and if they are as many, and fewer than ten, they are the same. -/
theorem readVarint_encode (value : UInt64) :
    (∀ before rest : Bytes,
      let buffer := before ++ (Varint.encode value ++ rest)
      let size := max 1 (value.toNat.size ⌈/⌉ 7)
      Cursor.readVarint (buffer.cursorAt before.length) =
          .ok ⟨value, size⟩ (buffer.cursorAt (before.length + size)) ∧
        (buffer.cursorAt (before.length + size)).unread = rest) ∧
    ∀ (form : Bytes) (size : Nat) (d : Cursor),
      Cursor.readVarint (.ofBytes form) = .ok ⟨value, size⟩ d → d.unread = [] →
        (Varint.encode value).length ≤ form.length ∧
        (form.length = (Varint.encode value).length → form.length < 10 →
          form = Varint.encode value) := by
  constructor
  · intro before rest buffer size
    have hsize : (Varint.encode value).length = size := Varint.length_groups value.toNat
    rw [← hsize]
    refine ⟨Cursor.readVarint_eq_ok_iff.mpr ⟨_, Varint.isForm_encode value,
      Cursor.passes_middle before _ rest, ?_⟩, Cursor.unread_behind before _ rest⟩
    rw [Varint.ofGroups_encode]
  · intro bytes size d hread hend
    obtain ⟨form, hform, hpasses, hvalue⟩ := Cursor.readVarint_eq_ok_iff.mp hread
    obtain rfl : bytes = form := by
      have hbytes := hpasses.unread
      rwa [hend, List.append_nil] at hbytes
    cases hvalue
    exact ⟨hform.length_encode_le, hform.eq_encode⟩

/-- The number 150 in three bytes, which is too many, and in two, which can be done in one way. -/
theorem readVarint_encode_padded :
    Cursor.readVarint (.ofBytes [0x96, 0x81, 0x00]) = .ok ⟨150, 3⟩ ⟨3, 0, [], rfl⟩ ∧
    (Varint.encode 150).length ≤ 3 ∧
    Cursor.readVarint (.ofBytes [0x96, 0x01]) = .ok ⟨150, 2⟩ ⟨2, 0, [], rfl⟩ ∧
    [0x96, 0x01] = Varint.encode 150 := by
  have hpadded : Cursor.readVarint (.ofBytes [0x96, 0x81, 0x00]) =
      .ok ⟨150, 3⟩ ⟨3, 0, [], rfl⟩ := by cbv
  have htight : Cursor.readVarint (.ofBytes [0x96, 0x01]) =
      .ok ⟨150, 2⟩ ⟨2, 0, [], rfl⟩ := by cbv
  obtain ⟨-, hshortest⟩ := readVarint_encode 150
  exact ⟨hpadded, (hshortest _ _ _ hpadded rfl).1, htight,
    (hshortest _ _ _ htight rfl).2 (by cbv) (by decide)⟩

/-- In ten bytes the highest number can be written in more than one way. -/
example : Cursor.readVarint (.ofBytes (List.replicate 9 0xff ++ [0x7f])) =
    .ok ⟨0xffffffffffffffff, 10⟩ ⟨10, 0, [], rfl⟩ := by cbv
example : Varint.encode 0xffffffffffffffff = List.replicate 9 0xff ++ [0x01] := by cbv

end FieldSieve
