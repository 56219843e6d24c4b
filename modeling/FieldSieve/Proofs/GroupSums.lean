import FieldSieve.Proofs.WrittenForms
import Mathlib.Algebra.BigOperators.Fin

/-!
# The number that a row of groups stands for

A number is read group by group, and the place of a group is kept only as far as 32 bits reach.
Neither this nor the bits that are dropped shows in the result.  As long as a group has its place in
the word, all bits from there on are clear, so that putting it in is an addition; once it has none,
it weighs a multiple of the whole word (`Varint.Tally.Of.add`).  So what is read is the sum of the
groups, cut to 64 bits, however many of them there are.
-/
namespace FieldSieve

namespace Varint

theorem continues_eq_true_iff {b : UInt8} : continues b = true ↔ 0x80 ≤ b := by
  simp [continues]

theorem continues_eq_false_iff {b : UInt8} : continues b = false ↔ b < 0x80 := by
  simp [continues]

/-- Each group weighs 128 times the one before it. -/
theorem total_eq_sum (bytes : Bytes) :
    total bytes = ∑ i : Fin bytes.length, bytes[i].toNat % 128 * 128 ^ (i : Nat) := by
  induction bytes with
  | nil => rfl
  | cons b rest ih =>
    rw [total_cons, ih, Finset.mul_sum]
    refine ((Fin.sum_univ_succ _).trans ?_).symm
    congr 1
    · simp
    · refine Finset.sum_congr rfl fun i _ => ?_
      show rest[i].toNat % 128 * 128 ^ (i + 1 : Nat) = _
      rw [Nat.pow_succ', Nat.mul_left_comm]

end Varint

/-- **A number is the sum of its groups.**  Start anywhere in a buffer.  If there is a byte with a
clear high bit from there on, then a read takes the bytes up to the first one, and gives how many
they are and the sum of their groups, cut to 64 bits.  Otherwise it fails, at the end of the
buffer. -/
theorem readVarint_eq_sum (bytes : Bytes) (start : Nat) (h : start ≤ bytes.length) :
    ((∃ b ∈ bytes.drop start, b < 0x80) →
      ∃ init last rest, bytes.drop start = init ++ [last] ++ rest ∧
        (∀ b ∈ init, 0x80 ≤ b) ∧ last < 0x80 ∧
        let form := init ++ [last]
        ∃ value, Cursor.readVarint (bytes.cursorAt start) =
            .ok ⟨value, form.length⟩ (bytes.cursorAt (start + form.length)) ∧
          value.toNat =
            (∑ i : Fin form.length, form[i].toNat % 128 * 128 ^ (i : Nat)) % 2 ^ 64) ∧
    ((∀ b ∈ bytes.drop start, 0x80 ≤ b) →
      Cursor.readVarint (bytes.cursorAt start) =
        .error .endOfStream (bytes.cursorAt bytes.length)) := by
  constructor
  · rintro ⟨b, hmem, hb⟩
    rcases Varint.continues_or_exists_isForm (bytes.drop start) with
      hall | ⟨_, rest, hrest, init, last, rfl, hinit, hlast⟩
    · cases (Varint.continues_eq_false_iff.mpr hb).symm.trans (hall b hmem)
    · refine ⟨init, last, rest, hrest,
        fun b hb => Varint.continues_eq_true_iff.mp (hinit b hb),
        Varint.continues_eq_false_iff.mp hlast, Varint.ofGroups (init ++ [last]), ?_, ?_⟩
      · exact Cursor.readVarint_eq_ok_iff.mpr
          ⟨_, ⟨init, last, rfl, hinit, hlast⟩, Cursor.passes_cursorAt hrest, rfl⟩
      · rw [Varint.toNat_ofGroups, Varint.total_eq_sum]
  · intro hall
    have hend : start + (bytes.cursorAt start).remaining = bytes.length := by
      show start + (bytes.drop start).length = bytes.length
      rw [List.length_drop]
      omega
    refine Cursor.readVarint_eq_error_iff.mpr
      ⟨fun b hb => Varint.continues_eq_true_iff.mpr (hall b hb), rfl, Cursor.ext hend.symm ?_⟩
    show bytes.drop bytes.length = (bytes.drop start).drop (bytes.cursorAt start).remaining
    rw [List.drop_drop, hend]

/-- Eleven groups behind another field's byte.  The eleventh has no place in the word, and the tenth
has one for its lowest bit only. -/
theorem readVarint_eq_sum_overlong :
    let bytes : Bytes := 0x08 :: (List.replicate 10 0xff ++ [0x01, 0x2a])
    1 ≤ bytes.length ∧ (∃ b ∈ bytes.drop 1, b < 0x80) ∧
      ∃ form : Bytes, form.length = 11 ∧
        Cursor.readVarint (bytes.cursorAt 1) =
          .ok ⟨0xffffffffffffffff, form.length⟩ (bytes.cursorAt (1 + form.length)) ∧
        0xffffffffffffffff =
          (∑ i : Fin form.length, form[i].toNat % 128 * 128 ^ (i : Nat)) % 2 ^ 64 := by
  intro bytes
  have hend : ∃ b ∈ bytes.drop 1, b < 0x80 := ⟨0x01, by decide, by decide⟩
  obtain ⟨init, last, rest, -, -, -, value, hread, hvalue⟩ :=
    (readVarint_eq_sum bytes 1 (by decide)).1 hend
  have hresult : Cursor.readVarint (bytes.cursorAt 1) =
      .ok ⟨0xffffffffffffffff, 11⟩ (bytes.cursorAt 12) := by cbv
  obtain ⟨⟨rfl, hlength⟩, -⟩ : (value = 0xffffffffffffffff ∧ (init ++ [last]).length = 11) ∧
      bytes.cursorAt (1 + (init ++ [last]).length) = bytes.cursorAt 12 := by
    simpa using hread.symm.trans hresult
  exact ⟨by decide, hend, init ++ [last], hlength, hread, hvalue⟩

end FieldSieve
