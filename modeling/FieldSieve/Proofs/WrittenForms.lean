import FieldSieve.Key
import FieldSieve.Proofs.WordBytes

/-!
# Numbers as they stand in a buffer

The bytes of a number in a buffer are a row of groups of which exactly the last one is marked as the
last (`Varint.IsForm`).  A read succeeds exactly when such a form comes next, and what stands behind
the form has no say in it (`Cursor.readVarint_eq_ok_iff`, `Cursor.readKey_eq_ok_iff`).

A number has many forms.  The one that is written is a form of its number
(`Varint.ofGroups_encode`), and no other is shorter (`Varint.IsForm.length_encode_le`): a row of `k`
groups adds up to less than `128 ^ k`, and a number below `128 ^ k` is written in at most `k` groups.
-/
namespace FieldSieve

/-- The cursor at an offset of a buffer. -/
def Bytes.cursorAt (bytes : Bytes) (offset : Nat) : Cursor where
  position := offset
  remaining := (bytes.drop offset).length
  unread := bytes.drop offset
  unread_length := rfl

/-- The second cursor lies behind `bytes`, and `bytes` come next at the first. -/
structure Cursor.Passes (c : Cursor) (bytes : Bytes) (d : Cursor) : Prop where
  unread : c.unread = bytes ++ d.unread
  position : d.position = c.position + bytes.length

namespace Cursor

variable {c d e : Cursor} {n : Nat} {bytes more rest : Bytes}

theorem passes_advance (h : n ≤ c.remaining) : c.Passes (c.unread.take n) (c.advance n h) where
  unread := (List.take_append_drop n c.unread).symm
  position := by
    rw [position_advance, List.length_take, c.unread_length, Nat.min_eq_left h]

theorem exists_passes_of_le (h : n ≤ c.remaining) :
    ∃ bytes d, c.Passes bytes d ∧ bytes.length = n := by
  refine ⟨c.unread.take n, c.advance n h, passes_advance h, ?_⟩
  rw [List.length_take, c.unread_length, Nat.min_eq_left h]

theorem exists_passes (h : c.unread = bytes ++ rest) :
    ∃ d, c.Passes bytes d ∧ d.unread = rest := by
  have hle : bytes.length ≤ c.remaining := by
    rw [← c.unread_length, h, List.length_append]
    exact Nat.le_add_right ..
  refine ⟨c.advance bytes.length hle, ?_, ?_⟩
  · have hp := passes_advance hle
    rwa [h, List.take_left] at hp
  · rw [unread_advance, h, List.drop_left]

namespace Passes

theorem refl (c : Cursor) : c.Passes [] c := ⟨rfl, rfl⟩

theorem trans (hd : c.Passes bytes d) (he : d.Passes more e) : c.Passes (bytes ++ more) e where
  unread := by rw [hd.unread, he.unread, List.append_assoc]
  position := by rw [he.position, hd.position, List.length_append, Nat.add_assoc]

/-- What was passed determines where the cursor is. -/
theorem unique (hd : c.Passes bytes d) (he : c.Passes bytes e) : d = e := by
  apply Cursor.ext
  · rw [hd.position, he.position]
  · exact List.append_cancel_left (hd.unread.symm.trans he.unread)

theorem remaining_eq (h : c.Passes bytes d) : c.remaining = bytes.length + d.remaining := by
  rw [← c.unread_length, ← d.unread_length, h.unread, List.length_append]

theorem position_le (h : c.Passes bytes d) : c.position ≤ d.position := by
  rw [h.position]
  exact Nat.le_add_right ..

theorem position_lt (h : c.Passes bytes d) (hne : bytes ≠ []) : c.position < d.position := by
  rw [h.position]
  exact Nat.lt_add_of_pos_right (List.length_pos_iff.mpr hne)

theorem size_eq (h : c.Passes bytes d) : d.size = c.size := by
  rw [size, size, h.remaining_eq, h.position, Nat.add_assoc]

theorem eq_advance (h : c.Passes bytes d) : ∃ fits, d = c.advance bytes.length fits := by
  have fits : bytes.length ≤ c.remaining := by rw [h.remaining_eq]; exact Nat.le_add_right ..
  refine ⟨fits, h.unique ?_⟩
  have hp := passes_advance fits
  rwa [h.unread, List.take_left] at hp

/-- A row that was passed was passed piece by piece. -/
theorem split (h : c.Passes (bytes ++ more) e) : ∃ d, c.Passes bytes d ∧ d.Passes more e := by
  obtain ⟨d, hd, hrest⟩ := exists_passes (h.unread.trans (List.append_assoc ..))
  refine ⟨d, hd, hrest, ?_⟩
  rw [h.position, hd.position, List.length_append, Nat.add_assoc]

end Passes

/-- A row that comes next at an offset is passed on the way to the offset behind it. -/
theorem passes_cursorAt {buffer : Bytes} {offset : Nat} (h : buffer.drop offset = bytes ++ rest) :
    (buffer.cursorAt offset).Passes bytes (buffer.cursorAt (offset + bytes.length)) where
  unread := by
    show buffer.drop offset = bytes ++ buffer.drop (offset + bytes.length)
    rw [← List.drop_drop, h, List.drop_left]
  position := rfl

/-- Bytes inside a buffer are passed on the way to what stands behind them. -/
theorem passes_middle (before middle rest : Bytes) :
    (Bytes.cursorAt (before ++ (middle ++ rest)) before.length).Passes middle
      (Bytes.cursorAt (before ++ (middle ++ rest)) (before.length + middle.length)) :=
  passes_cursorAt (List.drop_left : _ = middle ++ rest)

theorem unread_behind (before middle rest : Bytes) :
    (Bytes.cursorAt (before ++ (middle ++ rest)) (before.length + middle.length)).unread = rest :=
  List.append_cancel_left ((passes_middle before middle rest).unread.symm.trans List.drop_left)

theorem readBytes_eq_ok_iff :
    readBytes n c = .ok bytes d ↔ c.Passes bytes d ∧ bytes.length = n := by
  constructor
  · intro h
    by_cases hn : n ≤ c.remaining
    · rw [readBytes_of_le hn] at h
      cases h
      refine ⟨passes_advance hn, ?_⟩
      rw [List.length_take, c.unread_length, Nat.min_eq_left hn]
    · rw [readBytes_of_lt (by omega)] at h
      cases h
  · rintro ⟨h, rfl⟩
    obtain ⟨fits, rfl⟩ := h.eq_advance
    rw [readBytes_of_le fits, h.unread, List.take_left]

end Cursor

namespace Varint

/-- A row of groups of which the last one, and no other, is marked as the last. -/
def IsForm (bytes : Bytes) : Prop :=
  ∃ init last, bytes = init ++ [last] ∧ (∀ b ∈ init, continues b = true) ∧ continues last = false

/-- The groups up to the first one that is marked as the last. -/
def firstForm (bytes : Bytes) : Bytes :=
  bytes.take ((bytes.takeWhile continues).length + 1)

variable {form bytes rest : Bytes} {n m k : Nat}

theorem IsForm.ne_nil (h : IsForm form) : form ≠ [] := by
  obtain ⟨init, last, rfl, -⟩ := h
  simp

/-- A form ends where the first row of groups ends, whatever follows it. -/
theorem IsForm.takeWhile_append (h : IsForm form) (rest : Bytes) :
    ((form ++ rest).takeWhile continues).length + 1 = form.length := by
  obtain ⟨init, last, rfl, hinit, hlast⟩ := h
  rw [List.append_assoc, List.takeWhile_append_of_pos hinit]
  simp [hlast]

theorem IsForm.firstForm_append (h : IsForm form) (rest : Bytes) :
    firstForm (form ++ rest) = form := by
  rw [firstForm, h.takeWhile_append, List.take_left]

/-- A row of groups has no last one, or starts with a form. -/
theorem continues_or_exists_isForm (bytes : Bytes) : (∀ b ∈ bytes, continues b = true) ∨
    ∃ form rest, bytes = form ++ rest ∧ IsForm form := by
  induction bytes with
  | nil => exact .inl nofun
  | cons b rest ih =>
    by_cases hb : continues b = true
    · rcases ih with hall | ⟨_, behind, rfl, init, last, rfl, hinit, hlast⟩
      · exact .inl (List.forall_mem_cons.mpr ⟨hb, hall⟩)
      · exact .inr ⟨b :: (init ++ [last]), behind, rfl, b :: init, last, rfl,
          List.forall_mem_cons.mpr ⟨hb, hinit⟩, hlast⟩
    · exact .inr ⟨[b], rest, rfl, [], b, rfl, nofun, by simpa using hb⟩

/-- The number that the groups of a row add up to, without a bound. -/
def total (bytes : Bytes) : Nat :=
  bytes.foldr (fun b n => b.toNat % 128 + 128 * n) 0

@[simp] theorem total_nil : total [] = 0 := rfl

@[simp] theorem total_cons {b : UInt8} : total (b :: bytes) = b.toNat % 128 + 128 * total bytes :=
  rfl

theorem total_lt (bytes : Bytes) : total bytes < 128 ^ bytes.length := by
  induction bytes with
  | nil => simp
  | cons b rest ih =>
    rw [total_cons, List.length_cons, Nat.pow_succ]
    omega

/-- A sum in 64-bit words is the sum without a bound, cut to 64 bits. -/
theorem toNat_ofGroups (bytes : Bytes) : (ofGroups bytes).toNat = total bytes % 2 ^ 64 := by
  induction bytes with
  | nil => rfl
  | cons b rest ih =>
    have hlow : ((b &&& 0x7f).toUInt64).toNat = b.toNat % 128 := by
      rw [UInt8.toNat_toUInt64, UInt8.toNat_and]
      exact Nat.and_two_pow_sub_one_eq_mod b.toNat 7
    rw [show ofGroups (b :: rest) = (b &&& 0x7f).toUInt64 + 128 * ofGroups rest from rfl,
      UInt64.toNat_add, UInt64.toNat_mul, hlow, ih, total_cons]
    simp only [UInt64.reduceToNat]
    omega

theorem total_concat (bytes : Bytes) (b : UInt8) :
    total (bytes ++ [b]) = total bytes + b.toNat % 128 * 128 ^ bytes.length := by
  induction bytes with
  | nil => simp
  | cons first rest ih =>
    rw [List.cons_append, total_cons, total_cons, ih, List.length_cons, Nat.pow_succ', Nat.mul_add,
      Nat.add_assoc, Nat.mul_left_comm]

namespace Tally

/-- The tally is that of these groups, and bits beyond the sixty-fourth are dropped. -/
structure Of (tally : Tally) (bytes : Bytes) : Prop where
  value : tally.value.toNat = total bytes % 2 ^ 64
  shift : tally.shift = min (7 * bytes.length) lastShift
  size : tally.size = bytes.length

variable {tally : Tally}

theorem of_nil : Of {} [] := ⟨rfl, rfl, rfl⟩

/-- A group that has its place in the word adds to it, since all bits from there on are clear. -/
theorem toNat_or_shiftLeft {value : UInt64} {shift : Nat} (b : UInt8) (hshift : shift < 64)
    (hclear : value.toNat < 2 ^ shift) :
    (value ||| (b &&& 0x7f).toUInt64 <<< UInt64.ofNat shift).toNat =
      (value.toNat + b.toNat % 128 * 2 ^ shift) % 2 ^ 64 := by
  have hlow : (b &&& 0x7f).toNat = b.toNat % 128 := by
    rw [UInt8.toNat_and]
    exact Nat.and_two_pow_sub_one_eq_mod b.toNat 7
  rw [Bytes.toNat_or_shiftLeft hshift hclear, UInt8.toNat_toUInt64, hlow]

/-- What one more group does to the tally. -/
theorem Of.add (h : tally.Of bytes) (b : UInt8) : (tally.add b).Of (bytes ++ [b]) where
  value := by
    have hpow : 128 ^ bytes.length = 2 ^ (7 * bytes.length) := by rw [Nat.pow_mul]
    rw [total_concat, hpow]
    by_cases hplace : tally.shift < 64
    · have hshift : tally.shift = 7 * bytes.length := by
        have := h.shift
        rw [lastShift] at this
        omega
      have hlow : total bytes < 2 ^ tally.shift := by
        rw [hshift, ← hpow]
        exact total_lt bytes
      have hvalue : tally.value.toNat = total bytes := by
        rw [h.value, Nat.mod_eq_of_lt]
        exact Nat.lt_trans hlow (Nat.pow_lt_pow_right (by decide) hplace)
      rw [← hvalue] at hlow
      rw [Tally.add, if_pos hplace, toNat_or_shiftLeft b hplace hlow, hvalue, hshift]
    · -- The group weighs a multiple of the whole word.
      have hbeyond : 64 ≤ 7 * bytes.length := by
        have := h.shift
        omega
      have hweight : b.toNat % 128 * 2 ^ (7 * bytes.length) =
          2 ^ 64 * (b.toNat % 128 * 2 ^ (7 * bytes.length - 64)) := by
        rw [Nat.mul_left_comm, ← Nat.pow_add, Nat.add_sub_cancel' hbeyond]
      rw [Tally.add, if_neg hplace, hweight, Nat.add_mul_mod_self_left]
      exact h.value
  shift := by
    rw [Tally.add, List.length_append, List.length_singleton]
    show min (tally.shift + 7) lastShift = _
    rw [h.shift]
    omega
  size := by
    rw [Tally.add, List.length_append, List.length_singleton]
    exact congrArg (· + 1) h.size

theorem Of.number_eq (h : tally.Of bytes) : tally.number = ⟨ofGroups bytes, bytes.length⟩ := by
  have hvalue : tally.value = ofGroups bytes := by
    apply UInt64.toNat_inj.mp
    rw [h.value, toNat_ofGroups]
  rw [number, hvalue, h.size]

end Tally

theorem total_groups (n : Nat) : total (groups n) = n := by
  fun_induction groups n with
  | case1 n h => simp; omega
  | case2 n h ih =>
    rw [total_cons, ih, UInt8.toNat_ofNat']
    omega

theorem isForm_groups (n : Nat) : IsForm (groups n) := by
  fun_induction groups n with
  | case1 n h =>
    refine ⟨[], UInt8.ofNat n, rfl, by simp, ?_⟩
    simp [continues, UInt8.le_iff_toNat_le]
    omega
  | case2 n h ih =>
    obtain ⟨init, last, hform, hinit, hlast⟩ := ih
    refine ⟨UInt8.ofNat (n % 128 + 128) :: init, last, by rw [hform]; rfl, ?_, hlast⟩
    intro b hb
    rcases List.mem_cons.mp hb with rfl | hb
    · simp [continues, UInt8.le_iff_toNat_le]
      omega
    · exact hinit b hb

theorem isForm_encode (value : UInt64) : IsForm (encode value) :=
  isForm_groups _

@[simp] theorem ofGroups_encode (value : UInt64) : ofGroups (encode value) = value := by
  apply UInt64.toNat_inj.mp
  rw [toNat_ofGroups, encode, total_groups, Nat.mod_eq_of_lt value.toNat_lt]

/-- A number below `128 ^ k` needs at most `k` groups. -/
theorem length_groups_le (hk : 0 < k) (h : n < 128 ^ k) : (groups n).length ≤ k := by
  induction k generalizing n with
  | zero => omega
  | succ k ih =>
    by_cases hn : n < 128
    · rw [groups_of_lt hn]; simp
    · rw [groups_of_le (by omega), List.length_cons]
      rw [Nat.pow_succ] at h
      have hk : 0 < k := by
        rcases Nat.eq_zero_or_pos k with rfl | hk
        · omega
        · exact hk
      exact Nat.succ_le_succ (ih hk (Nat.div_lt_of_lt_mul (by omega)))

/-- A smaller number is not longer. -/
theorem length_groups_mono (h : m ≤ n) : (groups m).length ≤ (groups n).length := by
  apply length_groups_le (List.length_pos_iff.mpr (groups_ne_nil n))
  have := total_lt (groups n)
  rw [total_groups] at this
  omega

/-- No form of a number is shorter than the one that is written. -/
theorem IsForm.length_encode_le (h : IsForm form) :
    (encode (ofGroups form)).length ≤ form.length := by
  apply length_groups_le (List.length_pos_iff.mpr h.ne_nil)
  rw [toNat_ofGroups]
  exact Nat.lt_of_le_of_lt (Nat.mod_le ..) (total_lt form)

end Varint

namespace Cursor

variable {c d : Cursor} {v : Varint} {key : Key} {tally : Varint.Tally} {unread : Bytes}

theorem readByte_eq_ok_iff {b : UInt8} : readByte c = .ok b d ↔ c.Passes [b] d := by
  rw [readByte_eq]
  constructor
  · intro h
    split at h
    · next bytes e hread =>
      obtain ⟨hp, hone⟩ := readBytes_eq_ok_iff.mp hread
      obtain ⟨first, rfl⟩ := List.length_eq_one_iff.mp hone
      cases h
      exact hp
    · cases h
  · intro h
    rw [readBytes_eq_ok_iff.mpr ⟨h, List.length_singleton⟩]
    rfl

/-- Behind the groups of a tally the loop goes on to the last group of a form. -/
theorem readGroups_of_form {before init : Bytes} {last : UInt8} (htally : tally.Of before)
    (hinit : ∀ b ∈ init, Varint.continues b = true) (hlast : Varint.continues last = false)
    (h : c.Passes (init ++ [last]) d) : readGroups tally c c.unread rfl =
      .ok ⟨Varint.ofGroups (before ++ (init ++ [last])), (before ++ (init ++ [last])).length⟩ d := by
  induction init generalizing tally before c with
  | nil =>
    rw [readGroups_eq, readByte_eq_ok_iff.mpr h]
    simp only [hlast, Bool.false_eq_true, ↓reduceIte]
    rw [(htally.add last).number_eq, List.nil_append]
  | cons b init ih =>
    obtain ⟨next, hb, hrest⟩ :=
      Passes.split (show c.Passes ([b] ++ (init ++ [last])) d from h)
    rw [readGroups_eq, readByte_eq_ok_iff.mpr hb]
    simp only [hinit b List.mem_cons_self, ↓reduceIte]
    rw [ih (htally.add b) (fun b hb => hinit b (List.mem_cons_of_mem _ hb)) hrest,
      List.append_assoc, List.singleton_append, List.cons_append]

/-- Without a last group the loop comes to the end of the buffer. -/
theorem readGroups_of_continues (h : c.unread = unread)
    (hall : ∀ b ∈ unread, Varint.continues b = true) :
    readGroups tally c unread h = .error .endOfStream (c.advance c.remaining (Nat.le_refl _)) := by
  induction unread generalizing tally c with
  | nil =>
    have hnone : c.remaining = 0 := by simp [← c.unread_length, h]
    rw [readGroups]
    congr 1
    apply Cursor.ext <;> simp [hnone]
  | cons b rest ih =>
    have hsome : 0 < c.remaining := by simp [← c.unread_length, h]
    rw [readGroups]
    simp only [hall b List.mem_cons_self, ↓reduceIte]
    rw [ih _ (fun b hb => hall b (List.mem_cons_of_mem _ hb))]
    congr 1
    apply Cursor.ext
    · simp only [position_advance, remaining_advance]
      omega
    · simp only [unread_advance, remaining_advance, List.drop_drop]
      congr 1
      omega

/-- What is read is the form that comes next. -/
theorem readVarint_eq_ok_iff :
    readVarint c = .ok v d ↔
      ∃ form, Varint.IsForm form ∧ c.Passes form d ∧ v = ⟨Varint.ofGroups form, form.length⟩ := by
  have hread : ∀ {form e}, Varint.IsForm form → c.Passes form e →
      readVarint c = .ok ⟨Varint.ofGroups form, form.length⟩ e := by
    rintro form e ⟨init, last, rfl, hinit, hlast⟩ hp
    exact readGroups_of_form Varint.Tally.of_nil hinit hlast hp
  constructor
  · intro h
    rcases Varint.continues_or_exists_isForm c.unread with hall | ⟨form, rest, hunread, hform⟩
    · cases h.symm.trans (readGroups_of_continues rfl hall)
    · obtain ⟨e, hp, -⟩ := exists_passes hunread
      cases h.symm.trans (hread hform hp)
      exact ⟨form, hform, hp, rfl⟩
  · rintro ⟨form, hform, hp, rfl⟩
    exact hread hform hp

/-- A read fails for want of a last group, and then has come to the end of the buffer. -/
theorem readVarint_eq_error_iff {fault : Fault} :
    readVarint c = .error fault d ↔ (∀ b ∈ c.unread, Varint.continues b = true) ∧
      fault = .endOfStream ∧ d = c.advance c.remaining (Nat.le_refl _) := by
  constructor
  · intro h
    rcases Varint.continues_or_exists_isForm c.unread with hall | ⟨form, rest, hunread, hform⟩
    · cases h.symm.trans (readGroups_of_continues rfl hall)
      exact ⟨hall, rfl, rfl⟩
    · obtain ⟨e, hp, -⟩ := exists_passes hunread
      cases h.symm.trans (readVarint_eq_ok_iff.mpr ⟨form, hform, hp, rfl⟩)
  · rintro ⟨hall, rfl, rfl⟩
    exact readGroups_of_continues rfl hall

theorem readKey_eq_ok_iff :
    readKey c = .ok key d ↔
      ∃ form, Varint.IsForm form ∧ c.Passes form d ∧
        Key.unpack (Varint.ofGroups form) = .ok key := by
  constructor
  · intro h
    obtain ⟨word, hword, hkey⟩ := readVarint_of_readKey h
    obtain ⟨form, hform, hp, rfl⟩ := readVarint_eq_ok_iff.mp hword
    exact ⟨form, hform, hp, hkey⟩
  · rintro ⟨form, hform, hp, hkey⟩
    have hword := readVarint_eq_ok_iff.mpr ⟨form, hform, hp, rfl⟩
    simp only [readKey, hword, hkey]

/-- No form is empty, so a number that was read takes up bytes, -/
theorem position_lt_of_readVarint (h : readVarint c = .ok v d) : c.position < d.position := by
  obtain ⟨form, hform, hpasses, -⟩ := readVarint_eq_ok_iff.mp h
  exact hpasses.position_lt hform.ne_nil

/-- and so does a key. -/
theorem position_lt_of_readKey (h : readKey c = .ok key d) : c.position < d.position := by
  obtain ⟨form, hform, hpasses, -⟩ := readKey_eq_ok_iff.mp h
  exact hpasses.position_lt hform.ne_nil

end Cursor
end FieldSieve
