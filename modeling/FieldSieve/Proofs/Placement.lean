import FieldSieve.Proofs.Transport

/-!
# A scan inside a longer buffer

A buffer may stand in a longer one, with bytes in front of it and bytes behind it, and a scan may
come there after it has read other fields.  `Surroundings` says what stands around the buffer and
what the scan has done before.  Inside them a walk reads its fields as it does alone: positions and
ends are further on by the bytes in front, and the count and the journal go on from what was there
(`Walk.placed`, `Walk.placement`).

One fault may go away: where bytes stand behind, a field that the end of the buffer cut off may be
whole.  No other fault looks at what is not there.
-/
namespace FieldSieve

/-- What stands around a buffer in a longer one, and what a scan has done before it comes there. -/
structure Surroundings where
  /-- How many bytes stand in front. -/
  before : Nat
  /-- The bytes that stand behind. -/
  behind : Bytes
  /-- How many keys were read before. -/
  visited : Nat
  /-- What happened before. -/
  journal : Array Event

namespace Surroundings

/-- The faults that the bytes behind may mend. -/
def Excuses (s : Surroundings) (fault : Fault) : Prop :=
  fault = .endOfStream ∧ s.behind ≠ []

theorem behind_eq_nil {s : Surroundings} (h : ¬ s.Excuses .endOfStream) : s.behind = [] := by
  cases hbehind : s.behind with
  | nil => rfl
  | cons b rest => exact absurd ⟨rfl, by simp [hbehind]⟩ h

end Surroundings

namespace Cursor

/-- The cursor at the same byte of a longer buffer. -/
def placed (s : Surroundings) (c : Cursor) : Cursor where
  position := c.position + s.before
  remaining := c.remaining + s.behind.length
  unread := c.unread ++ s.behind
  unread_length := by rw [List.length_append, c.unread_length]

variable {s : Surroundings} {c d : Cursor} {n : Nat} {bytes : Bytes} {fault : Fault}

theorem Passes.placed (h : c.Passes bytes d) : (c.placed s).Passes bytes (d.placed s) where
  unread := by
    show c.unread ++ s.behind = bytes ++ (d.unread ++ s.behind)
    rw [h.unread, List.append_assoc]
  position := by
    show d.position + s.before = c.position + s.before + bytes.length
    rw [h.position]
    omega

theorem atEnd_placed (h : c.atEnd = false) : (c.placed s).atEnd = false := by
  rw [← Bool.not_eq_true, atEnd_iff] at h ⊢
  intro hnone
  exact h (List.append_eq_nil_iff.mp hnone).1

theorem atEnd_placed_of_nil (hbehind : s.behind = []) (h : c.atEnd = true) :
    (c.placed s).atEnd = true := by
  rw [atEnd_iff] at h ⊢
  show c.unread ++ s.behind = []
  rw [h, hbehind, List.append_nil]

theorem remaining_placed (h : ¬ s.Excuses .endOfStream) :
    (c.placed s).remaining = c.remaining := by
  show c.remaining + s.behind.length = c.remaining
  rw [Surroundings.behind_eq_nil h]
  rfl

theorem carries_readVarint (s : Surroundings) :
    Carries (placed s) s.Excuses readVarint readVarint where
  ok := by
    intro c v d h
    obtain ⟨form, hform, hpasses, hv⟩ := readVarint_eq_ok_iff.mp h
    exact readVarint_eq_ok_iff.mpr ⟨form, hform, hpasses.placed, hv⟩
  error := by
    intro c fault d h hfault
    obtain ⟨hall, rfl, rfl⟩ := readVarint_eq_error_iff.mp h
    have hunread : (c.placed s).unread = c.unread := by
      show c.unread ++ s.behind = c.unread
      rw [Surroundings.behind_eq_nil hfault, List.append_nil]
    -- Both cursors come to the end of their buffers.
    refine readVarint_eq_error_iff.mpr ⟨hunread ▸ hall, rfl, Cursor.ext ?_ ?_⟩
    · show c.position + c.remaining + s.before = c.position + s.before + (c.placed s).remaining
      rw [remaining_placed hfault]
      omega
    · show c.unread.drop c.remaining ++ s.behind =
        (c.placed s).unread.drop (c.placed s).remaining
      rw [hunread, remaining_placed hfault, Surroundings.behind_eq_nil hfault, List.append_nil]

theorem carries_readKey (s : Surroundings) : Carries (placed s) s.Excuses readKey readKey where
  ok := by
    intro c key d h
    obtain ⟨word, hword, hkey⟩ := readVarint_of_readKey h
    simp only [readKey, (carries_readVarint s).ok hword, hkey]
  error := by
    intro c fault d h hfault
    cases hword : readVarint c with
    | ok word e =>
      cases hkey : Key.unpack word.value with
      | ok key =>
        simp only [readKey, hword, hkey] at h
        cases h
      | error refused =>
        simp only [readKey, hword, hkey] at h
        cases h
        simp only [readKey, (carries_readVarint s).ok hword, hkey]
    | error cut e =>
      simp only [readKey, hword] at h
      cases h
      simp only [readKey, (carries_readVarint s).error hword hfault]

/-- A read that only needs a number of bytes finds them in the longer buffer too, and misses them
there if nothing stands behind. -/
theorem carries_of_remaining {α : Type} {reader : Reader α}
    (hlt : ∀ c, c.remaining < n → reader c = .error .endOfStream c)
    (hle : ∀ c, n ≤ c.remaining →
      ∃ a d, reader c = .ok a d ∧ reader (c.placed s) = .ok a (d.placed s)) :
    Carries (placed s) s.Excuses reader reader where
  ok := by
    intro c a d h
    by_cases hn : n ≤ c.remaining
    · obtain ⟨b, e, hshort, hlong⟩ := hle c hn
      cases hshort.symm.trans h
      exact hlong
    · cases (hlt c (by omega)).symm.trans h
  error := by
    intro c fault d h hfault
    by_cases hn : n ≤ c.remaining
    · obtain ⟨b, e, hshort, -⟩ := hle c hn
      cases hshort.symm.trans h
    · cases (hlt c (by omega)).symm.trans h
      exact hlt _ (by rw [remaining_placed hfault]; omega)

theorem carries_readBytes (s : Surroundings) (n : Nat) :
    Carries (placed s) s.Excuses (readBytes n) (readBytes n) := by
  apply carries_of_remaining
  · exact fun c => readBytes_of_lt
  · intro c hn
    obtain ⟨bytes, d, hpasses, hlength⟩ := exists_passes_of_le hn
    exact ⟨bytes, d, readBytes_eq_ok_iff.mpr ⟨hpasses, hlength⟩,
      readBytes_eq_ok_iff.mpr ⟨hpasses.placed, hlength⟩⟩

theorem skip_of_passes (h : c.Passes bytes d) : skip bytes.length c = .ok () d := by
  obtain ⟨fits, rfl⟩ := h.eq_advance
  exact skip_of_le fits

theorem carries_skip (s : Surroundings) (n : Nat) :
    Carries (placed s) s.Excuses (skip n) (skip n) := by
  apply carries_of_remaining
  · exact fun c => skip_of_lt
  · intro c hn
    obtain ⟨bytes, d, hpasses, rfl⟩ := exists_passes_of_le hn
    exact ⟨(), d, skip_of_passes hpasses, skip_of_passes hpasses.placed⟩

theorem carries_require (s : Surroundings) (n : Nat) :
    Carries (placed s) s.Excuses (require n) (require n) := by
  apply carries_of_remaining
  · exact fun c => require_of_lt
  · intro c hn
    exact ⟨(), c, require_of_le hn, require_of_le (Nat.le_add_right_of_le hn)⟩

end Cursor

namespace Nesting

/-- The same frames, with all ends `n` bytes further on. -/
def shifted (n : Nat) (nesting : Nesting) : Nesting where
  path := nesting.path
  ends := nesting.ends.map (Option.map (· + n))
  depth := nesting.depth
  length_path := nesting.length_path
  length_ends := by rw [List.length_map, nesting.length_ends]

variable {nesting next : Nesting} {n position finish : Nat} {number : UInt64}

theorem push_shifted :
    (nesting.shifted n).push number none = (nesting.push number none).shifted n := rfl

theorem drop_shifted (k : Nat) : (nesting.shifted n).drop k = (nesting.drop k).shifted n := by
  simp only [drop, shifted, List.map_drop]

theorem enclosingEnd?_shifted :
    (nesting.shifted n).enclosingEnd? = nesting.enclosingEnd?.map (· + n) := by
  show (nesting.ends.map _).tail.findSome? id = _
  rw [← List.map_tail, enclosingEnd?]
  induction nesting.ends.tail with
  | nil => rfl
  | cons finish outer ih => cases finish <;> simp [ih]

theorem closeAt_shifted :
    (nesting.shifted n).closeAt (position + n) = (nesting.closeAt position).shifted n := by
  have hends : ((· == some (position + n)) ∘ Option.map (· + n) : Option Nat → Bool) =
      (· == some position) := by
    funext finish
    cases finish with
    | none => rfl
    | some stop => exact Bool.eq_iff_iff.mpr (by simp)
  rw [closeAt, closeAt, drop_shifted]
  congr 2
  show ((nesting.ends.map _).takeWhile _).length = _
  rw [List.takeWhile_map, List.length_map, hends]

theorem overrunAt_shifted :
    (nesting.shifted n).overrunAt (position + n) = nesting.overrunAt position := by
  show (nesting.ends.map _).head?.any _ = _
  rw [overrunAt, List.head?_map]
  cases nesting.ends.head? with
  | none => rfl
  | some finish => cases finish <;> simp

theorem setEnd_shifted :
    (nesting.shifted n).setEnd (finish + n) = (nesting.setEnd finish).map (shifted n) := by
  unfold setEnd
  rw [show (nesting.shifted n).isEmpty = nesting.isEmpty from rfl]
  split
  · rfl
  · simp only [shifted, Except.map]
    congr 2
    cases nesting.ends <;> rfl

end Nesting

namespace DecodeError

/-- The error at a place `n` bytes further on. -/
def shifted (n : Nat) (error : DecodeError) : DecodeError :=
  { error with offset := error.offset + n }

end DecodeError

namespace Event

/-- The event with all offsets `n` bytes further on. -/
def shifted (n : Nat) : Event → Event
  | keyRead offset key path => keyRead (offset + n) key path
  | asked number parent start length answer => asked number parent (start + n) length answer
  | delivered wireType number value path => delivered wireType number value path
  | failed error => failed (error.shifted n)
  | completed length visited => completed length visited

theorem shifted_zero (event : Event) : event.shifted 0 = event := by
  cases event <;> rfl

/-- An offset is no part of a call. -/
theorem call?_shifted (n : Nat) (event : Event) : (event.shifted n).call? = event.call? := by
  cases event <;> rfl

end Event

namespace Walk

variable {σ α : Type} {P : Policy σ} {s : Surroundings} {walk : Walk σ}

/-- The walk in a buffer that stands inside surroundings. -/
def placed (s : Surroundings) (walk : Walk σ) : Walk σ where
  cursor := walk.cursor.placed s
  nesting := walk.nesting.shifted s.before
  visited := s.visited + walk.visited
  limits := walk.limits
  state := walk.state
  journal := s.journal ++ walk.journal.map (Event.shifted s.before)

theorem journal_placed (walk : Walk σ) (event : Event) :
    (walk.placed s).journal.push (event.shifted s.before) =
      s.journal ++ (walk.journal.push event).map (Event.shifted s.before) :=
  Array.ext' (by simp [placed])

theorem carries_enter (s : Surroundings) (offset : Nat) (key : Key) :
    Carries (placed s : Walk σ → Walk σ) s.Excuses (enter offset key)
      (enter (offset + s.before) key) := by
  apply carries_enter_of
  · exact fun _ => rfl
  · exact fun _ => rfl
  · intro walk
    have hjournal := walk.journal_placed (s := s)
      (.keyRead offset key (walk.nesting.push key.number none).path)
    simp only [entered, placed, Nesting.push_shifted, ← hjournal]
    rfl

theorem carries_leave (s : Surroundings) :
    Carries (placed s : Walk σ → Walk σ) s.Excuses leave leave where
  ok := by
    intro walk done next h
    cases h
    show EStateM.Result.ok () _ = _
    simp only [placed, Nesting.pop, Nesting.drop_shifted]
  error := nofun

theorem carries_deliver (s : Surroundings) (P : Policy σ) (key : Key) (value : Bytes) :
    Carries (placed s) s.Excuses (deliver P key value) (deliver P key value) where
  ok := by
    intro walk done next h
    cases h
    show EStateM.Result.ok () _ = _
    simp only [placed, Nesting.pop, Nesting.drop_shifted, ← walk.journal_placed]
    rfl
  error := nofun

theorem carries_ask (s : Surroundings) (P : Policy σ) (key : Key) (length : Nat) :
    Carries (placed s) s.Excuses (ask P key length) (ask P key length) where
  ok := by
    intro walk done next h
    cases h
    show EStateM.Result.ok _ _ = _
    simp only [placed, ← walk.journal_placed]
    rfl
  error := nofun

theorem carries_descend (s : Surroundings) (length : Nat) :
    Carries (placed s : Walk σ → Walk σ) s.Excuses (descend length) (descend length) := by
  apply Carries.of_eq
  intro walk
  have hfinish : (walk.placed s).cursor.position + length =
      walk.cursor.position + length + s.before := Nat.add_right_comm ..
  have hany : (walk.placed s).nesting.enclosingEnd?.any
      (· < walk.cursor.position + length + s.before) =
      walk.nesting.enclosingEnd?.any (· < walk.cursor.position + length) := by
    rw [show (walk.placed s).nesting = walk.nesting.shifted s.before from rfl,
      Nesting.enclosingEnd?_shifted]
    cases walk.nesting.enclosingEnd? <;> simp
  have hset : (walk.placed s).nesting.setEnd (walk.cursor.position + length + s.before) =
      (walk.nesting.setEnd (walk.cursor.position + length)).map (Nesting.shifted s.before) :=
    Nesting.setEnd_shifted
  simp only [descend, hfinish, hany, hset]
  split
  · rfl
  · cases walk.nesting.setEnd (walk.cursor.position + length) <;> rfl

theorem settle_placed : (walk.placed s).settle = walk.settle.placed s := by
  simp only [settle, placed, Cursor.placed, Nesting.closeAt_shifted]

theorem carries_close (s : Surroundings) :
    Carries (placed s : Walk σ → Walk σ) s.Excuses close close :=
  .of_eq (close_image (fun _ => settle_placed) fun _ => Nesting.overrunAt_shifted)

/-- Inside surroundings a walk reads its fields as it does alone. -/
def placement (P : Policy σ) (s : Surroundings) : Transport P P where
  image := placed s
  onCursor := .placed s
  excused := s.Excuses
  shift := s.before
  cursor_image _ := rfl
  image_movedTo _ _ := rfl
  position _ := rfl
  more _ := Cursor.atEnd_placed
  readKey := Cursor.carries_readKey s
  readVarint := Cursor.carries_readVarint s
  readBytes := Cursor.carries_readBytes s
  skip := Cursor.carries_skip s
  require := Cursor.carries_require s
  enter := carries_enter s
  leave := carries_leave s
  deliver := carries_deliver s P
  ask := carries_ask s P
  descend := carries_descend s
  close := carries_close s

end Walk
end FieldSieve
