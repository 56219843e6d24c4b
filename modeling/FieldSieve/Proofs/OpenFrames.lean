import FieldSieve.Proofs.Runs

/-!
# Open frames

A scan never cuts its buffer: where a message ends is a number on a list, a value may be read past
it, and only the comparison behind the value notices.  What makes this safe is that the list is in
order whenever a field begins: every open frame has an end, no end lies behind one further out, and
all of them lie behind the position and inside the buffer (`Walk.Ahead`).

Two facts carry that from field to field.  A message is opened only if it ends inside the innermost
message around it, so the new end is the least; and frames are closed only where none of them should
have ended before, so the ends that are left lie behind the position (`Walk.ahead_of_field`).  At
the end of the buffer there is no room for an end, hence no frame is open there.
-/
namespace FieldSieve

namespace Nesting

/-- The frames are open around a position in a buffer of a given length: each has an end, no end
lies behind that of a frame further out, the innermost one lies behind the position and the
outermost one not behind the buffer. -/
def Around (nesting : Nesting) (position length : Nat) : Prop :=
  ∃ stops : List Nat, nesting.frames.map Frame.finish = stops.map some ∧
    stops.Pairwise (· ≥ ·) ∧ (∀ stop, stops.getLast? = some stop → position < stop) ∧
    ∀ stop, stops.head? = some stop → stop ≤ length

theorem drop_length_takeWhile {α : Type} (p : α → Bool) (l : List α) :
    l.drop (l.takeWhile p).length = l.dropWhile p := by
  calc l.drop (l.takeWhile p).length
      = (l.takeWhile p ++ l.dropWhile p).drop (l.takeWhile p).length := by
        rw [List.takeWhile_append_dropWhile]
    _ = l.dropWhile p := List.drop_left

theorem ends_closeAt {nesting : Nesting} {position : Nat} :
    (nesting.closeAt position).ends = nesting.ends.dropWhile (· == some position) :=
  drop_length_takeWhile _ _

end Nesting

namespace Walk

variable {σ : Type}

/-- The ends of the open frames, innermost first: each is known, none lies behind one further out,
and none behind the buffer. -/
structure Stops (walk : Walk σ) (stops : List Nat) : Prop where
  ends : walk.nesting.ends = stops.map some
  sorted : stops.Pairwise (· ≤ ·)
  inBuffer : ∀ stop ∈ stops, stop ≤ walk.cursor.size

variable {P : Policy σ} {walk next : Walk σ} {stops : List Nat} {bytes : Bytes} {d : Cursor}
  {position : Nat}

theorem Stops.innermostEnd?_eq (h : walk.Stops stops) :
    walk.nesting.innermostEnd? = stops.head? := by
  rw [Nesting.innermostEnd?, h.ends]
  cases stops <;> rfl

theorem ends_settle (h : walk.nesting.ends = stops.map some) :
    walk.settle.nesting.ends = (stops.dropWhile (· == walk.cursor.position)).map some := by
  have hpred : ((· == some walk.cursor.position) ∘ some : Nat → Bool) =
      (· == walk.cursor.position) := by
    funext stop
    exact Bool.eq_iff_iff.mpr (by simp)
  rw [settle, Nesting.ends_closeAt, h, List.dropWhile_map, hpred]

/-- Closing frames leaves those that end behind the position. -/
theorem Stops.settle (h : walk.Stops stops) :
    walk.settle.Stops (stops.dropWhile (· == walk.cursor.position)) where
  ends := ends_settle h.ends
  sorted := h.sorted.sublist (List.dropWhile_sublist _)
  inBuffer stop hstop := h.inBuffer stop ((List.dropWhile_sublist _).mem hstop)

theorem lt_of_mem_dropWhile {stop : Nat} (hsorted : stops.Pairwise (· ≤ ·))
    (hle : ∀ stop ∈ stops, position ≤ stop) (h : stop ∈ stops.dropWhile (· == position)) :
    position < stop := by
  induction stops with
  | nil => cases h
  | cons first outer ih =>
    rw [List.pairwise_cons] at hsorted
    by_cases hfirst : first = position
    · rw [List.dropWhile_cons_of_pos (by simpa using hfirst)] at h
      exact ih hsorted.2 (fun stop hstop => hle stop (List.mem_cons_of_mem _ hstop)) h
    · rw [List.dropWhile_cons_of_neg (by simpa using hfirst)] at h
      have hlt := hle first List.mem_cons_self
      rcases List.mem_cons.mp h with rfl | h
      · omega
      · have := hsorted.1 stop h
        omega

theorem close_eq : close walk =
    if walk.settle.nesting.overrunAt walk.cursor.position then .error .messageOverrun walk.settle
    else .ok () walk.settle := rfl

/-- Whether or not it fails, closing frames does nothing else. -/
theorem stateAfter_close (walk : Walk σ) : stateAfter (close walk) = walk.settle := by
  rw [close_eq]
  split <;> rfl

theorem eq_settle_of_close (h : close walk = .ok () next) : next = walk.settle := by
  rw [close_eq] at h
  split at h <;> cases h
  rfl

/-- Where no frame should have ended before, closing frames succeeds. -/
theorem close_of_le (h : walk.Stops stops) (hle : ∀ stop ∈ stops, walk.cursor.position ≤ stop) :
    close walk = .ok () walk.settle := by
  rw [close_eq, if_neg]
  rw [Nesting.overrunAt, h.settle.ends, List.head?_map]
  cases hfirst : (stops.dropWhile (· == walk.cursor.position)).head? with
  | none => simp
  | some stop =>
    have := lt_of_mem_dropWhile h.sorted hle (List.mem_of_mem_head? hfirst)
    simp; omega

/-- Closing frames succeeds only where no frame should have ended before. -/
theorem le_of_close (h : walk.Stops stops) (hclose : close walk = .ok () next) :
    next = walk.settle ∧ ∀ stop ∈ stops, walk.cursor.position ≤ stop := by
  rw [close_eq] at hclose
  split at hclose <;> cases hclose
  next hover =>
  refine ⟨rfl, ?_⟩
  cases stops with
  | nil => simp
  | cons first outer =>
    have hsorted := List.pairwise_cons.mp h.sorted
    have hfirst : walk.cursor.position ≤ first := by
      apply Nat.not_lt.mp
      intro hlt
      apply hover
      rw [Nesting.overrunAt, h.settle.ends,
        List.dropWhile_cons_of_neg (by simp; omega)]
      simpa using hlt
    intro stop hstop
    rcases List.mem_cons.mp hstop with rfl | hstop
    · exact hfirst
    · exact Nat.le_trans hfirst (hsorted.1 stop hstop)

theorem Stops.past {state : σ} {count : Nat} {events : List Event} (h : walk.Stops stops)
    (hpasses : walk.cursor.Passes bytes d) : (walk.past d state count events).Stops stops where
  ends := h.ends
  sorted := h.sorted
  inBuffer stop hstop := hpasses.size_eq ▸ h.inBuffer stop hstop

/-- A message opened inside all others becomes the innermost one. -/
theorem Stops.opened {number : UInt64} {finish : Nat} (h : walk.Stops stops)
    (hinside : ∀ stop ∈ stops, finish ≤ stop) (hthere : finish ≤ walk.cursor.size) :
    (walk.opened number finish).Stops (finish :: stops) where
  ends := congrArg (some finish :: ·) h.ends
  sorted := List.pairwise_cons.mpr ⟨hinside, h.sorted⟩
  inBuffer stop hstop := by
    rcases List.mem_cons.mp hstop with rfl | hstop
    · exact hthere
    · exact h.inBuffer stop hstop

/-- The innermost of the ends is the least. -/
theorem Stops.le_of_innermostEnd? (h : walk.Stops stops)
    (hinside : ∀ stop, walk.nesting.innermostEnd? = some stop → position ≤ stop) :
    ∀ stop ∈ stops, position ≤ stop := by
  rw [h.innermostEnd?_eq] at hinside
  cases stops with
  | nil => simp
  | cons first outer =>
    intro stop hstop
    have hfirst := hinside first rfl
    rcases List.mem_cons.mp hstop with rfl | hstop
    · exact hfirst
    · exact Nat.le_trans hfirst ((List.pairwise_cons.mp h.sorted).1 stop hstop)

/-- The ends stay in order, and all of them lie behind the position again. -/
def Ahead (walk : Walk σ) (length : Nat) : Prop :=
  ∃ stops, walk.Stops stops ∧ (∀ stop ∈ stops, walk.cursor.position < stop) ∧
    walk.cursor.size = length

theorem Keyed.passes {key : Key} {c : Cursor} (h : walk.Keyed key c) :
    ∃ bytes, walk.cursor.Passes bytes c := by
  obtain ⟨form, -, hpasses, -⟩ := Cursor.readKey_eq_ok_iff.mp h.readKey
  exact ⟨form, hpasses⟩

theorem Sized.passes {key : Key} {length : Nat} {c d : Cursor} (h : walk.Sized key length c d) :
    ∃ bytes, walk.cursor.Passes bytes d := by
  obtain ⟨bytes, hkey⟩ := h.toKeyed.passes
  obtain ⟨word, hword, -⟩ := h.readLength
  obtain ⟨form, -, hpasses, -⟩ := Cursor.readVarint_eq_ok_iff.mp hword
  exact ⟨bytes ++ form, hkey.trans hpasses⟩

/-- In front of a payload stand at least two bytes, of its key and of its length. -/
theorem Sized.position_le {key : Key} {length : Nat} {c d : Cursor}
    (h : walk.Sized key length c d) : walk.cursor.position + 2 ≤ d.position := by
  obtain ⟨word, hword, -⟩ := h.readLength
  have hkey := Cursor.position_lt_of_readKey h.readKey
  have hlength := Cursor.position_lt_of_readVarint hword
  omega

/-- A payload starts behind its key. -/
theorem Sized.position_lt {key : Key} {length : Nat} {c d : Cursor}
    (h : walk.Sized key length c d) : walk.cursor.position < d.position :=
  Nat.lt_of_succ_le (Nat.le_of_succ_le h.position_le)

theorem ahead_of_close {length : Nat} (h : walk.Stops stops) (hsize : walk.cursor.size = length)
    (hclose : close walk = .ok () next) : next.Ahead length := by
  obtain ⟨rfl, hle⟩ := le_of_close h hclose
  exact ⟨_, h.settle, fun stop hstop => lt_of_mem_dropWhile h.sorted hle hstop, hsize⟩

/-- A field that is read keeps the frames in order. -/
theorem ahead_of_field {length : Nat} (h : walk.Ahead length)
    (hfield : field P walk = .ok () next) : next.Ahead length := by
  obtain ⟨stops, hstops, -, hsize⟩ := h
  have houtcome := fieldOutcome P walk
  generalize field P walk = result at houtcome hfield
  cases houtcome with
  | badKey | tooDeep | noValue | noLength | missing | outside => cases hfield
  | scalar hkeyed hread =>
    obtain ⟨front, hfront⟩ := hkeyed.passes
    obtain ⟨behind, -, hbehind⟩ := Item.readBehind_eq_ok_iff.mp hread
    have hpasses := hfront.trans hbehind
    exact ahead_of_close (hstops.past hpasses) (hpasses.size_eq.trans hsize) hfield
  | skipped hsized _ hthere | captured hsized _ hthere =>
    obtain ⟨front, hfront⟩ := hsized.passes
    have hpasses := hfront.trans hthere
    exact ahead_of_close (hstops.past hpasses) (hpasses.size_eq.trans hsize) hfield
  | @descended key inner c d state hsized _ hthere hinside =>
    obtain ⟨front, hpasses⟩ := hsized.passes
    -- The new end lies inside the buffer, because so many bytes are left, and inside all others.
    have hend : d.position + inner ≤ d.size := Nat.add_le_add_left hthere _
    exact ahead_of_close
      ((hstops.past hpasses).opened (hstops.le_of_innermostEnd? hinside) hend)
      (hpasses.size_eq.trans hsize) hfield

theorem ahead_fresh (bytes : Bytes) (state : σ) (limits : Limits) :
    (fresh bytes state limits).Ahead bytes.length :=
  ⟨[], ⟨rfl, .nil, by simp⟩, by simp, Cursor.size_ofBytes bytes⟩

theorem ahead_of_visits {length : Nat} {start : Walk σ} (hstart : start.Ahead length)
    (h : Visits P start walk) : walk.Ahead length := by
  induction h with
  | start => exact hstart
  | field _ _ hfield ih => exact ahead_of_field ih hfield

theorem around_of_ahead {length : Nat} (h : walk.Ahead length) :
    walk.nesting.Around walk.cursor.position length := by
  obtain ⟨stops, hstops, hlt, rfl⟩ := h
  refine ⟨stops.reverse, ?_, List.pairwise_reverse.mpr hstops.sorted, ?_, ?_⟩
  · rw [Nesting.map_finish_frames, hstops.ends, List.map_reverse]
  · intro stop hstop
    rw [List.getLast?_reverse] at hstop
    exact hlt stop (List.mem_of_mem_head? hstop)
  · intro stop hstop
    rw [List.head?_reverse] at hstop
    exact hstops.inBuffer stop (List.mem_of_getLast? hstop)

/-- At the end of the buffer no frame can end further on, so none is open. -/
theorem isEmpty_of_ahead {length : Nat} (h : walk.Ahead length) (hend : walk.cursor.atEnd = true) :
    walk.nesting.isEmpty = true ∧ walk.cursor.position = length := by
  obtain ⟨stops, hstops, hlt, hsize⟩ := h
  have hposition : walk.cursor.position = walk.cursor.size := by
    rw [Cursor.size, eq_of_beq hend, Nat.add_zero]
  refine ⟨?_, hposition.trans hsize⟩
  have hnone : stops = [] := by
    apply List.eq_nil_iff_forall_not_mem.mpr
    intro stop hstop
    have hbefore := hlt stop hstop
    have hinside := hstops.inBuffer stop hstop
    omega
  rw [Nesting.isEmpty, ← walk.nesting.length_ends, hstops.ends, hnone]
  rfl

/-- No field runs into a frame that is not there. -/
theorem fault_ne_of_field {fault : Fault} {rest : Walk σ}
    (hfield : field P walk = .error fault rest) (detail : String) :
    fault ≠ .brokenNesting detail := by
  have hclose : ∀ {closing : Walk σ}, close closing = .error fault rest →
      fault ≠ .brokenNesting detail := by
    intro closing h
    rw [close_eq] at h
    split at h <;> cases h
    exact nofun
  have houtcome := fieldOutcome P walk
  generalize field P walk = result at houtcome hfield
  cases houtcome with
  | badKey hkey =>
    cases hfield
    rcases Cursor.fault_of_readKey hkey with rfl | ⟨_, rfl⟩ <;> exact nofun
  | tooDeep | noValue | noLength | missing | outside =>
    cases hfield
    exact nofun
  | scalar | skipped | captured | descended => exact hclose hfield

end Walk

/-- A scan that is not too long ends in one of two ways: at the end of the buffer with all frames
closed, or at a field that cannot be read. -/
theorem scan_cases {σ : Type} (P : Policy σ) (bytes : Bytes) (state : σ) (limits : Limits)
    (hexcess : (Scan.ofBytes bytes limits).excess? = none) :
    (∃ last, Walk.Visits P (.fresh bytes state limits) last ∧ last.cursor.atEnd = true ∧
      last.cursor.position = bytes.length ∧ last.nesting.isEmpty = true ∧
      scan P bytes state limits =
        .ofResult (.ok () (last.record (.completed last.cursor.size last.visited)))) ∨
    ∃ last fault rest, Walk.Visits P (.fresh bytes state limits) last ∧
      last.cursor.atEnd = false ∧ Walk.field P last = .error fault rest ∧
      scan P bytes state limits = .ofResult (Walk.broken last.cursor.position fault rest) := by
  rcases run_cases P state hexcess with ⟨last, hvisits, hend, hrun⟩ | hbroken
  · have hahead := Walk.ahead_of_visits (Walk.ahead_fresh bytes state limits) hvisits
    obtain ⟨hempty, hposition⟩ := Walk.isEmpty_of_ahead hahead hend
    rw [finish_of_isEmpty hempty] at hrun
    exact .inl ⟨last, hvisits, hend, hposition, hempty, hrun⟩
  · exact .inr hbroken

/-- **Frames are open around the position, and closed at the end.**  Each time a run tests for the
end of the buffer, the open frames end in order behind the position and inside the buffer.  So no
run finds a frame missing or one too many, and one that succeeds has used up the buffer. -/
theorem scan_frames_around {σ : Type} (P : Policy σ) (bytes : Bytes) (state : σ) (limits : Limits) :
    (∀ walk, Walk.Visits P (.fresh bytes state limits) walk →
      walk.nesting.Around walk.cursor.position bytes.length) ∧
    (∀ error, (scan P bytes state limits).result = .error error →
      ∀ detail, error.fault ≠ .brokenNesting detail) ∧
    ((scan P bytes state limits).result = .ok () →
      (scan P bytes state limits).scan.cursor.position = bytes.length ∧
      (scan P bytes state limits).scan.cursor.atEnd = true ∧
      (scan P bytes state limits).scan.nesting.frames = []) := by
  have hahead : ∀ walk, Walk.Visits P (.fresh bytes state limits) walk →
      walk.Ahead bytes.length :=
    fun _ => Walk.ahead_of_visits (Walk.ahead_fresh bytes state limits)
  refine ⟨fun walk h => Walk.around_of_ahead (hahead walk h), ?_⟩
  cases hexcess : (Scan.ofBytes bytes limits).excess? with
  | some fault =>
    obtain ⟨limit, -, -, rfl⟩ := excess?_eq_some_iff.mp hexcess
    rw [scan_of_excess hexcess]
    refine ⟨?_, fun h => by cases h⟩
    rintro error ⟨⟩ detail h
    cases h
  | none =>
    rw [scan_of_toEnd hexcess]
    rcases Walk.toEnd_cases P (.fresh bytes state limits) with
      ⟨last, hvisits, hend, hrun⟩ | ⟨last, fault, rest, -, -, hfield, hrun⟩
    · obtain ⟨hempty, hposition⟩ := Walk.isEmpty_of_ahead (hahead last hvisits) hend
      rw [hrun]
      dsimp only
      rw [Walk.finish, if_pos hempty]
      refine ⟨?_, fun _ => ⟨hposition, hend, Nesting.isEmpty_iff.mp hempty⟩⟩
      rintro error ⟨⟩
    · rw [hrun]
      refine ⟨?_, fun h => by cases h⟩
      rintro error ⟨⟩ detail
      exact Walk.fault_ne_of_field hfield detail

end FieldSieve
