import FieldSieve.Proofs.Continuation
import FieldSieve.Proofs.Crossing

/-!
# One frame more

A message can be read from its own bytes, and it can be read as the content of a frame that ends
where the buffer does.  Both ways go through the same walks, only that in the frame everything
happens one level deeper (`Walk.below`): paths begin with the number of the frame, and one frame
more is open and allowed.

The end of the frame is one more number on the list, but it decides nothing.  A payload that would
cross it is not there at all, and no position lies behind it.  It tells only at the last byte: there
the frame is closed together with the frames in it.  So what a field comes to is the image of what
it comes to without the frame, up to the closing of frames (`Walk.field_below`).
-/
namespace FieldSieve

/-- The same path inside the message with a number. -/
def FieldPath.below (number : UInt64) (path : FieldPath) : FieldPath :=
  ⟨path.innermostFirst ++ [number]⟩

@[simp] theorem FieldPath.toList_below {number : UInt64} {path : FieldPath} :
    (path.below number).toList = number :: path.toList := by
  simp [below, toList]

/-- The same fault where one more frame is open and allowed. -/
def Fault.deeper : Fault → Fault
  | depthLimitExceeded limit => depthLimitExceeded (limit + 1)
  | fault => fault

/-- Limits that allow one more frame. -/
def Limits.deeper (limits : Limits) : Limits :=
  { limits with maxDepth := limits.maxDepth.map (· + 1) }

/-- The same call inside the message with a number. -/
def Call.below (number : UInt64) : Call → Call
  | asked child parent answer => asked child (parent.below number) answer
  | delivered wireType child value path => delivered wireType child value (path.below number)

/-- The policy as it is asked from inside the message with a number. -/
def Policy.below {σ : Type} (P : Policy σ) (number : UInt64) : Policy σ where
  answer child parent := P.answer child (parent.below number)
  deliver wireType child value path := P.deliver wireType child value (path.below number)

/-- The same event of a field inside the message with a number. -/
def Event.below (number : UInt64) : Event → Event
  | keyRead offset key path => keyRead offset key (path.below number)
  | asked child parent start length answer =>
    asked child (parent.below number) start length answer
  | delivered wireType child value path => delivered wireType child value (path.below number)
  | event => event

theorem Event.call?_below (number : UInt64) (event : Event) :
    (event.below number).call? = event.call?.map (Call.below number) := by
  cases event <;> rfl

namespace Nesting

/-- The same frames inside a frame that ends at `finish`. -/
def below (number : UInt64) (finish : Nat) (nesting : Nesting) : Nesting where
  path := nesting.path.below number
  ends := nesting.ends ++ [some finish]
  depth := nesting.depth + 1
  length_path := by
    simpa [FieldPath.below, FieldPath.length] using nesting.length_path
  length_ends := by
    simpa using nesting.length_ends

variable {nesting : Nesting} {number : UInt64} {finish position n : Nat}

@[simp] theorem frames_below :
    (nesting.below number finish).frames = ⟨number, some finish⟩ :: nesting.frames := by
  simp [frames, below, FieldPath.below, List.zipWith_append nesting.length_numbers]

theorem drop_below (h : n ≤ nesting.depth) :
    (nesting.below number finish).drop n = (nesting.drop n).below number finish := by
  apply Nesting.ext
  rw [frames_drop, frames_below, frames_below, frames_drop, List.length_cons, length_frames,
    Nat.succ_sub h, List.take_succ_cons]

theorem drop_drop (m : Nat) : (nesting.drop n).drop m = nesting.drop (n + m) := by
  simp only [drop, List.drop_drop, Nat.sub_sub]

theorem innermostEnd?_below :
    (nesting.below number finish).innermostEnd? = nesting.innermostEnd?.or (some finish) := by
  rw [innermostEnd?, innermostEnd?, below, List.findSome?_append]
  rfl

/-- Frames may be closed in two turns. -/
theorem closeAt_drop (hn : n ≤ nesting.ends.length)
    (h : ∀ finish ∈ nesting.ends.take n, finish = some position) :
    (nesting.drop n).closeAt position = nesting.closeAt position := by
  have hcount : (nesting.ends.takeWhile (· == some position)).length =
      n + ((nesting.ends.drop n).takeWhile (· == some position)).length := by
    conv => lhs; rw [← List.take_append_drop n nesting.ends]
    rw [List.takeWhile_append_of_pos (by simpa using h), List.length_append, List.length_take,
      Nat.min_eq_left hn]
  rw [closeAt, closeAt, hcount, drop_drop]
  rfl

/-- The frames inside are closed first, and then the one around them if it ends here too. -/
theorem closeAt_below : (nesting.below number finish).closeAt position =
    ((nesting.closeAt position).below number finish).closeAt position := by
  have hprefix := List.takeWhile_prefix (l := nesting.ends) (p := (· == some position))
  have hle := hprefix.length_le
  rw [closeAt.eq_1 nesting, ← drop_below (nesting.length_ends ▸ hle)]
  refine (closeAt_drop (Nat.le_trans hle (by simp [below])) fun stop hstop => ?_).symm
  rw [show (nesting.below number finish).ends = nesting.ends ++ [some finish] from rfl,
    List.take_append_of_le_length hle, ← List.prefix_iff_eq_take.mp hprefix] at hstop
  exact eq_of_beq (List.all_eq_true.mp List.all_takeWhile stop hstop)

end Nesting

namespace Walk

variable {σ : Type} {P : Policy σ} {walk next start rest : Walk σ} {number : UInt64} {finish : Nat}
  {key : Key} {c d : Cursor} {state : σ} {events : List Event} {length count : Nat}
  {stops : List Nat}

/-- The same walk inside a frame that ends at `finish`, with one more frame allowed. -/
def below (number : UInt64) (finish : Nat) (walk : Walk σ) : Walk σ :=
  { walk with
    nesting := walk.nesting.below number finish
    limits := walk.limits.deeper
    journal := walk.journal.map (Event.below number) }

/-- What a field comes to inside a frame that ends with the buffer. -/
def framed (number : UInt64) (finish : Nat) :
    EStateM.Result Fault (Walk σ) Unit → EStateM.Result Fault (Walk σ) Unit
  | .ok done next => .ok done (next.below number finish).settle
  | .error fault rest => .error fault.deeper (rest.below number finish)

theorem calls_below :
    (walk.below number finish).calls = walk.calls.map (Call.below number) := by
  have hcall : Event.call? ∘ Event.below number = fun event =>
      event.call?.map (Call.below number) := funext (Event.call?_below number)
  show (walk.journal.map _).toList.filterMap _ = _
  rw [Array.toList_map, List.filterMap_map, hcall, calls, List.map_filterMap]

theorem inside_below : (walk.inside key c state events).below number finish =
    (walk.below number finish).inside key c state (events.map (Event.below number)) := by
  apply eq_of_parts <;> first | rfl | exact Array.ext' (by simp [below, inside])

theorem past_below : (walk.past c state count events).below number finish =
    (walk.below number finish).past c state count (events.map (Event.below number)) := by
  apply eq_of_parts <;> first | rfl | exact Array.ext' (by simp [below, past])

theorem settle_below :
    (walk.below number finish).settle = (walk.settle.below number finish).settle := by
  simp only [settle, below, ← Nesting.closeAt_below]

theorem Stops.below (h : walk.Stops stops) (hsize : walk.cursor.size = finish) :
    (walk.below number finish).Stops (stops ++ [finish]) where
  ends := by
    show walk.nesting.ends ++ [some finish] = _
    rw [h.ends, List.map_append]
    rfl
  sorted := by
    refine List.pairwise_append.mpr ⟨h.sorted, List.pairwise_singleton .., ?_⟩
    intro stop hstop last hlast
    rw [List.mem_singleton.mp hlast, ← hsize]
    exact h.inBuffer stop hstop
  inBuffer := by
    refine List.forall_mem_append.mpr ⟨h.inBuffer, ?_⟩
    exact List.forall_mem_singleton.mpr (Nat.le_of_eq hsize.symm)

/-- Closing frames goes on to the frame around them, which has not ended before. -/
theorem close_below (h : walk.Stops stops) (hsize : walk.cursor.size = finish) :
    close (walk.below number finish) = framed number finish (close walk) := by
  have hbelow : (walk.below number finish).Stops (stops ++ [finish]) := h.below hsize
  have hposition : walk.cursor.position ≤ finish := hsize ▸ Nat.le_add_right ..
  by_cases hle : ∀ stop ∈ stops, walk.cursor.position ≤ stop
  · have hall : ∀ stop ∈ stops ++ [finish], walk.cursor.position ≤ stop :=
      List.forall_mem_append.mpr ⟨hle, by simpa using hposition⟩
    rw [close_of_le h hle, close_of_le hbelow hall, settle_below]
    rfl
  · simp only [Classical.not_forall, Nat.not_le] at hle
    obtain ⟨stop, hstop, hlt⟩ := hle
    have hbefore : stop < (walk.below number finish).cursor.position := hlt
    rw [close_of_lt h hstop hlt, close_of_lt hbelow (List.mem_append_left _ hstop) hbefore]
    rfl

theorem Keyed.below (h : walk.Keyed key c) : (walk.below number finish).Keyed key c where
  readKey := h.readKey
  room := by
    intro limit hlimit
    obtain ⟨outer, houter, rfl⟩ := Option.map_eq_some_iff.mp hlimit
    exact Nat.succ_lt_succ (h.room outer houter)

theorem Sized.below (h : walk.Sized key length c d) :
    (walk.below number finish).Sized key length c d :=
  { h.toKeyed.below with wireType := h.wireType, readLength := h.readLength }

/-- A field inside the frame comes to what it comes to without the frame. -/
theorem field_below (P : Policy σ) (h : walk.Ahead finish) :
    field P (walk.below number finish) = framed number finish (field (P.below number) walk) := by
  obtain ⟨stops, hstops, -, hsize⟩ := h
  have houtcome := fieldOutcome (P.below number) walk
  generalize field (P.below number) walk = result at houtcome
  cases houtcome with
  | @badKey fault c hbad =>
    have hdeeper : fault.deeper = fault := by
      rcases Cursor.fault_of_readKey hbad with rfl | ⟨_, rfl⟩ <;> rfl
    rw [field_badKey (show Cursor.readKey (walk.below number finish).cursor = _ from hbad), framed,
      hdeeper]
    rfl
  | tooDeep hkey hlimit hdeep =>
    have hdeeper := congrArg (Option.map (· + 1)) hlimit
    rw [framed, inside_below]
    exact field_tooDeep hkey hdeeper (Nat.succ_le_succ hdeep)
  | noValue hkeyed hscalar hread =>
    rw [framed, inside_below]
    exact field_noValue hkeyed.below hscalar hread
  | noLength hkeyed hpayload hread =>
    rw [framed, inside_below]
    exact field_noLength hkeyed.below hpayload hread
  | missing hsized hanswer hmissing =>
    rw [framed, inside_below]
    exact field_missing hsized.below hanswer hmissing
  | outside hsized hanswer hthere hstop houtside =>
    have hstop : (walk.below number finish).nesting.innermostEnd? = some _ :=
      Nesting.innermostEnd?_below.trans (congrArg (Option.or · (some finish)) hstop)
    rw [framed, inside_below]
    exact field_outside hsized.below hanswer hthere hstop houtside
  | scalar hkeyed hread =>
    obtain ⟨front, hfront⟩ := hkeyed.passes
    obtain ⟨behind, -, hbehind⟩ := Item.readBehind_eq_ok_iff.mp hread
    have hpasses := hfront.trans hbehind
    rw [← close_below (hstops.past hpasses) (hpasses.size_eq.trans hsize), past_below]
    exact field_scalar hkeyed.below hread
  | skipped hsized hanswer hthere =>
    obtain ⟨front, hfront⟩ := hsized.passes
    have hpasses := hfront.trans hthere
    rw [← close_below (hstops.past hpasses) (hpasses.size_eq.trans hsize), past_below]
    exact field_skipped hsized.below hanswer hthere
  | captured hsized hanswer hthere =>
    obtain ⟨front, hfront⟩ := hsized.passes
    have hpasses := hfront.trans hthere
    rw [← close_below (hstops.past hpasses) (hpasses.size_eq.trans hsize), past_below]
    exact field_captured hsized.below hanswer hthere
  | @descended key inner c d state hsized hanswer hthere hinside =>
    obtain ⟨front, hpasses⟩ := hsized.passes
    have hend : d.position + inner ≤ d.size := Nat.add_le_add_left hthere _
    have hframe : ∀ stop, (walk.below number finish).nesting.innermostEnd? = some stop →
        d.position + inner ≤ stop := by
      intro stop hstop
      rw [show (walk.below number finish).nesting.innermostEnd? = _ from
        Nesting.innermostEnd?_below] at hstop
      cases hinner : walk.nesting.innermostEnd? with
      | some own =>
        rw [hinner] at hstop
        cases hstop
        exact hinside _ hinner
      | none =>
        rw [hinner] at hstop
        cases hstop
        rwa [← hsize, ← hpasses.size_eq]
    rw [← close_below ((hstops.past hpasses).opened (hstops.le_of_innermostEnd? hinside) hend)
      (hpasses.size_eq.trans hsize)]
    show _ = close (((walk.past d state 1 _).below number finish).opened key.number _)
    rw [past_below]
    exact field_descended hsized.below hanswer hthere hframe

/-- Before the last byte the frame stays open. -/
theorem settle_below_of_more (h : walk.Ahead finish) (hmore : walk.cursor.atEnd = false) :
    (walk.below number finish).settle = walk.below number finish := by
  obtain ⟨stops, hstops, hlt, hsize⟩ := h
  apply settle_of_lt (hstops.below hsize)
  refine List.forall_mem_append.mpr ⟨hlt, List.forall_mem_singleton.mpr ?_⟩
  show walk.cursor.position < finish
  have hleft : walk.cursor.remaining ≠ 0 := by simpa [Cursor.atEnd] using hmore
  rw [← hsize, Cursor.size]
  omega

/-- At the last byte it is closed, with all frames in it. -/
theorem isEmpty_settle_below (h : walk.Ahead finish) (hend : walk.cursor.atEnd = true) :
    (walk.below number finish).settle.nesting.isEmpty = true := by
  obtain ⟨hempty, hposition⟩ := isEmpty_of_ahead h hend
  have hnone : walk.nesting = .empty := Nesting.ext (Nesting.isEmpty_iff.mp hempty)
  show ((walk.nesting.below number finish).closeAt walk.cursor.position).isEmpty = true
  rw [hnone, hposition]
  simp [Nesting.closeAt, Nesting.below, Nesting.empty, Nesting.isEmpty, Nesting.drop]

/-- Inside the frame a run goes through the walks that it goes through without the frame. -/
theorem visits_below (hstart : start.Ahead finish) (h : Visits (P.below number) start walk) :
    Visits P (start.below number finish).settle (walk.below number finish).settle := by
  induction h with
  | start => exact .start
  | field hvisits hmore hfield ih =>
    have hahead := ahead_of_visits hstart hvisits
    rw [settle_below_of_more hahead hmore] at ih
    refine .field ih hmore ?_
    rw [field_below P hahead, hfield]
    rfl

end Walk
end FieldSieve
