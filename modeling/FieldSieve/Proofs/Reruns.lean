import FieldSieve.Proofs.Overruns

/-!
# Running a scan again

A scan that has been run can be run again, with the same policy or another one.  It goes on where it
stopped, with the frames that were left open.

After a run that succeeded there is nothing to go on with (`Scan.Finished`).  After one that broke
off inside a field, a stale frame is left (`Nesting.Stale`): that of the field, which has no end, or
the one whose end the field ran past.  Frames are closed from the inside and only where the position
is at their end, and the position never goes back.  So a stale frame is never closed, whatever the
bytes behind it say and whatever the policies answer, and a run that comes to the end of the buffer
finds it there (`Scan.Lost`).

Only a key that cannot be read leaves no stale frame of its own.
-/
namespace FieldSieve

/-- A run to come: its policy and the state that the policy starts in. -/
structure Turn where
  State : Type
  policy : Policy State
  state : State

/-- The run that a turn makes of a scan. -/
def Turn.run (turn : Turn) (scan : Scan) : Run turn.State := scan.run turn.policy turn.state

/-- What turns leave of a scan, one after the other. -/
def Scan.after (scan : Scan) : List Turn → Scan
  | [] => scan
  | turn :: turns => (turn.run scan).scan.after turns

/-- Why no key can be read at an offset. -/
def Bytes.keyFault? (bytes : Bytes) (offset : Nat) : Option Fault :=
  match Cursor.readKey (bytes.cursorAt offset) with
  | .ok _ _ => none
  | .error fault _ => some fault

/-- Some open frame has no end, or its end lies in front of the position. -/
def Nesting.Stale (nesting : Nesting) (position : Nat) : Prop :=
  ∃ finish ∈ nesting.ends, ∀ stop, finish = some stop → stop < position

/-- The scan has come to a good end. -/
structure Scan.Finished (scan : Scan) : Prop where
  excess : scan.excess? = none
  atEnd : scan.cursor.atEnd = true
  isEmpty : scan.nesting.isEmpty = true

/-- The scan cannot come to a good end any more. -/
inductive Scan.Lost (scan : Scan) : Prop
  | tooLong {fault : Fault} (h : scan.excess? = some fault)
  | stale (h : scan.nesting.Stale scan.cursor.position)
  | unclosed (hend : scan.cursor.atEnd = true) (hopen : scan.nesting.isEmpty = false)

namespace Nesting.Stale

variable {nesting : Nesting} {number : UInt64} {finish : Option Nat} {position later : Nat}

theorem mono (h : nesting.Stale position) (hle : position ≤ later) : nesting.Stale later := by
  obtain ⟨finish, hmem, hpassed⟩ := h
  exact ⟨finish, hmem, fun stop hstop => Nat.lt_of_lt_of_le (hpassed stop hstop) hle⟩

theorem push (h : nesting.Stale position) : (nesting.push number finish).Stale position := by
  obtain ⟨stale, hmem, hpassed⟩ := h
  exact ⟨stale, List.mem_cons_of_mem _ hmem, hpassed⟩

/-- A frame whose end is not known is stale everywhere. -/
theorem of_push_none : (nesting.push number none).Stale position :=
  ⟨none, List.mem_cons_self, nofun⟩

/-- A stale frame is not among those that are closed. -/
theorem closeAt (h : nesting.Stale position) : (nesting.closeAt position).Stale position := by
  obtain ⟨finish, hmem, hpassed⟩ := h
  rw [← List.takeWhile_append_dropWhile (p := (· == some position)) (l := nesting.ends),
    List.mem_append] at hmem
  rcases hmem with hmem | hmem
  · have hends : finish = some position :=
      eq_of_beq (List.all_eq_true.mp List.all_takeWhile finish hmem)
    exact absurd (hpassed position hends) (Nat.lt_irrefl _)
  · exact ⟨finish, ends_closeAt ▸ hmem, hpassed⟩

/-- A frame is stale where it should have ended before. -/
theorem of_overrunAt (h : nesting.overrunAt position = true) : nesting.Stale position := by
  rw [overrunAt, Option.any_eq_true] at h
  obtain ⟨finish, hhead, hfinish⟩ := h
  refine ⟨finish, List.mem_of_mem_head? hhead, ?_⟩
  rintro stop rfl
  simpa using hfinish

theorem isEmpty_eq_false (h : nesting.Stale position) : nesting.isEmpty = false := by
  obtain ⟨finish, hmem, -⟩ := h
  rw [isEmpty, ← nesting.length_ends, beq_eq_false_iff_ne]
  exact Nat.pos_iff_ne_zero.mp (List.length_pos_of_mem hmem)

end Nesting.Stale

namespace Walk

variable {σ : Type} {P : Policy σ} {start walk rest : Walk σ} {fault : Fault}

/-- Whatever comes of a field, it closes no stale frame. -/
theorem stale_of_field (h : walk.nesting.Stale walk.cursor.position) :
    (stateAfter (field P walk)).nesting.Stale (stateAfter (field P walk)).cursor.position := by
  have hlater : walk.nesting.Stale (stateAfter (field P walk)).cursor.position :=
    h.mono (Cursor.LeadsTo.position_le (forward_field P walk))
  have houtcome := fieldOutcome P walk
  generalize field P walk = result at houtcome hlater
  cases houtcome with
  | badKey => exact hlater
  | tooDeep | noValue | noLength | missing | outside => exact hlater.push
  | scalar | skipped | captured =>
    rw [stateAfter_close] at hlater ⊢
    exact hlater.closeAt
  | descended =>
    rw [stateAfter_close] at hlater ⊢
    exact hlater.push.closeAt

theorem stale_of_visits (hstart : start.nesting.Stale start.cursor.position)
    (h : Visits P start walk) : walk.nesting.Stale walk.cursor.position := by
  induction h with
  | start => exact hstart
  | field _ _ hfield ih =>
    have hnext := stale_of_field (P := P) ih
    rwa [hfield] at hnext

/-- A field that cannot be read leaves a stale frame, unless its key cannot be read. -/
theorem stale_of_error (hfield : field P walk = .error fault rest) :
    (∃ c, Cursor.readKey walk.cursor = .error fault c) ∨
      rest.nesting.Stale rest.cursor.position := by
  have hclose : ∀ {closing : Walk σ}, close closing = .error fault rest →
      rest.nesting.Stale rest.cursor.position := by
    intro closing h
    rw [close_eq] at h
    split at h <;> cases h
    next hover => exact .of_overrunAt hover
  have houtcome := fieldOutcome P walk
  generalize field P walk = result at houtcome hfield
  cases houtcome with
  | badKey hbad =>
    cases hfield
    exact .inl ⟨_, hbad⟩
  | tooDeep | noValue | noLength | missing | outside =>
    cases hfield
    exact .inr .of_push_none
  | scalar | skipped | captured | descended => exact .inr (hclose hfield)

end Walk

section Run

variable {σ : Type} {P : Policy σ} {scan : Scan} {state : σ} {walk : Walk σ} {bytes : Bytes}
  {error : DecodeError} {fault : Fault}

theorem excess?_of_visits (h : Walk.Visits P ⟨scan, state, #[]⟩ walk) :
    walk.toScan.excess? = scan.excess? := by
  simp only [Scan.excess?, Walk.limits_of_visits h, (Walk.leadsTo_of_visits h).size_eq]

theorem scan_ofResult (result : EStateM.Result DecodeError (Walk σ) Unit) :
    (Run.ofResult result).scan = (stateAfter result).toScan := by
  cases result <;> rfl

/-- A run stays in the buffer. -/
theorem in_run (h : scan.cursor.In bytes) (P : Policy σ) (state : σ) :
    (scan.run P state).scan.cursor.In bytes := by
  cases hexcess : scan.excess? with
  | some fault =>
    rw [run_of_excess hexcess]
    exact h
  | none =>
    obtain ⟨result, hrun, hleads⟩ := exists_ofResult_of_fields
      (R := fun walk next => walk.cursor.LeadsTo next.cursor) (fun walk => .refl walk.cursor)
      Cursor.LeadsTo.trans (Walk.forward_field P) (fun walk _ _ => .refl walk.cursor) state hexcess
    rw [hrun, scan_ofResult]
    exact h.leadsTo hleads

/-- A scan is finished when a run of it has succeeded, -/
theorem finished_of_ok (h : (scan.run P state).result = .ok ()) :
    (scan.run P state).scan.Finished := by
  cases hexcess : scan.excess? with
  | some fault =>
    rw [run_of_excess hexcess] at h
    cases h
  | none =>
    rcases run_cases P state hexcess with
      ⟨last, hvisits, hend, hrun⟩ | ⟨last, fault, rest, -, -, -, hrun⟩
    · cases hopen : last.nesting.isEmpty with
      | false =>
        obtain ⟨error, hfinish⟩ := finish_of_open hopen
        rw [hrun, hfinish] at h
        cases h
      | true =>
        rw [hrun, finish_of_isEmpty hopen]
        exact ⟨(excess?_of_visits hvisits).trans hexcess, hend, hopen⟩
    · rw [hrun] at h
      cases h

/-- and then a run does nothing. -/
theorem Scan.Finished.run (h : scan.Finished) (P : Policy σ) (state : σ) :
    (scan.run P state).result = .ok () ∧ (scan.run P state).calls = [] ∧
      (scan.run P state).scan = scan ∧ (scan.run P state).state = state := by
  rw [Scan.run, h.excess, Walk.toEnd_of_atEnd h.atEnd]
  dsimp only
  rw [finish_of_isEmpty h.isEmpty]
  exact ⟨rfl, rfl, rfl, rfl⟩

/-- A scan is lost when a run of it has failed at anything but a key, -/
theorem lost_of_error (hin : scan.cursor.In bytes) (h : (scan.run P state).result = .error error)
    (hkey : bytes.keyFault? error.offset ≠ some error.fault) : (scan.run P state).scan.Lost := by
  cases hexcess : scan.excess? with
  | some fault =>
    rw [run_of_excess hexcess]
    exact .tooLong hexcess
  | none =>
    rcases run_cases P state hexcess with
      ⟨last, hvisits, hend, hrun⟩ | ⟨last, fault, rest, hvisits, -, hfield, hrun⟩
    · cases hopen : last.nesting.isEmpty with
      | false =>
        obtain ⟨error, hfinish⟩ := finish_of_open hopen
        rw [hrun, hfinish]
        exact .unclosed hend hopen
      | true =>
        rw [hrun, finish_of_isEmpty hopen] at h
        cases h
    · rw [hrun] at h ⊢
      cases h
      rcases Walk.stale_of_error hfield with ⟨c, hbad⟩ | hstale
      · have hlast := hin.leadsTo (Walk.leadsTo_of_visits hvisits)
        refine absurd ?_ hkey
        show bytes.keyFault? last.cursor.position = some fault
        rw [Bytes.keyFault?, hlast.cursorAt_eq, hbad]
      · exact .stale hstale

/-- and then a run fails and leaves it lost. -/
theorem Scan.Lost.run (h : scan.Lost) (P : Policy σ) (state : σ) :
    (∃ error, (scan.run P state).result = .error error) ∧ (scan.run P state).scan.Lost := by
  cases hexcess : scan.excess? with
  | some fault =>
    rw [run_of_excess hexcess]
    exact ⟨⟨_, rfl⟩, h⟩
  | none =>
    cases h with
    | tooLong hlong => cases hexcess.symm.trans hlong
    | unclosed hend hopen =>
      let start : Walk σ := ⟨scan, state, #[]⟩
      obtain ⟨error, hfinish⟩ := finish_of_open (show start.nesting.isEmpty = false from hopen)
      rw [Scan.run, hexcess, Walk.toEnd_of_atEnd hend]
      dsimp only
      rw [hfinish]
      exact ⟨⟨error, rfl⟩, .unclosed hend hopen⟩
    | stale hstale =>
      -- The frame is never closed, so it is found at the end, if the run comes to it.
      rcases run_cases P state hexcess with
        ⟨last, hvisits, -, hrun⟩ | ⟨last, fault, rest, hvisits, -, hfield, hrun⟩
      · have hlast := Walk.stale_of_visits hstale hvisits
        obtain ⟨error, hfinish⟩ := finish_of_open hlast.isEmpty_eq_false
        rw [hrun, hfinish]
        exact ⟨⟨error, rfl⟩, .stale hlast⟩
      · have hrest := Walk.stale_of_field (P := P) (Walk.stale_of_visits hstale hvisits)
        rw [hfield] at hrest
        rw [hrun]
        exact ⟨⟨_, rfl⟩, .stale hrest⟩

end Run

section After

variable {scan : Scan} {bytes : Bytes}

theorem after_append (scan : Scan) (turns more : List Turn) :
    scan.after (turns ++ more) = (scan.after turns).after more := by
  induction turns generalizing scan with
  | nil => rfl
  | cons turn turns ih => exact ih _

theorem in_after (h : scan.cursor.In bytes) (turns : List Turn) :
    (scan.after turns).cursor.In bytes := by
  induction turns generalizing scan with
  | nil => exact h
  | cons turn turns ih => exact ih (in_run h turn.policy turn.state)

theorem Scan.Finished.after_eq (h : scan.Finished) (turns : List Turn) :
    scan.after turns = scan := by
  induction turns with
  | nil => rfl
  | cons turn turns ih =>
    obtain ⟨-, -, hscan, -⟩ := h.run turn.policy turn.state
    rw [Scan.after, Turn.run, hscan, ih]

theorem Scan.Lost.after (h : scan.Lost) (turns : List Turn) : (scan.after turns).Lost := by
  induction turns generalizing scan with
  | nil => exact h
  | cons turn turns ih => exact ih (h.run turn.policy turn.state).2

end After

/-- **A scan that broke off inside a field never succeeds.**  Take any row of runs of one scan, each
with a policy of its own.  After a run that succeeded all later runs succeed, make no call and change
nothing.  After a run that failed, and not for want of a usable key, all later runs fail. -/
theorem run_again (bytes : Bytes) (limits : Limits) (earlier : List Turn) (turn : Turn)
    (between : List Turn) (later : Turn) :
    ((turn.run ((Scan.ofBytes bytes limits).after earlier)).result = .ok () →
      (later.run ((Scan.ofBytes bytes limits).after (earlier ++ turn :: between))).result = .ok () ∧
      (later.run ((Scan.ofBytes bytes limits).after (earlier ++ turn :: between))).calls = [] ∧
      (later.run ((Scan.ofBytes bytes limits).after (earlier ++ turn :: between))).scan =
        (turn.run ((Scan.ofBytes bytes limits).after earlier)).scan) ∧
    ∀ error, (turn.run ((Scan.ofBytes bytes limits).after earlier)).result = .error error →
      bytes.keyFault? error.offset ≠ some error.fault →
      ∃ again, (later.run ((Scan.ofBytes bytes limits).after
        (earlier ++ turn :: between))).result = .error again := by
  rw [after_append, Scan.after]
  constructor
  · intro hok
    have hfinished : (turn.run ((Scan.ofBytes bytes limits).after earlier)).scan.Finished :=
      finished_of_ok hok
    rw [hfinished.after_eq]
    obtain ⟨hresult, hcalls, hscan, -⟩ := hfinished.run later.policy later.state
    exact ⟨hresult, hcalls, hscan⟩
  · intro error herror hkey
    have hstart : (Scan.ofBytes bytes limits).cursor.In bytes := rfl
    have hlost := lost_of_error (in_after hstart earlier) herror hkey
    exact ((hlost.after between).run later.policy later.state).1

/-- A message is cut off.  A second run reads what there is of it, and cannot leave it. -/
theorem run_again_cut_off :
    (scan .countValues [0x0a, 0x05, 0x08, 0x01] 0).result =
      .error (Fault.endOfStream.located 0 "1") ∧
    ∃ again, ((Turn.mk Nat .countValues 0).run ((Scan.ofBytes [0x0a, 0x05, 0x08, 0x01] {}).after
      [⟨Nat, .countValues, 0⟩])).result = .error again := by
  have hresult : (scan .countValues [0x0a, 0x05, 0x08, 0x01] 0).result =
      .error (Fault.endOfStream.located 0 "1") := by
    rw [scan_of_toEnd rfl, Walk.toEnd_of_error rfl rfl]
    rfl
  obtain ⟨-, hfailed⟩ := run_again [0x0a, 0x05, 0x08, 0x01] {} [] ⟨Nat, .countValues, 0⟩ []
    ⟨Nat, .countValues, 0⟩
  exact ⟨hresult, hfailed _ hresult nofun⟩

end FieldSieve
