import FieldSieve.Proofs.Transport

/-!
# What a run writes down

A journal only grows, and what a field adds to it concerns bytes at or behind the position from
which the field was read (`Walk.adds_field`); so does what a whole run adds (`Walk.adds_toEnd`).

The calls that stand in the journal are the calls on the policy.  A policy that keeps its calls is
led through the same walks and ends up with just those (`scan_recorded`).
-/
namespace FieldSieve

namespace Event

/-- The offset at which an event happened, if it has a place of its own. -/
def offset? : Event → Option Nat
  | keyRead offset _ _ => some offset
  | asked _ _ start _ _ => some start
  | failed error => some error.offset
  | _ => none

/-- The event did not happen in front of a position. -/
def From (position : Nat) (event : Event) : Prop :=
  ∀ offset, event.offset? = some offset → position ≤ offset

theorem From.mono {event : Event} {position earlier : Nat} (h : event.From position)
    (hle : earlier ≤ position) : event.From earlier := by
  intro offset hoffset
  exact Nat.le_trans hle (h offset hoffset)

end Event

namespace Walk

variable {σ : Type} {P : Policy σ} {walk next start : Walk σ} {key : Key} {c d : Cursor}
  {events : List Event} {length : Nat} {answer : Decision} {value : Bytes}

theorem from_keyEvent : (walk.keyEvent key).From walk.cursor.position := by
  rintro offset ⟨⟩
  exact Nat.le_refl _

theorem from_askedEvent (h : walk.Sized key length c d) :
    (walk.askedEvent key d.position length answer).From walk.cursor.position := by
  obtain ⟨bytes, hpasses⟩ := h.passes
  rintro offset ⟨⟩
  exact hpasses.position_le

theorem from_deliveryEvent : (walk.deliveryEvent key value).From walk.cursor.position := by
  rintro offset ⟨⟩

/-- The journal of the second walk is that of the first and events with a property. -/
def Adds (walk : Walk σ) (p : Event → Prop) (next : Walk σ) : Prop :=
  ∃ events : List Event, next.journal = walk.journal ++ events ∧ ∀ event ∈ events, p event

section Adds

variable {p q : Event → Prop} {last : Walk σ} {event : Event}

theorem Adds.refl (walk : Walk σ) : walk.Adds p walk :=
  ⟨[], Array.ext' (by simp), by simp⟩

theorem Adds.trans (h : walk.Adds p next) (hlast : next.Adds p last) : walk.Adds p last := by
  obtain ⟨events, hjournal, hevents⟩ := h
  obtain ⟨more, hmore, hlater⟩ := hlast
  refine ⟨events ++ more, ?_, ?_⟩
  · rw [hmore, hjournal]
    exact Array.ext' (by simp)
  · intro event hevent
    rcases List.mem_append.mp hevent with hevent | hevent
    · exact hevents event hevent
    · exact hlater event hevent

theorem Adds.mono (h : walk.Adds p next) (hpq : ∀ event, p event → q event) :
    walk.Adds q next := by
  obtain ⟨events, hjournal, hevents⟩ := h
  exact ⟨events, hjournal, fun event hevent => hpq event (hevents event hevent)⟩

theorem adds_record (h : p event) : walk.Adds p (walk.record event) :=
  ⟨[event], Array.ext' (by simp [record]), by simpa using h⟩

end Adds

theorem calls_of_journal (h : next.journal = walk.journal ++ events) :
    next.calls = walk.calls ++ events.filterMap Event.call? := by
  simp [calls, h]

theorem calls_inside {state : σ} :
    (walk.inside key c state events).calls = walk.calls ++ events.filterMap Event.call? :=
  calls_of_journal rfl

theorem Adds.isPrefix_journal {p : Event → Prop} (h : walk.Adds p next) :
    walk.journal.toList <+: next.journal.toList := by
  obtain ⟨events, hjournal, -⟩ := h
  exact ⟨events, by simp [hjournal]⟩

/-- No call is taken back. -/
theorem Adds.isPrefix_calls {p : Event → Prop} (h : walk.Adds p next) :
    walk.calls <+: next.calls :=
  h.isPrefix_journal.filterMap Event.call?

theorem journal_close : (stateAfter (close walk)).journal = walk.journal := by
  rw [close_eq]
  split <;> rfl

/-- What a field can write in the journal: nothing, if its key cannot be read, and otherwise its key
and then what its policy is asked and what it is given. -/
inductive FieldEvents (walk : Walk σ) : List Event → Prop
  | badKey {fault : Fault} {c : Cursor} (h : Cursor.readKey walk.cursor = .error fault c) :
    FieldEvents walk []
  | unread {key : Key} {c : Cursor} (h : Cursor.readKey walk.cursor = .ok key c) :
    FieldEvents walk [walk.keyEvent key]
  | scalar {key : Key} {c : Cursor} (value : Bytes)
      (h : Cursor.readKey walk.cursor = .ok key c) (hscalar : key.wireType ≠ .lengthDelimited) :
    FieldEvents walk [walk.keyEvent key, walk.deliveryEvent key value]
  | asked {key : Key} {length : Nat} {c d : Cursor} (answer : Decision)
      (h : walk.Sized key length c d) :
    FieldEvents walk [walk.keyEvent key, walk.askedEvent key d.position length answer]
  | captured {key : Key} {length : Nat} {c d : Cursor} (value : Bytes)
      (h : walk.Sized key length c d) :
    FieldEvents walk [walk.keyEvent key, walk.askedEvent key d.position length .capture,
      walk.deliveryEvent key value]

/-- Every way a field can go leaves one of these rows of events. -/
theorem exists_fieldEvents (P : Policy σ) (walk : Walk σ) :
    ∃ events : List Event, (stateAfter (field P walk)).journal = walk.journal ++ events ∧
      walk.FieldEvents events := by
  have houtcome := fieldOutcome P walk
  generalize field P walk = result at houtcome
  cases houtcome with
  | badKey h => exact ⟨[], Array.ext' (by simp [stateAfter, movedTo]), .badKey h⟩
  | tooDeep h => exact ⟨_, rfl, .unread h⟩
  | noValue h | noLength h => exact ⟨_, rfl, .unread h.readKey⟩
  | missing h | outside h => exact ⟨_, rfl, .asked _ h⟩
  | @scalar key value c d h hread =>
    have hscalar : key.wireType ≠ .lengthDelimited := by
      obtain ⟨behind, hbehind, -⟩ := Item.readBehind_eq_ok_iff.mp hread
      intro hsized
      have hwire := value.isScalar_wireType
      rw [← hbehind.wireType_eq, hsized] at hwire
      cases hwire
    exact ⟨_, journal_close, .scalar value.bytes h.readKey hscalar⟩
  | skipped h | descended h => exact ⟨_, journal_close, .asked _ h⟩
  | captured h => exact ⟨_, journal_close, .captured _ h⟩

/-- The first of them tells of the key. -/
theorem FieldEvents.exists_eq_cons (h : walk.FieldEvents events)
    (hkey : Cursor.readKey walk.cursor = .ok key c) : ∃ more, events = walk.keyEvent key :: more := by
  cases h with
  | badKey hbad => cases hkey.symm.trans hbad
  | unread h | scalar _ h =>
    cases hkey.symm.trans h
    exact ⟨_, rfl⟩
  | asked _ h | captured _ h =>
    cases hkey.symm.trans h.readKey
    exact ⟨_, rfl⟩

/-- What a field adds to the journal concerns bytes at or behind its key. -/
theorem adds_field (P : Policy σ) (walk : Walk σ) :
    walk.Adds (Event.From walk.cursor.position) (stateAfter (field P walk)) := by
  obtain ⟨events, hjournal, hevents⟩ := exists_fieldEvents P walk
  refine ⟨events, hjournal, ?_⟩
  cases hevents with
  | badKey => exact nofun
  | unread => simp [from_keyEvent]
  | scalar => simp [from_keyEvent, from_deliveryEvent]
  | asked _ h => simp [from_keyEvent, from_askedEvent h]
  | captured _ h => simp [from_keyEvent, from_askedEvent h, from_deliveryEvent]

/-- Whatever becomes of a payload, its policy has been asked. -/
theorem journal_of_sized {state : σ} (h : walk.Sized key length c d)
    (hanswer : P.answer key.number walk.nesting.path walk.state = (answer, state)) :
    ∃ more, (stateAfter (field P walk)).journal =
      walk.journal ++
        (walk.keyEvent key :: walk.askedEvent key d.position length answer :: more) := by
  by_cases hthere : length ≤ d.remaining
  · obtain ⟨bytes, e, hpasses, rfl⟩ := Cursor.exists_passes_of_le hthere
    cases answer with
    | skip =>
      rw [field_skipped h hanswer hpasses]
      exact ⟨[], journal_close⟩
    | capture =>
      rw [field_captured h hanswer hpasses]
      exact ⟨[walk.deliveryEvent key bytes], journal_close⟩
    | descend =>
      by_cases hinside : ∀ stop, walk.nesting.innermostEnd? = some stop →
          d.position + bytes.length ≤ stop
      · rw [field_descended h hanswer hthere hinside]
        exact ⟨[], journal_close⟩
      · simp only [Classical.not_forall, Nat.not_le] at hinside
        obtain ⟨stop, hstop, houtside⟩ := hinside
        rw [field_outside h hanswer hthere hstop houtside]
        exact ⟨[], rfl⟩
  · rw [field_missing h hanswer (by omega)]
    exact ⟨[], rfl⟩

theorem calls_prefix_of_sized {state : σ} (h : walk.Sized key length c d)
    (hanswer : P.answer key.number walk.nesting.path walk.state = (answer, state)) :
    walk.calls ++ [.asked key.number walk.nesting.path answer] <+:
      (stateAfter (field P walk)).calls := by
  obtain ⟨more, hjournal⟩ := journal_of_sized h hanswer
  rw [calls_of_journal hjournal, List.prefix_append_right_inj]
  exact ⟨more.filterMap Event.call?, rfl⟩

theorem forward_field (P : Policy σ) : Forward (field P) := by
  intro walk
  have hparts : Forward (read Cursor.readKey >>= fun key =>
      enter walk.cursor.position key >>= fun _ => value P key >>= fun _ => (close : Step σ Unit)) :=
    (forward_read Cursor.forward_readKey).bind fun key => (forward_enter _ key).bind fun _ =>
      (forward_value P key).bind fun _ => forward_close
  rw [field_eq]
  exact hparts walk

/-- Whatever becomes of a field, its key is behind it once it has been read. -/
theorem leadsTo_of_readKey (h : Cursor.readKey walk.cursor = .ok key c) :
    c.LeadsTo (stateAfter (field P walk)).cursor := by
  have hrest : Forward (enter walk.cursor.position key >>= fun _ =>
      value P key >>= fun _ => (close : Step σ Unit)) :=
    (forward_enter _ key).bind fun _ => (forward_value P key).bind fun _ => forward_close
  rw [field_eq, bind_of_ok (read_of_ok h)]
  exact hrest (walk.movedTo c)

/-- A run stays in its buffer and does not go back in it. -/
theorem leadsTo_of_visits (h : Visits P start walk) : start.cursor.LeadsTo walk.cursor := by
  induction h with
  | start => exact .refl _
  | @field walk next _ _ hfield ih =>
    have hforward := forward_field P walk
    rw [hfield] at hforward
    exact ih.trans hforward

theorem position_le_of_field (h : field P walk = .ok () next) :
    walk.cursor.position ≤ next.cursor.position := by
  have hforward := forward_field P walk
  rw [h] at hforward
  exact Cursor.LeadsTo.position_le hforward

/-- A field that is read moves the position. -/
theorem position_lt_of_field (h : field P walk = .ok () next) :
    walk.cursor.position < next.cursor.position := by
  have hforward := forward_field P walk
  have hshorter := remaining_lt_of_field h
  rw [h] at hforward
  obtain ⟨n, fits, hnext⟩ := hforward
  rw [show next.cursor = walk.cursor.advance n fits from hnext] at hshorter ⊢
  rw [Cursor.remaining_advance] at hshorter
  rw [Cursor.position_advance]
  omega

theorem adds_of_visits (h : Visits P start walk) :
    start.Adds (Event.From start.cursor.position) walk ∧
      start.cursor.position ≤ walk.cursor.position := by
  induction h with
  | start => exact ⟨.refl start, Nat.le_refl _⟩
  | @field walk next _ _ hfield ih =>
    obtain ⟨hadds, hle⟩ := ih
    have hnext := adds_field P walk
    rw [hfield] at hnext
    exact ⟨hadds.trans (hnext.mono fun _ h => h.mono hle),
      Nat.le_trans hle (position_le_of_field hfield)⟩

/-- What a run adds to the journal concerns bytes at or behind its start. -/
theorem adds_toEnd (P : Policy σ) (start : Walk σ) :
    start.Adds (Event.From start.cursor.position) (stateAfter (toEnd P start)) := by
  rcases toEnd_cases P start with
    ⟨last, hvisits, -, hrun⟩ | ⟨last, fault, rest, hvisits, -, hfield, hrun⟩
  · rw [hrun]
    exact (adds_of_visits hvisits).1
  · rw [hrun]
    obtain ⟨hadds, hle⟩ := adds_of_visits hvisits
    have hlast := adds_field P last
    rw [hfield] at hlast
    refine hadds.trans ((hlast.mono fun _ h => h.mono hle).trans (adds_record ?_))
    rintro offset ⟨⟩
    exact hle

/-- All that stands in the journal of a run has been added to it. -/
theorem forall_of_adds {bytes : Bytes} {state : σ} {limits : Limits} {p : Event → Prop}
    (h : (fresh bytes state limits).Adds p walk) : ∀ event ∈ walk.journal.toList, p event := by
  obtain ⟨events, hjournal, hevents⟩ := h
  intro event hevent
  rw [hjournal] at hevent
  exact hevents event (by simpa [fresh] using hevent)

/-- What a field leaves in the journal, the run that reads it leaves there. -/
theorem journal_prefix_toEnd (hmore : walk.cursor.atEnd = false) :
    (stateAfter (field P walk)).journal.toList <+: (stateAfter (toEnd P walk)).journal.toList := by
  cases hfield : field P walk with
  | ok done next =>
    rw [toEnd_of_ok hmore hfield]
    exact (adds_toEnd P next).isPrefix_journal
  | error fault rest =>
    rw [toEnd_of_error hmore hfield]
    exact (adds_record (p := fun _ => True) trivial).isPrefix_journal

/-- The calls made at a field are calls of the run that reads it. -/
theorem calls_prefix_toEnd (hmore : walk.cursor.atEnd = false) :
    (stateAfter (field P walk)).calls <+: (stateAfter (toEnd P walk)).calls :=
  (journal_prefix_toEnd hmore).filterMap Event.call?

/-- The walk of a policy that keeps its calls. -/
def recorded (walk : Walk σ) : Walk (σ × Array Call) :=
  { walk with state := (walk.state, walk.calls.toArray) }

theorem recorded_record {event : Event} (h : event.call? = none) :
    (walk.record event).recorded = walk.recorded.record event := by
  simp only [recorded, calls_record h]
  rfl

/-- A policy that keeps its calls is led through the same walks. -/
def recording (P : Policy σ) : Transport P P.recorded where
  image := recorded
  onCursor := id
  excused _ := False
  shift := 0
  cursor_image _ := rfl
  image_movedTo _ _ := rfl
  position _ := rfl
  more _ h := h
  readKey := .refl _ _
  readVarint := .refl _ _
  readBytes _ := .refl _ _
  skip _ := .refl _ _
  require _ := .refl _ _
  enter offset key := by
    apply carries_enter_of
    · exact fun _ => rfl
    · exact fun _ => rfl
    · intro walk
      simp [entered, recorded, calls, Event.call?]
  leave := .of_eq fun _ => rfl
  deliver key value := by
    apply Carries.of_eq
    intro walk
    simp [deliver, mapState, recorded, calls, Policy.recorded, Event.call?]
  ask key length := by
    apply Carries.of_eq
    intro walk
    simp [ask, mapState, recorded, calls, Policy.recorded, Event.call?]
  descend length := by
    apply Carries.of_eq
    intro walk
    simp only [descend]
    rw [show walk.recorded.nesting = walk.nesting from rfl,
      show walk.recorded.cursor = walk.cursor from rfl]
    split
    · rfl
    · cases walk.nesting.setEnd (walk.cursor.position + length) <;> rfl
  close := .of_eq (close_image (fun _ => rfl) fun _ => rfl)

end Walk

section Scan

variable {σ : Type} {P : Policy σ} {bytes : Bytes} {state : σ} {limits : Limits} {walk : Walk σ}

/-- The events of a scan are those in the journal where its run ends, and behind them at most that
it was completed. -/
theorem events_scan (hexcess : (Scan.ofBytes bytes limits).excess? = none)
    (hvisits : Walk.Visits P (.fresh bytes state limits) walk) :
    ∃ last, (scan P bytes state limits).events =
        (stateAfter (Walk.toEnd P walk)).journal.toList ++ last ∧
      ∀ event ∈ last, ∃ length visited, event = .completed length visited := by
  rw [scan_of_toEnd hexcess, Walk.toEnd_of_visits hvisits]
  cases Walk.toEnd P walk with
  | error error rest => exact ⟨[], by simp [Run.ofResult, stateAfter], nofun⟩
  | ok done last =>
    dsimp only
    rw [Walk.finish]
    split
    · refine ⟨[.completed last.cursor.size last.visited], ?_, by simp⟩
      simp [Run.ofResult, Walk.record, stateAfter]
    · exact ⟨[], by simp [Run.ofResult, stateAfter], nofun⟩

theorem journal_prefix_scan (hexcess : (Scan.ofBytes bytes limits).excess? = none)
    (hvisits : Walk.Visits P (.fresh bytes state limits) walk) :
    (stateAfter (Walk.toEnd P walk)).journal.toList <+: (scan P bytes state limits).events := by
  obtain ⟨last, hevents, -⟩ := events_scan hexcess hvisits
  exact ⟨last, hevents.symm⟩

/-- What happened before a walk that a scan visits is what its run begins with, and the rest is what
is added from there to the end. -/
theorem exists_events_scan {p : Event → Prop} (hexcess : (Scan.ofBytes bytes limits).excess? = none)
    (hvisits : Walk.Visits P (.fresh bytes state limits) walk)
    (hadds : walk.Adds p (stateAfter (Walk.toEnd P walk)))
    (hcompleted : ∀ length visited, p (.completed length visited)) :
    ∃ events, (scan P bytes state limits).events = walk.journal.toList ++ events ∧
      ∀ event ∈ events, p event := by
  obtain ⟨last, hevents, hlast⟩ := events_scan hexcess hvisits
  obtain ⟨events, hjournal, hadded⟩ := hadds
  refine ⟨events ++ last, ?_, List.forall_mem_append.mpr ⟨hadded, fun event hevent => ?_⟩⟩
  · rw [hevents, hjournal, Array.toList_appendList, List.append_assoc]
  · obtain ⟨length, visited, rfl⟩ := hlast event hevent
    exact hcompleted length visited

end Scan

/-- The run of a policy that keeps its calls. -/
def Run.recorded {σ : Type} (run : Run σ) : Run (σ × Array Call) :=
  { run with state := (run.state, run.calls.toArray) }

/-- The calls of a run are those that its policy receives: one that keeps them goes through the same
run and has kept just these. -/
theorem scan_recorded {σ : Type} (P : Policy σ) (bytes : Bytes) (state : σ) (limits : Limits) :
    scan P.recorded bytes (state, #[]) limits = (scan P bytes state limits).recorded := by
  cases hexcess : (Scan.ofBytes bytes limits).excess? with
  | some fault =>
    rw [scan_of_excess hexcess, scan_of_excess hexcess]
    rfl
  | none =>
    rcases scan_cases P bytes state limits hexcess with
      ⟨last, hvisits, hend, -, hempty, hscan⟩ | ⟨last, fault, rest, hvisits, hmore, hfield, hscan⟩
    · have hrun : Walk.toEnd P.recorded (.fresh bytes (state, #[]) limits) = .ok () last.recorded :=
        ((Walk.recording P).toEnd_image hvisits).trans (Walk.toEnd_of_atEnd hend)
      rw [hscan, scan_of_toEnd_ok hexcess hrun hempty, ← Walk.recorded_record rfl]
      rfl
    · have hrun : Walk.toEnd P.recorded (.fresh bytes (state, #[]) limits) =
          Walk.broken last.cursor.position fault rest.recorded :=
        (Walk.recording P).toEnd_image_of_error hvisits hmore hfield not_false
      rw [hscan, scan_of_toEnd_error hexcess hrun, ← Walk.recorded_record rfl]
      rfl

end FieldSieve
