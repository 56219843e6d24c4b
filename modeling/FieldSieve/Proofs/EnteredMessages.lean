import FieldSieve.Proofs.Journal

/-!
# The messages that a run enters

A message that is entered takes up a stretch of the buffer, from the first byte of its payload to
the end that its length declares.  The journal tells of these stretches (`Run.messagesAt`), and the
open frames tell of them in another way.  The two agree: whenever a field begins, the open frames
are the messages whose stretch holds the position, outermost first (`Walk.Located`).

A message is opened where the position is, behind all messages opened before, so the stretches are
met in the order of their starts.  A frame is closed when the position comes to its end.  No frame
that is still open has ended before, and none that is closed can begin again.
-/
namespace FieldSieve

/-- A message that was entered: its number and the stretch of the buffer that its fields take up. -/
structure EnteredMessage where
  number : UInt64
  start : Nat
  stop : Nat
  deriving DecidableEq, Repr

namespace EnteredMessage

/-- The frame that is open while the message is walked. -/
def frame (message : EnteredMessage) : Frame := ⟨message.number, some message.stop⟩

/-- The byte at an offset is in the message. -/
def holds (message : EnteredMessage) (offset : Nat) : Bool :=
  message.start ≤ offset && offset < message.stop

variable {message : EnteredMessage} {offset position : Nat}

theorem holds_iff : message.holds offset = true ↔ message.start ≤ offset ∧ offset < message.stop := by
  simp [holds]

/-- Further on, a message that has begun holds the position until it stops. -/
theorem holds_of_begun (h : message.start ≤ position) :
    message.holds position = decide (position < message.stop) := by
  simp [holds, h]

end EnteredMessage

/-- The message that is to be entered, if that is what the policy was asked about and answered. -/
def Event.entered? : Event → Option EnteredMessage
  | asked number _ start length .descend => some ⟨number, start, start + length⟩
  | _ => none

/-- No message was entered in front of a position, nor at it. -/
def Event.EntersBehind (position : Nat) (event : Event) : Prop :=
  ∀ message, event.entered? = some message → position < message.start

/-- The messages that a run was to enter, in this order.  One that cannot be entered is the last, and
no field is read in it. -/
def Run.messages {σ : Type} (run : Run σ) : List EnteredMessage :=
  run.events.filterMap Event.entered?

/-- The messages around an offset. -/
def Run.messagesAt {σ : Type} (run : Run σ) (offset : Nat) : List EnteredMessage :=
  run.messages.filter (·.holds offset)

theorem Event.From.entersBehind {event : Event} {position earlier : Nat} (h : event.From position)
    (hlt : earlier < position) : event.EntersBehind earlier := by
  intro message hmessage
  cases event with
  | asked number parent start length answer =>
    have hstart : position ≤ start := h start rfl
    cases answer with
    | skip | capture => cases hmessage
    | descend =>
      cases hmessage
      exact Nat.lt_of_lt_of_le hlt hstart
  | keyRead | delivered | failed | completed => cases hmessage

/-- Where none of a row of ends in order lies in front of a position, those that lie at it come
first. -/
theorem dropWhile_eq_filter {messages : List EnteredMessage} {position : Nat}
    (hsorted : messages.Pairwise fun inner outer => inner.stop ≤ outer.stop)
    (hle : ∀ message ∈ messages, position ≤ message.stop) :
    messages.dropWhile (fun message => message.stop == position) =
      messages.filter fun message => position < message.stop := by
  induction messages with
  | nil => rfl
  | cons first messages ih =>
    rw [List.pairwise_cons] at hsorted
    rw [List.forall_mem_cons] at hle
    by_cases hfirst : first.stop = position
    · rw [List.dropWhile_cons_of_pos (by simpa using hfirst),
        List.filter_cons_of_neg (by simp [hfirst]), ih hsorted.2 hle.2]
    · have hlt : position < first.stop := Nat.lt_of_le_of_ne hle.1 (Ne.symm hfirst)
      rw [List.dropWhile_cons_of_neg (by simpa using hfirst), eq_comm, List.filter_eq_self,
        List.forall_mem_cons]
      refine ⟨by simpa using hlt, fun message hmessage => ?_⟩
      exact decide_eq_true (Nat.lt_of_lt_of_le hlt (hsorted.1 message hmessage))

namespace Walk

variable {σ : Type} {P : Policy σ} {walk next closing : Walk σ} {key : Key} {c d : Cursor}
  {events : List Event} {length : Nat} {stops : List Nat} {bytes : Bytes} {state : σ}
  {limits : Limits} {around : List EnteredMessage}

/-- The messages entered so far. -/
def messages (walk : Walk σ) : List EnteredMessage := walk.journal.toList.filterMap Event.entered?

theorem messages_of_journal (h : next.journal = walk.journal ++ events) :
    next.messages = walk.messages ++ events.filterMap Event.entered? := by
  simp [messages, h]

/-- Whenever a field begins, the open frames are the messages that hold the position, and messages
were entered in the order of their starts. -/
structure Located (walk : Walk σ) : Prop where
  frames : walk.nesting.frames =
    (walk.messages.filter (·.holds walk.cursor.position)).map EnteredMessage.frame
  begun : ∀ message ∈ walk.messages, message.start ≤ walk.cursor.position
  inOrder : walk.messages.Pairwise (·.start < ·.start)

/-- Open frames end in order. -/
theorem Stops.of_frames (h : walk.Stops stops)
    (hframes : walk.nesting.frames = around.map EnteredMessage.frame) :
    stops = around.reverse.map EnteredMessage.stop ∧
      around.reverse.Pairwise fun inner outer => inner.stop ≤ outer.stop := by
  have hstops : stops = around.reverse.map EnteredMessage.stop := by
    have hends : stops.map some = around.reverse.map (some ∘ EnteredMessage.stop) := by
      rw [← h.ends, ← List.reverse_inj, ← Nesting.map_finish_frames, hframes, List.map_map,
        ← List.map_reverse, List.reverse_reverse]
      rfl
    rw [← List.map_map] at hends
    exact (List.map_inj_right fun _ _ => Option.some.inj).mp hends
  refine ⟨hstops, ?_⟩
  rw [← List.pairwise_map, ← hstops]
  exact h.sorted

/-- Closing frames leaves those of the messages that stop further on. -/
theorem frames_settle (h : walk.Stops stops)
    (hframes : walk.nesting.frames = around.map EnteredMessage.frame)
    (hle : ∀ stop ∈ stops, walk.cursor.position ≤ stop) :
    walk.settle.nesting.frames =
      (around.filter fun message => walk.cursor.position < message.stop).map
        EnteredMessage.frame := by
  obtain ⟨hstops, hsorted⟩ := h.of_frames hframes
  have hbehind : ∀ message ∈ around.reverse, walk.cursor.position ≤ message.stop := by
    intro message hmessage
    exact hle _ (hstops ▸ List.mem_map_of_mem hmessage)
  -- Innermost first, the frames that are closed come first.
  have hclosed : around.reverse.drop
      (around.reverse.takeWhile fun message => message.stop == walk.cursor.position).length =
        (around.filter fun message => walk.cursor.position < message.stop).reverse := by
    rw [Nesting.drop_length_takeWhile, dropWhile_eq_filter hsorted hbehind, List.filter_reverse]
  have hcount : (walk.nesting.ends.takeWhile (· == some walk.cursor.position)).length =
      (around.reverse.takeWhile fun message => message.stop == walk.cursor.position).length := by
    have hpred : (fun message : EnteredMessage => message.stop == walk.cursor.position) =
        (· == some walk.cursor.position) ∘ some ∘ EnteredMessage.stop := by
      funext message
      exact Bool.eq_iff_iff.mpr (by simp)
    rw [h.ends, hstops, List.map_map, List.takeWhile_map, List.length_map, hpred]
  show (walk.nesting.drop _).frames = _
  rw [Nesting.frames_drop, hcount, hframes, List.length_map, ← List.map_take]
  rw [List.drop_reverse, List.reverse_inj] at hclosed
  rw [hclosed]

/-- Further on, the messages around a position are those that have not stopped. -/
theorem filter_stop_of_begun {messages : List EnteredMessage} {position later : Nat}
    (hbegun : ∀ message ∈ messages, message.start ≤ position) (hle : position ≤ later) :
    (messages.filter (·.holds position)).filter (later < ·.stop) =
      messages.filter (·.holds later) := by
  rw [List.filter_filter]
  apply List.filter_congr
  intro message hmessage
  have hstart := hbegun message hmessage
  rw [EnteredMessage.holds_of_begun hstart, EnteredMessage.holds_of_begun (by omega)]
  exact Bool.eq_iff_iff.mpr (by simp; omega)

theorem located_fresh : (fresh bytes state limits).Located :=
  ⟨rfl, nofun, .nil⟩

/-- Where the frames to be closed are all the messages around the position, closing them leaves
those that hold it. -/
theorem located_of_close (h : closing.Stops stops)
    (hframes : closing.nesting.frames = around.map EnteredMessage.frame)
    (haround : around.filter (closing.cursor.position < ·.stop) =
      closing.messages.filter (·.holds closing.cursor.position))
    (hbegun : ∀ message ∈ closing.messages, message.start ≤ closing.cursor.position)
    (hinOrder : closing.messages.Pairwise (·.start < ·.start))
    (hclose : close closing = .ok () next) : next.Located := by
  obtain ⟨rfl, hle⟩ := le_of_close h hclose
  refine ⟨?_, hbegun, hinOrder⟩
  rw [frames_settle h hframes hle, haround]
  rfl

/-- A field that opens no message keeps the frames where they are. -/
theorem Located.past (h : walk.Located) (hstops : walk.Stops stops)
    (hpasses : walk.cursor.Passes bytes d) {count : Nat}
    (hevents : events.filterMap Event.entered? = [])
    (hclose : close (walk.past d state count events) = .ok () next) : next.Located := by
  have hjournal : (walk.past d state count events).journal = walk.journal ++ events := rfl
  have hmessages : (walk.past d state count events).messages = walk.messages := by
    rw [messages_of_journal hjournal, hevents, List.append_nil]
  have hle := hpasses.position_le
  refine located_of_close (hstops.past hpasses) h.frames ?_ ?_ ?_ hclose
  · rw [hmessages]
    exact filter_stop_of_begun h.begun hle
  · rw [hmessages]
    exact fun message hmessage => Nat.le_trans (h.begun message hmessage) hle
  · rw [hmessages]
    exact h.inOrder

/-- The frames stay where the messages are. -/
theorem located_of_field (hahead : walk.Ahead length) (h : walk.Located)
    (hfield : field P walk = .ok () next) : next.Located := by
  obtain ⟨stops, hstops, -, -⟩ := hahead
  have houtcome := fieldOutcome P walk
  generalize field P walk = result at houtcome hfield
  cases houtcome with
  | badKey | tooDeep | noValue | noLength | missing | outside => cases hfield
  | scalar hkeyed hread =>
    obtain ⟨front, hfront⟩ := hkeyed.passes
    obtain ⟨behind, -, hbehind⟩ := Item.readBehind_eq_ok_iff.mp hread
    exact h.past hstops (hfront.trans hbehind) rfl hfield
  | skipped hsized _ hthere | captured hsized _ hthere =>
    obtain ⟨front, hfront⟩ := hsized.passes
    exact h.past hstops (hfront.trans hthere) rfl hfield
  | @descended key inner c d state hsized hanswer hthere hinside =>
    obtain ⟨front, hpasses⟩ := hsized.passes
    have hlt := hsized.position_lt
    -- The new message begins behind all others and ends in front of those that are open.
    let entered : EnteredMessage := ⟨key.number, d.position, d.position + inner⟩
    let closing := (walk.past d state 1 [walk.keyEvent key,
      walk.askedEvent key d.position inner .descend]).opened key.number (d.position + inner)
    have hjournal : closing.journal = walk.journal ++ [walk.keyEvent key,
      walk.askedEvent key d.position inner .descend] := rfl
    have hmessages : closing.messages = walk.messages ++ [entered] := messages_of_journal hjournal
    have hopened : closing.Stops ((d.position + inner) :: stops) :=
      (hstops.past hpasses).opened (hstops.le_of_innermostEnd? hinside)
        (Nat.add_le_add_left hthere _)
    have hframes : closing.nesting.frames =
        (walk.messages.filter (·.holds walk.cursor.position) ++ [entered]).map
          EnteredMessage.frame := by
      rw [List.map_append, ← h.frames]
      exact Nesting.frames_push
    refine located_of_close hopened hframes ?_ ?_ ?_ hfield
    · have hnew : ([entered].filter fun message => d.position < message.stop) =
          [entered].filter (·.holds d.position) := by
        apply List.filter_congr
        rintro message hmessage
        rw [List.mem_singleton.mp hmessage]
        have hstart : entered.start ≤ d.position := Nat.le_refl _
        exact (EnteredMessage.holds_of_begun hstart).symm
      show List.filter (fun message => decide (d.position < message.stop)) _ =
        closing.messages.filter (·.holds d.position)
      rw [hmessages, List.filter_append, List.filter_append,
        filter_stop_of_begun h.begun (Nat.le_of_lt hlt), hnew]
    · rw [hmessages]
      refine List.forall_mem_append.mpr ⟨fun message hmessage => ?_, ?_⟩
      · exact Nat.le_trans (h.begun message hmessage) (Nat.le_of_lt hlt)
      · exact List.forall_mem_singleton.mpr (Nat.le_refl d.position)
    · rw [hmessages]
      refine List.pairwise_append.mpr ⟨h.inOrder, List.pairwise_singleton .., ?_⟩
      intro message hmessage last hlast
      rw [List.mem_singleton.mp hlast]
      exact Nat.lt_of_le_of_lt (h.begun message hmessage) hlt

theorem located_of_visits (h : Visits P (fresh bytes state limits) walk) : walk.Located := by
  induction h with
  | start => exact located_fresh
  | field hvisits _ hfield ih =>
    exact located_of_field (ahead_of_visits (ahead_fresh bytes state limits) hvisits) ih hfield

/-- The messages around the position lie in one another, outermost first. -/
theorem Located.nested (h : walk.Located) (hstops : walk.Stops stops) :
    (walk.messages.filter (·.holds walk.cursor.position)).Pairwise fun outer inner =>
      outer.start < inner.start ∧ inner.stop ≤ outer.stop := by
  obtain ⟨-, hsorted⟩ := hstops.of_frames h.frames
  exact (h.inOrder.sublist List.filter_sublist).and (List.pairwise_reverse.mp hsorted)

theorem Located.path_eq (h : walk.Located) : walk.nesting.path.toList =
    (walk.messages.filter (·.holds walk.cursor.position)).map EnteredMessage.number := by
  rw [← Nesting.map_number_frames, h.frames, List.map_map]
  rfl

/-- The ends of the open frames are those of the messages around the position. -/
theorem Located.mem_stops (h : walk.Located) (hstops : walk.Stops stops) {stop : Nat} :
    stop ∈ stops ↔ ∃ message ∈ walk.messages.filter (·.holds walk.cursor.position),
      message.stop = stop := by
  rw [(hstops.of_frames h.frames).1, List.mem_map]
  simp only [List.mem_reverse]

/-- A field enters no message in front of it, and none at its key. -/
theorem adds_entersBehind (P : Policy σ) (walk : Walk σ) :
    walk.Adds (Event.EntersBehind walk.cursor.position) (stateAfter (field P walk)) := by
  have hkey : ∀ {key : Key}, (walk.keyEvent key).EntersBehind walk.cursor.position := nofun
  have hdelivery : ∀ {key : Key} {value : Bytes},
      (walk.deliveryEvent key value).EntersBehind walk.cursor.position := nofun
  have hasked : ∀ {key : Key} {length : Nat} {c d : Cursor} {answer : Decision},
      walk.Sized key length c d →
      (walk.askedEvent key d.position length answer).EntersBehind walk.cursor.position := by
    intro key length c d answer h message hmessage
    cases answer with
    | skip | capture => cases hmessage
    | descend =>
      cases hmessage
      exact h.position_lt
  obtain ⟨events, hjournal, hevents⟩ := exists_fieldEvents P walk
  refine ⟨events, hjournal, ?_⟩
  cases hevents with
  | badKey => exact nofun
  | unread => simp [hkey]
  | scalar => simp [hkey, hdelivery]
  | asked _ h => simp [hkey, hasked h]
  | captured _ h => simp [hkey, hasked h, hdelivery]

/-- So does what a run reads from there. -/
theorem adds_entersBehind_toEnd (hmore : walk.cursor.atEnd = false) :
    walk.Adds (Event.EntersBehind walk.cursor.position) (stateAfter (toEnd P walk)) := by
  have hadds := adds_entersBehind P walk
  cases hfield : field P walk with
  | ok done next =>
    rw [hfield] at hadds
    rw [toEnd_of_ok hmore hfield]
    have hlt : walk.cursor.position < next.cursor.position := position_lt_of_field hfield
    exact hadds.trans ((adds_toEnd P next).mono fun _ h => h.entersBehind hlt)
  | error fault rest =>
    rw [hfield] at hadds
    rw [toEnd_of_error hmore hfield]
    exact hadds.trans (adds_record nofun)

end Walk

section Scan

variable {σ : Type} {P : Policy σ} {bytes : Bytes} {state : σ} {limits : Limits} {walk : Walk σ}

/-- The messages that a run enters around a field are those entered before it that hold its key. -/
theorem messagesAt_scan (hexcess : (Scan.ofBytes bytes limits).excess? = none)
    (hvisits : Walk.Visits P (.fresh bytes state limits) walk) (hmore : walk.cursor.atEnd = false) :
    (scan P bytes state limits).messagesAt walk.cursor.position =
      walk.messages.filter (·.holds walk.cursor.position) := by
  obtain ⟨events, hevents, hlater⟩ :=
    exists_events_scan hexcess hvisits (Walk.adds_entersBehind_toEnd hmore) nofun
  have hnone : (events.filterMap Event.entered?).filter (·.holds walk.cursor.position) = [] := by
    apply List.filter_eq_nil_iff.mpr
    intro message hmessage hholds
    obtain ⟨event, hevent, hentered⟩ := List.mem_filterMap.mp hmessage
    have hlt := hlater event hevent message hentered
    have hle := (EnteredMessage.holds_iff.mp hholds).1
    omega
  rw [Run.messagesAt, Run.messages, hevents, List.filterMap_append, List.filter_append, hnone,
    List.append_nil]
  rfl

end Scan
end FieldSieve
