import FieldSieve.Proofs.OpenFrames
import FieldSieve.Proofs.Spelling

/-!
# Crossing a message

A run never cuts the buffer, so a message is no more to it than a stretch of bytes in front of an
end.  `Walk.Within` says that the position is at the start of such a stretch: some bytes come next,
and the innermost open frame ends behind them.  Then the run and the grammar agree:

* where the bytes are fields as they stand, and the policy gives the answers that made them these,
  the run crosses them and comes to stand behind them with the frames that it had before
  (`Walk.crosses_of_spells`);
* where a run comes to the end of the buffer at all, the bytes were such fields
  (`Walk.spelled_of_toEnd`).

A field may be read past the end of its message, but then closing frames fails; a field that could
be closed is a piece of the stretch (`Walk.Within.of_close`).  That an empty message closes its own
frame and any that end with it needs no case: it is crossed in no step.
-/
namespace FieldSieve

namespace Nesting

variable {nesting : Nesting} {number : UInt64} {finish : Option Nat}

theorem drop_zero : nesting.drop 0 = nesting := by
  apply Nesting.ext
  rw [frames_drop, Nat.sub_zero, List.take_length]

/-- No frame is closed where the innermost one ends elsewhere. -/
theorem closeAt_of_head?_ne {position : Nat} (h : nesting.ends.head? ≠ some (some position)) :
    nesting.closeAt position = nesting := by
  rw [closeAt]
  cases hends : nesting.ends with
  | nil => exact drop_zero
  | cons first outer =>
    rw [hends] at h
    rw [List.takeWhile_cons_of_neg (by simpa using h)]
    exact drop_zero

/-- A frame that ends at the position is closed with all others that do. -/
theorem closeAt_push {position : Nat} :
    (nesting.push number (some position)).closeAt position = nesting.closeAt position := by
  apply Nesting.ext
  rw [closeAt, closeAt, frames_drop, frames_drop, frames_push,
    show (nesting.push number (some position)).ends = some position :: nesting.ends from rfl,
    List.takeWhile_cons_of_pos (by simp), List.length_cons, List.length_append,
    List.length_singleton, Nat.add_sub_add_right, List.take_append_of_le_length (Nat.sub_le ..)]

end Nesting

namespace Walk

open Node

variable {σ : Type}

/-- The walk has `bytes` before it, up to the end of the innermost message, and then `rest`. -/
structure Within (walk : Walk σ) (bytes rest : Bytes) (stops : List Nat) : Prop
    extends Stops walk stops where
  unread : walk.cursor.unread = bytes ++ rest
  finish : stops = [] ∧ rest = [] ∨ stops.head? = some (walk.cursor.position + bytes.length)

/-- Where the fields of a message need no more frames than are allowed. -/
def Allows (walk : Walk σ) (height : Nat) : Prop :=
  ∀ limit, walk.limits.maxDepth = some limit → walk.nesting.depth + height ≤ limit

/-- A run goes over `bytes` as if they were passed at once: it comes to stand behind them in the
same message, with the policy's state, the count and the journal moved on. -/
def Crosses (P : Policy σ) (walk : Walk σ) (bytes : Bytes) (last : σ) (count : Nat)
    (events : List Event) : Prop :=
  ∃ d, walk.cursor.Passes bytes d ∧
    toEnd P walk.settle = toEnd P (walk.past d last count events).settle

variable {P : Policy σ} {walk next : Walk σ} {stops : List Nat} {bytes rest piece more : Bytes}
  {c d : Cursor} {state last : σ} {events moreEvents : List Event} {number : UInt64}
  {count moreCount : Nat}

theorem settle_of_head?_ne
    (h : walk.nesting.ends.head? ≠ some (some walk.cursor.position)) : walk.settle = walk := by
  rw [settle, Nesting.closeAt_of_head?_ne h]

theorem settle_of_lt (h : walk.Stops stops) (hlt : ∀ stop ∈ stops, walk.cursor.position < stop) :
    walk.settle = walk := by
  apply settle_of_head?_ne
  intro hhead
  rw [h.ends, List.head?_map] at hhead
  obtain ⟨stop, hstop, ⟨⟩⟩ := Option.map_eq_some_iff.mp hhead
  exact Nat.lt_irrefl _ (hlt _ (List.mem_of_mem_head? hstop))

/-- A frame that should have ended before is not closed. -/
theorem close_of_overrun {stop : Nat} (hhead : walk.nesting.ends.head? = some (some stop))
    (hlt : stop < walk.cursor.position) : close walk = .error .messageOverrun walk := by
  have hsettle : walk.settle = walk := by
    apply settle_of_head?_ne
    rw [hhead]
    simp; omega
  have hover : walk.nesting.overrunAt walk.cursor.position = true := by
    rw [Nesting.overrunAt, hhead]
    simpa using hlt
  rw [close_eq, hsettle, if_pos hover]

/-- Where one of the frames should have ended before, none is closed. -/
theorem close_of_lt {stop : Nat} (h : walk.Stops stops) (hstop : stop ∈ stops)
    (hlt : stop < walk.cursor.position) : close walk = .error .messageOverrun walk := by
  cases stops with
  | nil => cases hstop
  | cons first outer =>
    have hfirst : first ≤ stop := by
      rcases List.mem_cons.mp hstop with rfl | hstop
      · exact Nat.le_refl _
      · exact (List.pairwise_cons.mp h.sorted).1 stop hstop
    have hhead : walk.nesting.ends.head? = some (some first) := by
      rw [h.ends]
      rfl
    exact close_of_overrun hhead (Nat.lt_of_le_of_lt hfirst hlt)

theorem eq_of_close_error {fault : Fault} {rest : Walk σ} (h : walk.Stops stops)
    (hclose : close walk = .error fault rest) : fault = .messageOverrun ∧ rest = walk := by
  by_cases hle : ∀ stop ∈ stops, walk.cursor.position ≤ stop
  · cases (close_of_le h hle).symm.trans hclose
  · simp only [Classical.not_forall, Nat.not_le] at hle
    obtain ⟨stop, hstop, hlt⟩ := hle
    cases (close_of_lt h hstop hlt).symm.trans hclose
    exact ⟨rfl, rfl⟩

/-- Behind the length of a message that lies inside all others, no frame should have ended before. -/
theorem close_opened {number : UInt64} {finish : Nat} (h : walk.Stops stops)
    (hinside : ∀ stop ∈ stops, finish ≤ stop) (hthere : finish ≤ walk.cursor.size)
    (hle : walk.cursor.position ≤ finish) :
    close (walk.opened number finish) = .ok () (walk.opened number finish).settle := by
  refine close_of_le (h.opened hinside hthere) (List.forall_mem_cons.mpr ⟨hle, ?_⟩)
  exact fun stop hstop => Nat.le_trans hle (hinside stop hstop)

theorem Within.le_stop (h : walk.Within bytes rest stops) :
    ∀ stop ∈ stops, walk.cursor.position + bytes.length ≤ stop := by
  rcases h.finish with ⟨rfl, -⟩ | hhead
  · simp
  · cases stops with
    | nil => cases hhead
    | cons first outer =>
      cases hhead
      intro stop hstop
      rcases List.mem_cons.mp hstop with rfl | hstop
      · exact Nat.le_refl _
      · exact (List.pairwise_cons.mp h.sorted).1 stop hstop

/-- A payload that stands in the innermost message ends in it. -/
theorem Within.le_innermostEnd? {value : Bytes} (h : walk.Within (piece ++ value ++ more) rest stops)
    (hpasses : walk.cursor.Passes piece d) :
    ∀ stop, walk.nesting.innermostEnd? = some stop → d.position + value.length ≤ stop := by
  intro stop hstop
  rw [h.innermostEnd?_eq] at hstop
  have := h.le_stop stop (List.mem_of_mem_head? hstop)
  rw [List.length_append, List.length_append] at this
  rw [hpasses.position]
  omega

/-- With bytes before it, a walk stands inside every open message. -/
theorem Within.settle_eq (h : walk.Within bytes rest stops) (hbytes : bytes ≠ []) :
    walk.settle = walk ∧ walk.cursor.atEnd = false := by
  have hpos := List.length_pos_iff.mpr hbytes
  constructor
  · apply settle_of_lt h.toStops
    intro stop hstop
    have := h.le_stop stop hstop
    omega
  · rw [← Bool.not_eq_true, Cursor.atEnd_iff, h.unread]
    simp [hbytes]

/-- Behind a piece of the bytes before it, a walk has the other bytes before it. -/
theorem Within.past (h : walk.Within (piece ++ more) rest stops)
    (hpasses : walk.cursor.Passes piece d) :
    (walk.past d state count events).Within more rest stops where
  toStops := h.toStops.past hpasses
  unread := by
    have hunread : piece ++ d.unread = piece ++ (more ++ rest) := by
      rw [← List.append_assoc, ← h.unread, hpasses.unread]
    exact List.append_cancel_left hunread
  finish := by
    have hposition : (walk.past d state count events).cursor.position + more.length =
        walk.cursor.position + (piece ++ more).length := by
      show d.position + more.length = _
      rw [hpasses.position, List.length_append, Nat.add_assoc]
    rw [hposition]
    exact h.finish

/-- In a payload that was opened, a walk has the payload before it. -/
theorem Within.opened {value : Bytes} (h : walk.Within (value ++ more) rest stops) :
    (walk.opened number (walk.cursor.position + value.length)).Within value (more ++ rest)
      ((walk.cursor.position + value.length) :: stops) where
  toStops := by
    apply h.toStops.opened
    · intro stop hstop
      have := h.le_stop stop hstop
      rw [List.length_append] at this
      omega
    · rw [Cursor.size, ← walk.cursor.unread_length, h.unread]
      simp only [List.length_append]
      omega
  unread := h.unread.trans (List.append_assoc ..)
  finish := .inr rfl

/-- Bytes that stand in the innermost message are passed, and the frames that end behind them are
closed. -/
theorem Within.close_eq (h : walk.Within bytes rest stops) : close walk = .ok () walk.settle := by
  apply close_of_le h.toStops
  intro stop hstop
  have := h.le_stop stop hstop
  omega

theorem settle_opened {finish : Nat} (h : walk.cursor.position = finish) :
    (walk.opened number finish).settle = walk.settle := by
  subst h
  have hclose : (walk.nesting.push number (some walk.cursor.position)).closeAt
      walk.cursor.position = walk.nesting.closeAt walk.cursor.position := Nesting.closeAt_push
  simp only [settle, opened, hclose]

@[simp] theorem past_past :
    (walk.past c state count events).past d last moreCount moreEvents =
      walk.past d last (count + moreCount) (events ++ moreEvents) := by
  have hjournal : walk.journal ++ events ++ moreEvents =
      walk.journal ++ (events ++ moreEvents) := Array.ext' (by simp)
  simp only [past, hjournal, Nat.add_assoc]

/-- Behind an opened message the run stands as if the message had been passed. -/
theorem settle_past_opened {finish : Nat} (h : d.position = finish) :
    (((walk.past c state count events).opened number finish).past d last moreCount
      moreEvents).settle =
      (walk.past d last (count + moreCount) (events ++ moreEvents)).settle := by
  have hend : ((walk.past c state count events).past d last moreCount moreEvents).cursor.position =
      finish := h
  rw [← past_past]
  exact settle_opened hend

theorem Crosses.refl (P : Policy σ) (walk : Walk σ) : walk.Crosses P [] walk.state 0 [] :=
  ⟨walk.cursor, .refl _, by simp [past]⟩

/-- A field that is read leads the run on behind its bytes. -/
theorem Crosses.cons (hwithin : walk.Within (piece ++ more) rest stops) (hpiece : piece ≠ [])
    (hpasses : walk.cursor.Passes piece d)
    (hfield : field P walk = close (walk.past d state count events))
    (h : (walk.past d state count events).Crosses P more last moreCount moreEvents) :
    walk.Crosses P (piece ++ more) last (count + moreCount) (events ++ moreEvents) := by
  obtain ⟨e, hmore, hrun⟩ := h
  -- There are bytes before the walk, so no frame ends where it stands.
  obtain ⟨hsettle, hbefore⟩ := hwithin.settle_eq (by simp [hpiece])
  have hclose : close (walk.past d state count events) = _ := (hwithin.past hpasses).close_eq
  refine ⟨e, hpasses.trans hmore, ?_⟩
  rw [hsettle, toEnd_of_ok hbefore (hfield.trans hclose), hrun, past_past]

/-- A message that is crossed from inside is crossed like a value. -/
theorem Crosses.message {value : Bytes} {innerCount : Nat} {innerEvents : List Event} (between : σ)
    (hwithin : walk.Within (piece ++ value ++ more) rest stops) (hpiece : piece ≠ [])
    (hpasses : walk.cursor.Passes piece d)
    (hfield : field P walk =
      close ((walk.past d state count events).opened number (d.position + value.length)))
    (hinner : ((walk.past d state count events).opened number (d.position + value.length)).Crosses P
      value between innerCount innerEvents)
    (h : ∀ e, walk.cursor.Passes (piece ++ value) e →
      (walk.past e between (count + innerCount) (events ++ innerEvents)).Crosses P
        more last moreCount moreEvents) :
    walk.Crosses P (piece ++ value ++ more) last (innerCount + count + moreCount)
      (events ++ (innerEvents ++ moreEvents)) := by
  obtain ⟨e, hvalue, hinside⟩ := hinner
  obtain ⟨f, hmore, hrun⟩ := h e (hpasses.trans hvalue)
  rw [List.append_assoc] at hwithin
  obtain ⟨hsettle, hbefore⟩ := hwithin.settle_eq (by simp [hpiece])
  have hopened : ((walk.past d state count events).opened number (d.position + value.length)).Within
      value (more ++ rest) ((d.position + value.length) :: stops) := (hwithin.past hpasses).opened
  -- The frame of the message ends where the crossing of its fields does, and is closed there.
  have hend : e.position = d.position + value.length := hvalue.position
  refine ⟨f, (hpasses.trans hvalue).trans hmore, ?_⟩
  rw [hsettle, toEnd_of_ok hbefore (hfield.trans hopened.close_eq), hinside,
    settle_past_opened hend, hrun, past_past, List.append_assoc, Nat.add_comm innerCount]

theorem Allows.mono {n m : Nat} (h : walk.Allows n) (hle : m ≤ n) : walk.Allows m := by
  intro limit hlimit
  have := h limit hlimit
  omega

/-- In a message that was opened, one frame less may be needed. -/
theorem Allows.opened {n m finish : Nat} (h : walk.Allows n) (hle : m + 1 ≤ n) :
    ((walk.past c state count events).opened number finish).Allows m := by
  intro limit hlimit
  have := h limit hlimit
  show walk.nesting.depth + 1 + m ≤ limit
  omega

theorem keyed_of_written {value : Scalar}
    (hwritten : Item.Written (.scalar number value) piece) (hpasses : walk.cursor.Passes piece d)
    (hroom : walk.Allows 1) : ∃ c, walk.Keyed ⟨value.wireType, number⟩ c ∧
      Item.readBehind ⟨value.wireType, number⟩ c = .ok (.scalar number value) d := by
  obtain ⟨form, behind, rfl, hform, hkey, hbehind⟩ := hwritten.of_scalar
  obtain ⟨c, hfirst, hmore⟩ := hpasses.split
  exact ⟨c, ⟨Cursor.readKey_eq_ok_iff.mpr ⟨form, hform, hfirst, hkey⟩, hroom⟩,
    Item.readBehind_eq_ok_iff.mpr ⟨behind, hbehind, hmore⟩⟩

theorem sized_of_written {head value : Bytes}
    (hwritten : Item.Written (.payload number value) (head ++ value))
    (hpasses : walk.cursor.Passes head d) (hroom : walk.Allows 1) :
    ∃ c, walk.Sized ⟨.lengthDelimited, number⟩ value.length c d := by
  obtain ⟨form, lengthForm, happend, hform, hkey, hlengthForm, hlength⟩ := hwritten.of_payload
  obtain rfl := List.append_cancel_right happend
  obtain ⟨c, hfirst, hmore⟩ := hpasses.split
  exact ⟨c, ⟨Cursor.readKey_eq_ok_iff.mpr ⟨form, hform, hfirst, hkey⟩, hroom⟩, rfl,
    ⟨_, _⟩, Cursor.readVarint_eq_ok_iff.mpr ⟨lengthForm, hlengthForm, hmore, rfl⟩, hlength⟩

/-- A walk that has a message before it crosses its fields, and stands behind them as if they had
been a single value. -/
theorem crosses_of_spells {offset : Nat} {path : FieldPath} {fields : List Node}
    (h : Spells offset path fields bytes events) (hwithin : walk.Within bytes rest stops)
    (hoffset : walk.cursor.position = offset) (hpath : walk.nesting.path = path)
    (hroom : walk.Allows (heightAll fields))
    (hreplay : P.replay (callsAll path fields) walk.state = some last) :
    walk.Crosses P bytes last (countAll fields) events := by
  induction h generalizing walk stops rest last with
  | nil =>
    cases hreplay
    exact .refl P walk
  | @scalar offset path number value fields written tail events hwritten _ ih =>
    subst hoffset hpath
    obtain ⟨d, hpasses, -⟩ := Cursor.exists_passes (hwithin.unread.trans (List.append_assoc ..))
    obtain ⟨c, hkeyed, hread⟩ := keyed_of_written hwritten hpasses
      (hroom.mono (Nat.le_max_left ..))
    refine .cons hwithin hwritten.ne_nil hpasses (field_scalar hkeyed hread) ?_
    exact ih (hwithin.past hpasses) hpasses.position rfl
      (hroom.mono (Nat.le_max_right ..)) hreplay
  | @payload offset path number value delivered fields head tail events hwritten _ ih =>
    subst hoffset hpath
    obtain ⟨e, hpasses, -⟩ := Cursor.exists_passes (hwithin.unread.trans (List.append_assoc ..))
    obtain ⟨d, hhead, hvalue⟩ := hpasses.split
    obtain ⟨c, hsized⟩ := sized_of_written hwritten hhead (hroom.mono (Nat.le_max_left ..))
    have hbelow : walk.Allows (heightAll fields) := hroom.mono (Nat.le_max_right ..)
    rw [← hhead.position]
    cases delivered with
    | false =>
      obtain ⟨next, hanswer, hrest⟩ := Policy.replay_asked_eq_some_iff.mp hreplay
      refine .cons hwithin hwritten.ne_nil hpasses (field_skipped hsized hanswer hvalue) ?_
      exact ih (hwithin.past hpasses) hpasses.position rfl hbelow hrest
    | true =>
      obtain ⟨next, hanswer, hrest⟩ := Policy.replay_asked_eq_some_iff.mp hreplay
      refine .cons hwithin hwritten.ne_nil hpasses (field_captured hsized hanswer hvalue) ?_
      exact ih (hwithin.past hpasses) hpasses.position rfl hbelow hrest
  | @message offset path number value inner fields head tail innerEvents events hwritten _ _
      ihInner ih =>
    subst hoffset hpath
    obtain ⟨e, hpasses, -⟩ := Cursor.exists_passes (hwithin.unread.trans (List.append_assoc ..))
    obtain ⟨d, hhead, hvalue⟩ := hpasses.split
    obtain ⟨c, hsized⟩ := sized_of_written hwritten hhead
      (hroom.mono (Nat.le_trans (Nat.le_add_left ..) (Nat.le_max_left ..)))
    obtain ⟨next, hanswer, hmore⟩ := Policy.replay_asked_eq_some_iff.mp hreplay
    obtain ⟨between, hinner, hrest⟩ := Policy.replay_append_eq_some_iff.mp hmore
    rw [← hhead.position]
    have hthere : value.length ≤ d.remaining := by
      rw [hvalue.remaining_eq]
      exact Nat.le_add_right ..
    -- The inner fields are crossed in a frame of their own, the others from behind the payload.
    refine .message between hwithin hwritten.head_ne_nil hhead
      (field_descended hsized hanswer hthere (hwithin.le_innermostEnd? hhead)) ?_ ?_
    · rw [List.append_assoc] at hwithin
      refine ihInner (hwithin.past hhead).opened hhead.position rfl ?_ hinner
      exact hroom.opened (Nat.le_max_left ..)
    · intro e hpasses
      exact ih (hwithin.past hpasses) hpasses.position rfl
        (hroom.mono (Nat.le_max_right ..)) hrest

/-- What was passed without passing an end is a piece of the innermost message. -/
theorem Within.cut (h : walk.Within bytes rest stops) (hpasses : walk.cursor.Passes piece d)
    (hle : ∀ stop ∈ stops, d.position ≤ stop) : ∃ more, bytes = piece ++ more := by
  have hunread : bytes ++ rest = piece ++ d.unread := h.unread.symm.trans hpasses.unread
  have hshort : piece.length ≤ bytes.length := by
    rcases h.finish with ⟨-, rfl⟩ | hhead
    · have := congrArg List.length hunread
      simp only [List.length_append, List.length_nil] at this
      omega
    · have := hle _ (List.mem_of_mem_head? hhead)
      rw [hpasses.position] at this
      omega
  obtain ⟨more, hmore⟩ := List.prefix_of_prefix_length_le
    ⟨d.unread, hunread.symm⟩ (List.prefix_append bytes rest) hshort
  exact ⟨more, hmore.symm⟩

/-- A field whose frames could be closed is a piece of the innermost message. -/
theorem Within.of_close (h : walk.Within bytes rest stops) (hpasses : walk.cursor.Passes piece d)
    (hclose : close (walk.past d state count events) = .ok () next) :
    next = (walk.past d state count events).settle ∧ ∃ more, bytes = piece ++ more := by
  obtain ⟨hnext, hle⟩ := le_of_close (h.toStops.past hpasses) hclose
  exact ⟨hnext, h.cut hpasses hle⟩

theorem Allows.of_opened {n finish : Nat}
    (h : ((walk.past c state count events).opened number finish).Allows n) :
    walk.Allows (n + 1) := by
  intro limit hlimit
  have : walk.nesting.depth + 1 + n ≤ limit := h limit hlimit
  omega

theorem Allows.cons {node : Node} {fields : List Node} (h : walk.Allows node.height)
    (hrest : walk.Allows (heightAll fields)) : walk.Allows (heightAll (node :: fields)) := by
  intro limit hlimit
  have := h limit hlimit
  have := hrest limit hlimit
  rw [heightAll]
  omega

/-- A field of a walk as a node: its bytes, what they leave, and where they lead. -/
structure Reads (P : Policy σ) (walk : Walk σ) (node : Node) (piece : Bytes) (d : Cursor)
    (state : σ) (events : List Event) : Prop where
  ne_nil : piece ≠ []
  passes : walk.cursor.Passes piece d
  room : walk.Allows node.height
  replay : P.replay (node.calls walk.nesting.path) walk.state = some state
  spells : ∀ {fields : List Node} {more : Bytes} {moreEvents : List Event},
    Spells d.position walk.nesting.path fields more moreEvents →
    Spells walk.cursor.position walk.nesting.path (node :: fields) (piece ++ more)
      (events ++ moreEvents)

theorem Reads.shorter {node : Node} (h : walk.Reads P node piece d state events) (more : Bytes) :
    more.length < (piece ++ more).length := by
  have := List.length_pos_iff.mpr h.ne_nil
  rw [List.length_append]
  omega

/-- The bytes are fields as they stand, the policy gives the answers that make them these, and no
frame is one too many. -/
def Spelled (P : Policy σ) (walk : Walk σ) (bytes : Bytes) : Prop :=
  ∃ fields events last, Spells walk.cursor.position walk.nesting.path fields bytes events ∧
    P.replay (callsAll walk.nesting.path fields) walk.state = some last ∧
    walk.Allows (heightAll fields)

theorem Spelled.cons {node : Node} (h : walk.Reads P node piece d state events)
    (hmore : (walk.past d state count events).Spelled P more) : walk.Spelled P (piece ++ more) := by
  obtain ⟨fields, moreEvents, last, hspells, hreplay, hroom⟩ := hmore
  exact ⟨node :: fields, _, last, h.spells hspells,
    Policy.replay_append_eq_some_iff.mpr ⟨state, h.replay, hreplay⟩, .cons h.room hroom⟩

theorem reads_scalar {key : Key} {value : Scalar} (hkeyed : walk.Keyed key c)
    (hread : Item.readBehind key c = .ok (.scalar key.number value) d) :
    ∃ written, walk.Reads P (.scalar key.number value) written d
      (deliveredTo P walk key value.bytes walk.state)
      [walk.keyEvent key, walk.deliveryEvent key value.bytes] := by
  obtain ⟨form, hform, hfirst, hkey⟩ := Cursor.readKey_eq_ok_iff.mp hkeyed.readKey
  obtain ⟨behind, hbehind, hmore⟩ := Item.readBehind_eq_ok_iff.mp hread
  have htype : key.wireType = value.wireType := by cases hbehind <;> assumption
  obtain ⟨type, number⟩ := key
  obtain rfl : type = value.wireType := htype
  have hwritten : Item.Written (.scalar number value) (form ++ behind) := .mk hform hkey hbehind
  have hpasses := hfirst.trans hmore
  refine ⟨form ++ behind, hwritten.ne_nil, hpasses, hkeyed.room, rfl, ?_⟩
  intro fields more moreEvents hspells
  rw [hpasses.position] at hspells
  exact .scalar hwritten hspells

theorem written_of_sized {key : Key} {value : Bytes} (hsized : walk.Sized key value.length c d) :
    ∃ head number, key = ⟨.lengthDelimited, number⟩ ∧
      Item.Written (.payload number value) (head ++ value) ∧ walk.cursor.Passes head d := by
  obtain ⟨form, hform, hfirst, hkey⟩ := Cursor.readKey_eq_ok_iff.mp hsized.readKey
  obtain ⟨word, hword, hlength⟩ := hsized.readLength
  obtain ⟨lengthForm, hlengthForm, hmore, rfl⟩ := Cursor.readVarint_eq_ok_iff.mp hword
  obtain ⟨type, number⟩ := key
  obtain rfl : type = .lengthDelimited := hsized.wireType
  refine ⟨form ++ lengthForm, number, rfl, ?_, hfirst.trans hmore⟩
  rw [List.append_assoc]
  exact .mk hform hkey (.payload rfl hlengthForm hlength)

theorem reads_payload {head value : Bytes} {e : Cursor} (delivered : Bool)
    (hwritten : Item.Written (.payload number value) (head ++ value))
    (hhead : walk.cursor.Passes head d) (hthere : d.Passes value e) (hroom : walk.Allows 1)
    (hanswer : P.answer number walk.nesting.path walk.state =
      (if delivered then .capture else .skip, state)) :
    walk.Reads P (.payload number value delivered) (head ++ value) e
      (if delivered then deliveredTo P walk ⟨.lengthDelimited, number⟩ value state else state)
      (walk.keyEvent ⟨.lengthDelimited, number⟩ ::
        walk.askedEvent ⟨.lengthDelimited, number⟩ d.position value.length
          (if delivered then .capture else .skip) ::
        if delivered then [walk.deliveryEvent ⟨.lengthDelimited, number⟩ value] else []) where
  ne_nil := hwritten.ne_nil
  passes := hhead.trans hthere
  room := hroom
  replay := by
    cases delivered with
    | false => exact Policy.replay_asked_eq_some_iff.mpr ⟨state, hanswer, rfl⟩
    | true => exact Policy.replay_asked_eq_some_iff.mpr ⟨state, hanswer, rfl⟩
  spells := by
    intro fields more moreEvents hspells
    rw [(hhead.trans hthere).position] at hspells
    rw [hhead.position]
    exact .payload hwritten hspells

/-- A message that was spelled out and crossed is a single field of the message around it. -/
theorem reads_message {head value : Bytes} {e : Cursor} {inner : List Node}
    {innerEvents : List Event} {between : σ}
    (hwritten : Item.Written (.payload number value) (head ++ value))
    (hhead : walk.cursor.Passes head d) (hthere : d.Passes value e)
    (hroom : walk.Allows (heightAll inner + 1))
    (hanswer : P.answer number walk.nesting.path walk.state = (.descend, state))
    (hinner : Spells d.position (walk.nesting.path.child number) inner value innerEvents)
    (hreplay : P.replay (callsAll (walk.nesting.path.child number) inner) state = some between) :
    walk.Reads P (.message number inner) (head ++ value) e between
      ([walk.keyEvent ⟨.lengthDelimited, number⟩,
        walk.askedEvent ⟨.lengthDelimited, number⟩ d.position value.length .descend] ++
          innerEvents) where
  ne_nil := hwritten.ne_nil
  passes := hhead.trans hthere
  room := hroom
  replay := Policy.replay_asked_eq_some_iff.mpr ⟨state, hanswer, hreplay⟩
  spells := by
    intro fields more moreEvents hspells
    rw [(hhead.trans hthere).position] at hspells
    rw [hhead.position] at hinner ⊢
    exact .message hwritten hinner hspells

/-- A run that comes to the end of the buffer has crossed fields of the innermost message. -/
theorem spelled_of_toEnd {final : Walk σ} (hwithin : walk.Within bytes rest stops)
    (hroom : walk.Allows 0) (hrun : toEnd P walk.settle = .ok () final) :
    walk.Spelled P bytes := by
  -- On the number of bytes: a payload and what follows its field are both fewer.
  induction hn : bytes.length using Nat.strongRecOn generalizing bytes walk rest stops with
  | ind length ih =>
    subst hn
    by_cases hbytes : bytes = []
    · subst hbytes
      exact ⟨[], [], walk.state, .nil, rfl, hroom⟩
    obtain ⟨hsettle, hmore⟩ := hwithin.settle_eq hbytes
    rw [hsettle] at hrun
    cases hfield : field P walk with
    | error fault next =>
      rw [toEnd_of_error hmore hfield] at hrun
      cases hrun
    | ok done next =>
      rw [toEnd_of_ok hmore hfield] at hrun
      have houtcome := fieldOutcome P walk
      generalize field P walk = result at houtcome hfield
      cases houtcome with
      | badKey | tooDeep | noValue | noLength | missing | outside => cases hfield
      | scalar hkeyed hread =>
        obtain ⟨written, hreads⟩ := reads_scalar (P := P) hkeyed hread
        obtain ⟨rfl, more, rfl⟩ := hwithin.of_close hreads.passes hfield
        exact .cons hreads (ih more.length (hreads.shorter more) (hwithin.past hreads.passes)
          hroom hrun rfl)
      | skipped hsized hanswer hthere =>
        obtain ⟨head, number, rfl, hwritten, hhead⟩ := written_of_sized hsized
        have hreads := reads_payload false hwritten hhead hthere hsized.room hanswer
        obtain ⟨rfl, more, rfl⟩ := hwithin.of_close hreads.passes hfield
        exact .cons hreads (ih more.length (hreads.shorter more) (hwithin.past hreads.passes)
          hroom hrun rfl)
      | captured hsized hanswer hthere =>
        obtain ⟨head, number, rfl, hwritten, hhead⟩ := written_of_sized hsized
        have hreads := reads_payload true hwritten hhead hthere hsized.room hanswer
        obtain ⟨rfl, more, rfl⟩ := hwithin.of_close hreads.passes hfield
        exact .cons hreads (ih more.length (hreads.shorter more) (hwithin.past hreads.passes)
          hroom hrun rfl)
      | @descended key length c d state hsized hanswer hthere hinside =>
        obtain ⟨value, e, hvalue, rfl⟩ := Cursor.exists_passes_of_le hthere
        obtain ⟨head, number, rfl, hwritten, hhead⟩ := written_of_sized hsized
        obtain ⟨more, rfl⟩ := hwithin.cut (hhead.trans hvalue) (by
          rw [hvalue.position]
          exact hwithin.le_of_innermostEnd? hinside)
        have hopened : ((walk.past d state 1 [walk.keyEvent ⟨.lengthDelimited, number⟩,
            walk.askedEvent ⟨.lengthDelimited, number⟩ d.position value.length .descend]).opened
            number (d.position + value.length)).Within value (more ++ rest)
            ((d.position + value.length) :: stops) := by
          rw [List.append_assoc] at hwithin
          exact (hwithin.past hhead).opened
        cases hfield.symm.trans hopened.close_eq
        have hpos := List.length_pos_iff.mpr hwritten.head_ne_nil
        obtain ⟨inner, innerEvents, between, hinner, hreplay, hsmall⟩ :=
          ih value.length (by simp; omega) hopened hsized.room hrun rfl
        -- The run through the message is known now, so it can be taken as one step.
        obtain ⟨e, hvalue, hcrossed⟩ := crosses_of_spells hinner hopened rfl rfl hsmall hreplay
        have hend : e.position = d.position + value.length := hvalue.position
        rw [hcrossed, settle_past_opened hend] at hrun
        have hreads := reads_message hwritten hhead hvalue hsmall.of_opened hanswer hinner hreplay
        exact .cons hreads (ih more.length (hreads.shorter more) (hwithin.past hreads.passes)
          hroom hrun rfl)

end Walk
end FieldSieve
