import FieldSieve.Proofs.WrittenFields
import FieldSieve.Scan

/-!
# Every way a field can go

Reading a field comes to one of nine ends (`Walk.FieldOutcome`): the key is unusable, the frame is
one too many, the value or the length is cut off, the payload is cut off, a message would end behind
the message around it, or a value was passed or a message opened, and then the frames that end there
are closed.  `Walk.fieldOutcome` says that there is no other; what a scan keeps from field to field
is read off these ends and not off the code.

The good ends are also equations (`Walk.field_scalar` and its siblings), which lead a run forwards
where it is known what stands in the buffer.  Behind a field whose frame is closed again the open
frames are those from before it (`Walk.past`), so a value leaves no trace but its events.
-/
namespace FieldSieve

section Bind

variable {ε τ α β : Type} {step : EStateM ε τ α} {next : α → EStateM ε τ β} {state between : τ}

theorem bind_eq_error {fault : ε} {done : τ} :
    (step >>= next) state = .error fault done ↔ step state = .error fault done ∨
      ∃ a between, step state = .ok a between ∧ next a between = .error fault done := by
  constructor
  · intro h
    cases hstep : step state with
    | ok a between => exact .inr ⟨a, between, rfl, by rwa [bind_of_ok hstep] at h⟩
    | error fault between =>
      rw [bind_of_error hstep] at h
      cases h
      exact .inl rfl
  · rintro (h | ⟨a, between, hstep, h⟩)
    · exact bind_of_error h
    · rwa [bind_of_ok hstep]

end Bind

namespace Cursor

variable {c d : Cursor} {n : Nat} {bytes : Bytes} {fault : Fault}

theorem fault_of_readVarint (h : readVarint c = .error fault d) : fault = .endOfStream :=
  (readVarint_eq_error_iff.mp h).2.1

theorem fault_of_readBytes (h : readBytes n c = .error fault d) : fault = .endOfStream := by
  unfold readBytes at h
  split at h <;> cases h
  rfl

theorem fault_of_readKey (h : readKey c = .error fault d) :
    fault = .endOfStream ∨ ∃ id, fault = .unsupportedWireType id := by
  simp only [readKey] at h
  split at h
  · split at h
    · cases h
    · next hunpack =>
      cases h
      simp only [Key.unpack] at hunpack
      split at hunpack
      · split at hunpack <;> cases hunpack
        exact .inr ⟨_, rfl⟩
      · cases hunpack
        exact .inr ⟨_, rfl⟩
  · next hread =>
    cases h
    exact .inl (fault_of_readVarint hread)

theorem isGroup_of_readKey {key : Key} (h : readKey c = .ok key d) :
    key.wireType.isGroup = false := by
  obtain ⟨word, -, hkey⟩ := readVarint_of_readKey h
  exact Key.isGroup_of_unpack hkey

end Cursor

namespace Item

variable {key : Key} {item : Item} {c d : Cursor} {fault : Fault}

/-- Behind a usable key, a read fails only for want of bytes. -/
theorem fault_of_readBehind (hkey : key.wireType.isGroup = false)
    (h : readBehind key c = .error fault d) : fault = .endOfStream := by
  obtain ⟨type, number⟩ := key
  cases type with
  | varint =>
    rcases bind_eq_error.mp h with h | ⟨_, _, -, h⟩
    · exact Cursor.fault_of_readVarint h
    · cases h
  | fixed64 | fixed32 =>
    rcases bind_eq_error.mp h with h | ⟨_, _, -, h⟩
    · exact Cursor.fault_of_readBytes h
    · cases h
  | lengthDelimited =>
    rcases bind_eq_error.mp h with h | ⟨_, _, -, h⟩
    · exact Cursor.fault_of_readVarint h
    · rcases bind_eq_error.mp h with h | ⟨_, _, -, h⟩
      · exact Cursor.fault_of_readBytes h
      · cases h
  | startGroup | endGroup => cases hkey

/-- What is no payload is a scalar with the number of its key. -/
theorem eq_scalar_of_readBehind (hkey : key.wireType ≠ .lengthDelimited)
    (h : readBehind key c = .ok item d) : ∃ value, item = scalar key.number value := by
  obtain ⟨type, number⟩ := key
  cases type with
  | varint | fixed64 | fixed32 =>
    obtain ⟨_, _, -, h⟩ := bind_eq_ok.mp h
    cases h
    exact ⟨_, rfl⟩
  | lengthDelimited => exact absurd rfl hkey
  | startGroup | endGroup => cases h

end Item

namespace Nesting

variable {nesting : Nesting} {number : UInt64} {finish : Option Nat}

/-- The innermost end that is known. -/
def innermostEnd? (nesting : Nesting) : Option Nat := nesting.ends.findSome? id

@[simp] theorem pop_push : (nesting.push number finish).pop = nesting := by
  apply Nesting.ext
  rw [frames_pop, frames_push, List.dropLast_concat]

theorem enclosingEnd?_push :
    (nesting.push number finish).enclosingEnd? = nesting.innermostEnd? := rfl

end Nesting

namespace Walk

variable {σ : Type} {α : Type}

/-- The walk with its cursor elsewhere. -/
def movedTo (walk : Walk σ) (cursor : Cursor) : Walk σ := { walk with cursor }

/-- The walk in the frame of a key's field, whose end is not known yet. -/
def inside (walk : Walk σ) (key : Key) (cursor : Cursor) (state : σ) (events : List Event) :
    Walk σ :=
  { walk with
    cursor, state
    nesting := walk.nesting.push key.number none
    visited := walk.visited + 1
    journal := walk.journal ++ events }

/-- The walk behind fields whose frames are closed again. -/
def past (walk : Walk σ) (cursor : Cursor) (state : σ) (count : Nat) (events : List Event) :
    Walk σ :=
  { walk with cursor, state, visited := walk.visited + count, journal := walk.journal ++ events }

/-- The walk in a message that ends at `finish`. -/
def opened (walk : Walk σ) (number : UInt64) (finish : Nat) : Walk σ :=
  { walk with nesting := walk.nesting.push number (some finish) }

/-- The walk without the frames that end where it stands. -/
def settle (walk : Walk σ) : Walk σ :=
  { walk with nesting := walk.nesting.closeAt walk.cursor.position }

/-- What a key leaves in the journal. -/
def keyEvent (walk : Walk σ) (key : Key) : Event :=
  .keyRead walk.cursor.position key (walk.nesting.path.child key.number)

/-- What a question leaves in the journal. -/
def askedEvent (walk : Walk σ) (key : Key) (start length : Nat) (answer : Decision) : Event :=
  .asked key.number walk.nesting.path start length answer

/-- What a value leaves in the journal. -/
def deliveryEvent (walk : Walk σ) (key : Key) (value : Bytes) : Event :=
  .delivered key.wireType key.number value (walk.nesting.path.child key.number)

/-- The policy's state after a value. -/
def deliveredTo (P : Policy σ) (walk : Walk σ) (key : Key) (value : Bytes) (state : σ) : σ :=
  P.deliver key.wireType key.number value (walk.nesting.path.child key.number) state

/-- A usable key comes next, and one more frame may be opened for its field. -/
structure Keyed (walk : Walk σ) (key : Key) (c : Cursor) : Prop where
  readKey : Cursor.readKey walk.cursor = .ok key c
  room : ∀ limit, walk.limits.maxDepth = some limit → walk.nesting.depth < limit

/-- The key of a payload comes next, and then the payload's length. -/
structure Sized (walk : Walk σ) (key : Key) (length : Nat) (c d : Cursor) : Prop
    extends Keyed walk key c where
  wireType : key.wireType = .lengthDelimited
  readLength : ∃ v, Cursor.readVarint c = .ok v d ∧ v.value.toNat = length

/-- The ends that the reading of a field can come to. -/
inductive FieldOutcome (P : Policy σ) (walk : Walk σ) :
    EStateM.Result Fault (Walk σ) Unit → Prop
  | badKey {fault : Fault} {c : Cursor} (h : Cursor.readKey walk.cursor = .error fault c) :
    FieldOutcome P walk (.error fault (walk.movedTo c))
  | tooDeep {key : Key} {c : Cursor} {limit : Nat} (h : Cursor.readKey walk.cursor = .ok key c)
      (hlimit : walk.limits.maxDepth = some limit) (hdeep : limit ≤ walk.nesting.depth) :
    FieldOutcome P walk
      (.error (.depthLimitExceeded limit) (walk.inside key c walk.state [walk.keyEvent key]))
  | noValue {key : Key} {c d : Cursor} (h : walk.Keyed key c)
      (hscalar : key.wireType ≠ .lengthDelimited)
      (hread : Item.readBehind key c = .error .endOfStream d) :
    FieldOutcome P walk (.error .endOfStream (walk.inside key d walk.state [walk.keyEvent key]))
  | noLength {key : Key} {c d : Cursor} (h : walk.Keyed key c)
      (hpayload : key.wireType = .lengthDelimited)
      (hread : Cursor.readVarint c = .error .endOfStream d) :
    FieldOutcome P walk (.error .endOfStream (walk.inside key d walk.state [walk.keyEvent key]))
  | missing {key : Key} {length : Nat} {c d : Cursor} {answer : Decision} {state : σ}
      (h : walk.Sized key length c d)
      (hanswer : P.answer key.number walk.nesting.path walk.state = (answer, state))
      (hmissing : d.remaining < length) :
    FieldOutcome P walk (.error .endOfStream
      (walk.inside key d state [walk.keyEvent key, walk.askedEvent key d.position length answer]))
  | outside {key : Key} {length stop : Nat} {c d : Cursor} {state : σ}
      (h : walk.Sized key length c d)
      (hanswer : P.answer key.number walk.nesting.path walk.state = (.descend, state))
      (hthere : length ≤ d.remaining) (hstop : walk.nesting.innermostEnd? = some stop)
      (houtside : stop < d.position + length) :
    FieldOutcome P walk (.error .messageOverrun
      (walk.inside key d state [walk.keyEvent key, walk.askedEvent key d.position length .descend]))
  | scalar {key : Key} {value : Scalar} {c d : Cursor} (h : walk.Keyed key c)
      (hread : Item.readBehind key c = .ok (.scalar key.number value) d) :
    FieldOutcome P walk (close (walk.past d (deliveredTo P walk key value.bytes walk.state) 1
      [walk.keyEvent key, walk.deliveryEvent key value.bytes]))
  | skipped {key : Key} {value : Bytes} {c d e : Cursor} {state : σ}
      (h : walk.Sized key value.length c d)
      (hanswer : P.answer key.number walk.nesting.path walk.state = (.skip, state))
      (hthere : d.Passes value e) :
    FieldOutcome P walk (close (walk.past e state 1
      [walk.keyEvent key, walk.askedEvent key d.position value.length .skip]))
  | captured {key : Key} {value : Bytes} {c d e : Cursor} {state : σ}
      (h : walk.Sized key value.length c d)
      (hanswer : P.answer key.number walk.nesting.path walk.state = (.capture, state))
      (hthere : d.Passes value e) :
    FieldOutcome P walk (close (walk.past e (deliveredTo P walk key value state) 1
      [walk.keyEvent key, walk.askedEvent key d.position value.length .capture,
        walk.deliveryEvent key value]))
  | descended {key : Key} {length : Nat} {c d : Cursor} {state : σ}
      (h : walk.Sized key length c d)
      (hanswer : P.answer key.number walk.nesting.path walk.state = (.descend, state))
      (hthere : length ≤ d.remaining)
      (hinside : ∀ stop, walk.nesting.innermostEnd? = some stop → d.position + length ≤ stop) :
    FieldOutcome P walk (close ((walk.past d state 1
      [walk.keyEvent key, walk.askedEvent key d.position length .descend]).opened
        key.number (d.position + length)))

variable {P : Policy σ} {walk : Walk σ} {key : Key} {c d e : Cursor} {state : σ} {bytes : Bytes}
  {length : Nat} {answer : Decision}

theorem read_of_ok {reader : Reader α} {a : α} (h : reader walk.cursor = .ok a c) :
    read reader walk = .ok a (walk.movedTo c) := by
  simp only [read, h, movedTo]

theorem read_of_error {reader : Reader α} {fault : Fault}
    (h : reader walk.cursor = .error fault c) :
    read reader walk = .error fault (walk.movedTo c) := by
  simp only [read, h, movedTo]

theorem field_eq : field P walk = (read Cursor.readKey >>= fun key =>
    enter walk.cursor.position key >>= fun _ => value P key >>= fun _ => close) walk := rfl

theorem field_badKey {fault : Fault} (h : Cursor.readKey walk.cursor = .error fault c) :
    field P walk = .error fault (walk.movedTo c) := by
  rw [field_eq, bind_of_error (read_of_error h)]

theorem field_tooDeep {limit : Nat} (h : Cursor.readKey walk.cursor = .ok key c)
    (hlimit : walk.limits.maxDepth = some limit) (hdeep : limit ≤ walk.nesting.depth) :
    field P walk =
      .error (.depthLimitExceeded limit) (walk.inside key c walk.state [walk.keyEvent key]) := by
  have henter : enter walk.cursor.position key (walk.movedTo c) =
      .error (.depthLimitExceeded limit) (walk.inside key c walk.state [walk.keyEvent key]) := by
    unfold enter
    dsimp only
    rw [show (walk.movedTo c).limits.maxDepth = some limit from hlimit]
    dsimp only
    exact (if_pos (Nat.lt_succ_of_le hdeep)).trans rfl
  rw [field_eq, bind_of_ok (read_of_ok h), bind_of_error henter]

/-- With room for its frame, a field is what stands behind its key and the closing of frames. -/
theorem field_keyed (h : walk.Keyed key c) :
    field P walk = (value P key >>= fun _ => close)
      (walk.inside key c walk.state [walk.keyEvent key]) := by
  have henter : enter walk.cursor.position key (walk.movedTo c) =
      .ok () (walk.inside key c walk.state [walk.keyEvent key]) := by
    unfold enter
    dsimp only
    split
    · next limit hlimit =>
      exact (if_neg (Nat.not_lt.mpr (h.room limit hlimit))).trans rfl
    · rfl
  rw [field_eq, bind_of_ok (read_of_ok h.readKey), bind_of_ok henter]

/-- A value that was read is delivered with the path of its field. -/
theorem deliver_inside (events : List Event) :
    deliver P key bytes ((walk.inside key c state events).movedTo d) =
      .ok () (walk.past d (deliveredTo P walk key bytes state) 1
        (events ++ [walk.deliveryEvent key bytes])) := by
  have hjournal : (walk.journal ++ events).push (walk.deliveryEvent key bytes) =
      walk.journal ++ (events ++ [walk.deliveryEvent key bytes]) := Array.ext' (by simp)
  simp only [deliver, movedTo, inside, past, Nesting.pop_push, ← hjournal]
  rfl

theorem value_scalar {number : UInt64} {scalar : Scalar}
    (hread : Item.readBehind key c = .ok (.scalar number scalar) d) :
    value P key (walk.inside key c state [walk.keyEvent key]) =
      .ok () (walk.past d (deliveredTo P walk key scalar.bytes state) 1
        [walk.keyEvent key, walk.deliveryEvent key scalar.bytes]) := by
  obtain ⟨type, n⟩ := key
  cases type with
  | varint =>
    obtain ⟨word, between, hword, hitem⟩ := bind_eq_ok.mp hread
    cases hitem
    show (read Cursor.readVarint >>= fun word => deliver P _ (Scalar.varint word.value).bytes) _ = _
    rw [bind_of_ok (read_of_ok hword), deliver_inside]
    rfl
  | fixed64 =>
    obtain ⟨raw, between, hraw, hitem⟩ := bind_eq_ok.mp hread
    cases hitem
    have hbytes : (Scalar.fixed64 raw.word).bytes = raw :=
      Bytes.littleEndian_word64 (Cursor.readBytes_eq_ok_iff.mp hraw).2
    show (read (Cursor.readBytes 8) >>= fun raw => deliver P _ raw) _ = _
    rw [bind_of_ok (read_of_ok hraw), deliver_inside, hbytes]
    rfl
  | fixed32 =>
    obtain ⟨raw, between, hraw, hitem⟩ := bind_eq_ok.mp hread
    cases hitem
    have hbytes : (Scalar.fixed32 raw.word.toUInt32).bytes = raw :=
      Bytes.littleEndian_word32 (Cursor.readBytes_eq_ok_iff.mp hraw).2
    show (read (Cursor.readBytes 4) >>= fun raw => deliver P _ raw) _ = _
    rw [bind_of_ok (read_of_ok hraw), deliver_inside, hbytes]
    rfl
  | lengthDelimited =>
    obtain ⟨_, _, -, hitem⟩ := bind_eq_ok.mp hread
    obtain ⟨_, _, -, hitem⟩ := bind_eq_ok.mp hitem
    cases hitem
  | startGroup => cases hread
  | endGroup => cases hread

/-- The policy has been asked; what happens to the payload depends on the answer. -/
theorem value_sized (h : walk.Sized key length c d)
    (hanswer : P.answer key.number walk.nesting.path walk.state = (answer, state)) :
    value P key (walk.inside key c walk.state [walk.keyEvent key]) =
      (match answer with
        | .skip => read (Cursor.skip length) >>= fun _ => leave
        | .capture => read (Cursor.readBytes length) >>= fun bytes => deliver P key bytes
        | .descend => read (Cursor.require length) >>= fun _ => descend length)
      (walk.inside key d state
        [walk.keyEvent key, walk.askedEvent key d.position length answer]) := by
  obtain ⟨word, hword, rfl⟩ := h.readLength
  have hask : ask P key word.value.toNat
      ((walk.inside key c walk.state [walk.keyEvent key]).movedTo d) =
      .ok answer (walk.inside key d state
        [walk.keyEvent key, walk.askedEvent key d.position word.value.toNat answer]) := by
    obtain ⟨rfl, rfl⟩ : (P.answer key.number walk.nesting.path walk.state).1 = answer ∧
        (P.answer key.number walk.nesting.path walk.state).2 = state := by
      rw [hanswer]; exact ⟨rfl, rfl⟩
    rfl
  rw [value, h.wireType]
  refine (bind_of_ok (read_of_ok hword)).trans ((bind_of_ok hask).trans ?_)
  cases answer <;> rfl

theorem field_scalar {scalar : Scalar} (h : walk.Keyed key c)
    (hread : Item.readBehind key c = .ok (.scalar key.number scalar) d) :
    field P walk = close (walk.past d (deliveredTo P walk key scalar.bytes walk.state) 1
      [walk.keyEvent key, walk.deliveryEvent key scalar.bytes]) := by
  rw [field_keyed h, bind_of_ok (value_scalar hread)]

theorem field_skipped (h : walk.Sized key bytes.length c d)
    (hanswer : P.answer key.number walk.nesting.path walk.state = (.skip, state))
    (hthere : d.Passes bytes e) :
    field P walk = close (walk.past e state 1
      [walk.keyEvent key, walk.askedEvent key d.position bytes.length .skip]) := by
  have hskip : Cursor.skip bytes.length d = .ok () e := by
    obtain ⟨fits, rfl⟩ := hthere.eq_advance
    exact Cursor.skip_of_le fits
  have hvalue := value_sized h hanswer
  dsimp only at hvalue
  rw [bind_of_ok (read_of_ok hskip)] at hvalue
  rw [field_keyed h.toKeyed, bind_of_ok (hvalue.trans rfl)]
  simp only [past, Nesting.pop_push, inside, movedTo]

theorem field_captured (h : walk.Sized key bytes.length c d)
    (hanswer : P.answer key.number walk.nesting.path walk.state = (.capture, state))
    (hthere : d.Passes bytes e) :
    field P walk = close (walk.past e (deliveredTo P walk key bytes state) 1
      [walk.keyEvent key, walk.askedEvent key d.position bytes.length .capture,
        walk.deliveryEvent key bytes]) := by
  have hread : Cursor.readBytes bytes.length d = .ok bytes e :=
    Cursor.readBytes_eq_ok_iff.mpr ⟨hthere, rfl⟩
  have hvalue := value_sized h hanswer
  dsimp only at hvalue
  rw [bind_of_ok (read_of_ok hread), deliver_inside] at hvalue
  rw [field_keyed h.toKeyed, bind_of_ok hvalue]
  rfl

theorem field_descended (h : walk.Sized key length c d)
    (hanswer : P.answer key.number walk.nesting.path walk.state = (.descend, state))
    (hthere : length ≤ d.remaining)
    (hinside : ∀ stop, walk.nesting.innermostEnd? = some stop → d.position + length ≤ stop) :
    field P walk = close ((walk.past d state 1
      [walk.keyEvent key, walk.askedEvent key d.position length .descend]).opened
        key.number (d.position + length)) := by
  have hany : (walk.nesting.push key.number none).enclosingEnd?.any
      (· < d.position + length) = false := by
    rw [Nesting.enclosingEnd?_push]
    cases hstop : walk.nesting.innermostEnd? with
    | none => rfl
    | some stop => simpa using hinside stop hstop
  have hdescend : descend length (walk.inside key d state
      [walk.keyEvent key, walk.askedEvent key d.position length .descend]) =
      .ok () ((walk.past d state 1
        [walk.keyEvent key, walk.askedEvent key d.position length .descend]).opened
          key.number (d.position + length)) := by
    exact (if_neg (ne_true_of_eq_false hany)).trans rfl
  have hvalue := value_sized h hanswer
  dsimp only at hvalue
  rw [bind_of_ok (read_of_ok (Cursor.require_of_le hthere))] at hvalue
  rw [field_keyed h.toKeyed, bind_of_ok (hvalue.trans hdescend)]

theorem field_outside {stop : Nat} (h : walk.Sized key length c d)
    (hanswer : P.answer key.number walk.nesting.path walk.state = (.descend, state))
    (hthere : length ≤ d.remaining) (hstop : walk.nesting.innermostEnd? = some stop)
    (houtside : stop < d.position + length) :
    field P walk = .error .messageOverrun (walk.inside key d state
      [walk.keyEvent key, walk.askedEvent key d.position length .descend]) := by
  have hany : (walk.nesting.push key.number none).enclosingEnd?.any
      (· < d.position + length) = true := by
    rw [Nesting.enclosingEnd?_push, hstop]
    simpa using houtside
  have hdescend : descend length (walk.inside key d state
      [walk.keyEvent key, walk.askedEvent key d.position length .descend]) =
      .error .messageOverrun (walk.inside key d state
        [walk.keyEvent key, walk.askedEvent key d.position length .descend]) := by
    exact if_pos hany
  have hvalue := value_sized h hanswer
  dsimp only at hvalue
  rw [bind_of_ok (read_of_ok (Cursor.require_of_le hthere))] at hvalue
  rw [field_keyed h.toKeyed, bind_of_error (hvalue.trans hdescend)]

/-- Whatever the answer, a payload has to be there. -/
theorem field_missing (h : walk.Sized key length c d)
    (hanswer : P.answer key.number walk.nesting.path walk.state = (answer, state))
    (hmissing : d.remaining < length) :
    field P walk = .error .endOfStream (walk.inside key d state
      [walk.keyEvent key, walk.askedEvent key d.position length answer]) := by
  have hvalue := value_sized h hanswer
  have hcut : value P key (walk.inside key c walk.state [walk.keyEvent key]) =
      .error .endOfStream (walk.inside key d state
        [walk.keyEvent key, walk.askedEvent key d.position length answer]) := by
    cases answer with
    | skip => exact hvalue.trans (bind_of_error (read_of_error (Cursor.skip_of_lt hmissing)))
    | capture =>
      exact hvalue.trans (bind_of_error (read_of_error (Cursor.readBytes_of_lt hmissing)))
    | descend => exact hvalue.trans (bind_of_error (read_of_error (Cursor.require_of_lt hmissing)))
  rw [field_keyed h.toKeyed, bind_of_error hcut]

theorem field_noLength {fault : Fault} (h : walk.Keyed key c)
    (hpayload : key.wireType = .lengthDelimited) (hread : Cursor.readVarint c = .error fault d) :
    field P walk = .error fault (walk.inside key d walk.state [walk.keyEvent key]) := by
  have hvalue : value P key (walk.inside key c walk.state [walk.keyEvent key]) =
      .error fault (walk.inside key d walk.state [walk.keyEvent key]) := by
    rw [value, hpayload]
    exact bind_of_error (read_of_error hread)
  rw [field_keyed h, bind_of_error hvalue]

theorem field_noValue {fault : Fault} (h : walk.Keyed key c)
    (hscalar : key.wireType ≠ .lengthDelimited) (hread : Item.readBehind key c = .error fault d) :
    field P walk = .error fault (walk.inside key d walk.state [walk.keyEvent key]) := by
  have hgroup := Cursor.isGroup_of_readKey h.readKey
  have hvalue : value P key (walk.inside key c walk.state [walk.keyEvent key]) =
      .error fault (walk.inside key d walk.state [walk.keyEvent key]) := by
    rw [Item.readBehind] at hread
    rw [value]
    cases htype : key.wireType with
    | varint | fixed64 | fixed32 =>
      rw [htype] at hread
      rcases bind_eq_error.mp hread with hread | ⟨_, _, -, hread⟩
      · exact bind_of_error (read_of_error hread)
      · cases hread
    | lengthDelimited => exact absurd htype hscalar
    | startGroup | endGroup =>
      rw [htype] at hgroup
      cases hgroup
  rw [field_keyed h, bind_of_error hvalue]

theorem fieldOutcome_scalar (h : walk.Keyed key c) (hscalar : key.wireType ≠ .lengthDelimited) :
    FieldOutcome P walk (field P walk) := by
  cases hread : Item.readBehind key c with
  | error fault d =>
    obtain rfl := Item.fault_of_readBehind (Cursor.isGroup_of_readKey h.readKey) hread
    rw [field_noValue h hscalar hread]
    exact .noValue h hscalar hread
  | ok item d =>
    obtain ⟨scalar, rfl⟩ := Item.eq_scalar_of_readBehind hscalar hread
    rw [field_scalar h hread]
    exact .scalar h hread

theorem fieldOutcome_sized (h : walk.Sized key length c d) :
    FieldOutcome P walk (field P walk) := by
  obtain ⟨answer, state, hanswer⟩ : ∃ answer state,
      P.answer key.number walk.nesting.path walk.state = (answer, state) := ⟨_, _, rfl⟩
  by_cases hthere : length ≤ d.remaining
  · obtain ⟨bytes, e, hpasses, rfl⟩ := Cursor.exists_passes_of_le hthere
    cases answer with
    | skip => rw [field_skipped h hanswer hpasses]; exact .skipped h hanswer hpasses
    | capture => rw [field_captured h hanswer hpasses]; exact .captured h hanswer hpasses
    | descend =>
      by_cases hinside : ∀ stop, walk.nesting.innermostEnd? = some stop →
          d.position + bytes.length ≤ stop
      · rw [field_descended h hanswer hthere hinside]
        exact .descended h hanswer hthere hinside
      · simp only [Classical.not_forall, Nat.not_le] at hinside
        obtain ⟨stop, hstop, houtside⟩ := hinside
        rw [field_outside h hanswer hthere hstop houtside]
        exact .outside h hanswer hthere hstop houtside
  · rw [field_missing h hanswer (by omega)]
    exact .missing h hanswer (by omega)

/-- Every field comes to one of the ends. -/
theorem fieldOutcome (P : Policy σ) (walk : Walk σ) : FieldOutcome P walk (field P walk) := by
  cases hkey : Cursor.readKey walk.cursor with
  | error fault c =>
    rw [field_badKey hkey]
    exact .badKey hkey
  | ok key c =>
    by_cases hroom : ∀ limit, walk.limits.maxDepth = some limit → walk.nesting.depth < limit
    · have h : walk.Keyed key c := ⟨hkey, hroom⟩
      by_cases hpayload : key.wireType = .lengthDelimited
      · cases hlength : Cursor.readVarint c with
        | error fault d =>
          obtain rfl := Cursor.fault_of_readVarint hlength
          rw [field_noLength h hpayload hlength]
          exact .noLength h hpayload hlength
        | ok word d => exact fieldOutcome_sized ⟨h, hpayload, word, hlength, rfl⟩
      · exact fieldOutcome_scalar h hpayload
    · simp only [Classical.not_forall, Nat.not_lt] at hroom
      obtain ⟨limit, hlimit, hdeep⟩ := hroom
      rw [field_tooDeep hkey hlimit hdeep]
      exact .tooDeep hkey hlimit hdeep

end Walk
end FieldSieve
