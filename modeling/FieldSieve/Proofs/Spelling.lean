import FieldSieve.Event
import FieldSieve.Proofs.WrittenFields

/-!
# Messages as they stand in a buffer

`Node.Spells` is the grammar of a message under a policy: the fields in order, each as its item
stands in the buffer, and an entered payload made of fields in the same way.  Besides the bytes it
says which events a scan of them leaves.  It knows no policy.  What ties the two together is
`Policy.replay`: the answers that stand in the calls of a tree are those that the policy gives.

The reading of a message from its own bytes accepts exactly what the grammar allows and the policy
agrees to (`Node.decodeAll_of_spells`, `Node.spells_of_decodeAll`).
-/
namespace FieldSieve

namespace Policy

variable {σ : Type} {P : Policy σ} {state last : σ} {calls more : List Call}

/-- The policy's state after these calls, if it gives the answers that stand in them. -/
def replay (P : Policy σ) : List Call → σ → Option σ
  | [], state => some state
  | .asked number parent answer :: calls, state =>
    if (P.answer number parent state).1 = answer then
      replay P calls (P.answer number parent state).2
    else none
  | .delivered wireType number value path :: calls, state =>
    replay P calls (P.deliver wireType number value path state)

theorem replay_append :
    P.replay (calls ++ more) state = (P.replay calls state).bind (P.replay more) := by
  induction calls generalizing state with
  | nil => rfl
  | cons call calls ih =>
    cases call with
    | asked number parent answer =>
      simp only [List.cons_append, replay]
      split
      · exact ih
      · rfl
    | delivered wireType number value path => exact ih

theorem replay_append_eq_some_iff : P.replay (calls ++ more) state = some last ↔
    ∃ between, P.replay calls state = some between ∧ P.replay more between = some last := by
  rw [replay_append, Option.bind_eq_some_iff]

theorem replay_asked_eq_some_iff {number : UInt64} {parent : FieldPath} {answer : Decision} :
    P.replay (.asked number parent answer :: calls) state = some last ↔
      ∃ next, P.answer number parent state = (answer, next) ∧ P.replay calls next = some last := by
  constructor
  · intro h
    simp only [replay] at h
    split at h
    · next hanswer => exact ⟨_, Prod.ext hanswer rfl, h⟩
    · cases h
  · rintro ⟨next, hanswer, h⟩
    simp only [replay, hanswer, if_true, h]

/-- A recorded policy gives the same answers, and keeps the calls. -/
theorem replay_recorded {log : Array Call} :
    P.recorded.replay calls (state, log) = (P.replay calls state).map (·, log ++ calls) := by
  induction calls generalizing state log with
  | nil => simp [replay]
  | cons call calls ih =>
    cases call with
    | asked number parent answer =>
      by_cases h : (P.answer number parent state).1 = answer
      · subst h
        rw [replay, replay, if_pos rfl, if_pos (answer_recorded ..)]
        refine ih.trans ?_
        simp
      · rw [replay, replay, if_neg h, if_neg (by rwa [answer_recorded])]
        rfl
    | delivered wireType number value path =>
      rw [replay, replay]
      refine ih.trans ?_
      simp

end Policy

namespace Node

mutual

/-- How many frames a field needs, its own included. -/
def height : Node → Nat
  | scalar _ _ => 1
  | payload _ _ _ => 1
  | message _ fields => heightAll fields + 1

/-- How many frames the fields of a message need at the most. -/
def heightAll : List Node → Nat
  | [] => 0
  | node :: rest => max node.height (heightAll rest)

end

/-- Some fields as they stand in a message: the offset of the first byte and the path of the
message, the fields, their bytes, and the events that a scan of them leaves. -/
inductive Spells : Nat → FieldPath → List Node → Bytes → List Event → Prop
  | nil {offset : Nat} {path : FieldPath} : Spells offset path [] [] []
  | scalar {offset : Nat} {path : FieldPath} {number : UInt64} {value : Scalar}
      {fields : List Node} {written rest : Bytes} {events : List Event}
      (hwritten : Item.Written (.scalar number value) written)
      (hrest : Spells (offset + written.length) path fields rest events) :
    Spells offset path (.scalar number value :: fields) (written ++ rest)
      (.keyRead offset ⟨value.wireType, number⟩ (path.child number) ::
        .delivered value.wireType number value.bytes (path.child number) :: events)
  | payload {offset : Nat} {path : FieldPath} {number : UInt64} {value : Bytes}
      {delivered : Bool} {fields : List Node} {head rest : Bytes} {events : List Event}
      (hwritten : Item.Written (.payload number value) (head ++ value))
      (hrest : Spells (offset + (head ++ value).length) path fields rest events) :
    Spells offset path (.payload number value delivered :: fields) (head ++ value ++ rest)
      (.keyRead offset ⟨.lengthDelimited, number⟩ (path.child number) ::
        .asked number path (offset + head.length) value.length
          (if delivered then .capture else .skip) ::
        ((if delivered then [.delivered .lengthDelimited number value (path.child number)] else [])
          ++ events))
  | message {offset : Nat} {path : FieldPath} {number : UInt64} {value : Bytes}
      {inner fields : List Node} {head rest : Bytes} {innerEvents events : List Event}
      (hwritten : Item.Written (.payload number value) (head ++ value))
      (hinner : Spells (offset + head.length) (path.child number) inner value innerEvents)
      (hrest : Spells (offset + (head ++ value).length) path fields rest events) :
    Spells offset path (.message number inner :: fields) (head ++ value ++ rest)
      (.keyRead offset ⟨.lengthDelimited, number⟩ (path.child number) ::
        .asked number path (offset + head.length) value.length .descend :: (innerEvents ++ events))

variable {σ : Type} {P : Policy σ} {path : FieldPath} {bytes rest : Bytes} {state next last : σ}
  {number : UInt64} {fields : List Node} {offset : Nat} {events : List Event}

/-- The calls among the events of some fields are those of the walk over them. -/
theorem Spells.calls (h : Spells offset path fields bytes events) :
    events.filterMap Event.call? = callsAll path fields := by
  induction h with
  | nil => rfl
  | scalar _ _ ih => simp [List.filterMap_cons, Event.call?, callsAll, Node.calls, ih]
  | @payload _ _ _ _ delivered _ _ _ _ _ _ ih =>
    cases delivered <;> simp [List.filterMap_cons, Event.call?, callsAll, Node.calls, ih]
  | message _ _ _ ihInner ih =>
    simp [List.filterMap_cons, Event.call?, callsAll, Node.calls, ihInner, ih]

theorem decodeAll_nil : decodeAll P path [] state = some ([], state) := by
  rw [decodeAll]
  rfl

theorem decodeAll_of_split?_eq_none (hbytes : bytes ≠ []) (h : Item.split? bytes = none) :
    decodeAll P path bytes state = none := by
  rw [decodeAll, if_neg (by simpa using hbytes)]
  split
  · rfl
  · next hs => cases h.symm.trans hs
  · next hs => cases h.symm.trans hs

theorem ne_nil_of_split? {item : Item} (h : Item.split? bytes = some (item, rest)) :
    bytes ≠ [] := by
  obtain ⟨written, hwritten, rfl⟩ := Item.split?_eq_some_iff.mp h
  simp [hwritten.ne_nil]

theorem decodeAll_scalar {value : Scalar}
    (h : Item.split? bytes = some (.scalar number value, rest)) :
    decodeAll P path bytes state =
      (decodeAll P path rest
        (P.deliver value.wireType number value.bytes (path.child number) state)).map
        fun result => (.scalar number value :: result.1, result.2) := by
  rw [decodeAll, if_neg (by simpa using ne_nil_of_split? h)]
  split
  · next hs => cases h.symm.trans hs
  · next hs =>
    cases h.symm.trans hs
    rw [Option.map_eq_bind]
    rfl
  · next hs => cases h.symm.trans hs

theorem decodeAll_payload {value : Bytes}
    (h : Item.split? bytes = some (.payload number value, rest)) :
    decodeAll P path bytes state =
      match P.answer number path state with
      | (.skip, next) => (decodeAll P path rest next).map
        fun result => (.payload number value false :: result.1, result.2)
      | (.capture, next) =>
        (decodeAll P path rest
          (P.deliver .lengthDelimited number value (path.child number) next)).map
          fun result => (.payload number value true :: result.1, result.2)
      | (.descend, next) => (decodeAll P (path.child number) value next).bind fun inner =>
        (decodeAll P path rest inner.2).map
          fun result => (.message number inner.1 :: result.1, result.2) := by
  rw [decodeAll, if_neg (by simpa using ne_nil_of_split? h)]
  split
  · next hs => cases h.symm.trans hs
  · next hs => cases h.symm.trans hs
  · next hs =>
    cases h.symm.trans hs
    simp only [Option.map_eq_bind]
    rfl

/-- Fields as they stand are decoded, if the policy gives the answers that made them these. -/
theorem decodeAll_of_spells (h : Spells offset path fields bytes events)
    (hreplay : P.replay (callsAll path fields) state = some last) :
    decodeAll P path bytes state = some (fields, last) := by
  induction h generalizing state last with
  | nil =>
    cases hreplay
    exact decodeAll_nil
  | scalar hwritten _ ih =>
    rw [decodeAll_scalar (Item.split?_eq_some_iff.mpr ⟨_, hwritten, rfl⟩), ih hreplay]
    rfl
  | @payload _ _ _ _ delivered _ _ _ _ hwritten _ ih =>
    rw [decodeAll_payload (Item.split?_eq_some_iff.mpr ⟨_, hwritten, rfl⟩)]
    cases delivered with
    | false =>
      obtain ⟨next, hanswer, hrest⟩ := Policy.replay_asked_eq_some_iff.mp hreplay
      rw [hanswer]
      dsimp only
      rw [ih hrest]
      rfl
    | true =>
      obtain ⟨next, hanswer, hrest⟩ := Policy.replay_asked_eq_some_iff.mp hreplay
      rw [hanswer]
      dsimp only
      rw [ih hrest]
      rfl
  | message hwritten _ _ ihInner ih =>
    rw [decodeAll_payload (Item.split?_eq_some_iff.mpr ⟨_, hwritten, rfl⟩)]
    obtain ⟨next, hanswer, hmore⟩ := Policy.replay_asked_eq_some_iff.mp hreplay
    obtain ⟨between, hinner, hrest⟩ := Policy.replay_append_eq_some_iff.mp hmore
    rw [hanswer]
    dsimp only
    rw [ihInner hinner, Option.bind_some, ih hrest]
    rfl

/-- What is decoded are fields as they stand, and the policy gave the answers that made them
these. -/
theorem spells_of_decodeAll (h : decodeAll P path bytes state = some (fields, last))
    (offset : Nat) : ∃ events, Spells offset path fields bytes events ∧
      P.replay (callsAll path fields) state = some last := by
  -- On the length: the decoder goes into the payload and on behind it, and both are shorter.
  induction hn : bytes.length using Nat.strongRecOn
    generalizing bytes path state fields last offset with
  | ind length ih =>
    subst hn
    by_cases hbytes : bytes = []
    · subst hbytes
      rw [decodeAll_nil] at h
      cases h
      exact ⟨[], .nil, rfl⟩
    · cases hsplit : Item.split? bytes with
      | none =>
        rw [decodeAll_of_split?_eq_none hbytes hsplit] at h
        cases h
      | some found =>
        obtain ⟨item, rest⟩ := found
        have hshort := Item.length_lt_of_split? hsplit
        obtain ⟨written, hwritten, rfl⟩ := Item.split?_eq_some_iff.mp hsplit
        cases item with
        | scalar number value =>
          rw [decodeAll_scalar hsplit] at h
          obtain ⟨⟨tail, _⟩, htail, ⟨⟩⟩ := Option.map_eq_some_iff.mp h
          obtain ⟨events, hspells, hreplay⟩ := ih _ (by omega) htail (offset + written.length) rfl
          exact ⟨_, .scalar hwritten hspells, hreplay⟩
        | payload number value =>
          rw [decodeAll_payload hsplit] at h
          obtain ⟨form, lengthForm, rfl, -⟩ := hwritten.of_payload
          rw [Item.payloadLength] at hshort
          split at h
          · next next hanswer =>
            obtain ⟨⟨tail, _⟩, htail, ⟨⟩⟩ := Option.map_eq_some_iff.mp h
            obtain ⟨events, hspells, hreplay⟩ := ih _ (by omega) htail _ rfl
            exact ⟨_, .payload hwritten hspells,
              Policy.replay_asked_eq_some_iff.mpr ⟨next, hanswer, hreplay⟩⟩
          · next next hanswer =>
            obtain ⟨⟨tail, _⟩, htail, ⟨⟩⟩ := Option.map_eq_some_iff.mp h
            obtain ⟨events, hspells, hreplay⟩ := ih _ (by omega) htail _ rfl
            exact ⟨_, .payload hwritten hspells,
              Policy.replay_asked_eq_some_iff.mpr ⟨next, hanswer, hreplay⟩⟩
          · next next hanswer =>
            obtain ⟨⟨inner, between⟩, hinner, h⟩ := Option.bind_eq_some_iff.mp h
            obtain ⟨⟨tail, _⟩, htail, ⟨⟩⟩ := Option.map_eq_some_iff.mp h
            obtain ⟨innerEvents, hinside, hfirst⟩ := ih _ (by omega) hinner _ rfl
            obtain ⟨events, hspells, hsecond⟩ := ih _ (by omega) htail _ rfl
            exact ⟨_, .message hwritten hinside hspells,
              Policy.replay_asked_eq_some_iff.mpr ⟨next, hanswer,
                Policy.replay_append_eq_some_iff.mpr ⟨between, hfirst, hsecond⟩⟩⟩

end Node
end FieldSieve
