import FieldSieve.Proofs.CallOrder
import FieldSieve.Proofs.OpenedTrees
import Mathlib.Data.List.TakeWhile

/-!
# The last message at a path

Many messages may stand at one path, and a policy may want the fields of the last one only.  All it
can do is forget what it holds when it is asked about a message there, and hold what it is given at
the path of the field (`Call.hold`).

That is enough because calls are nested.  A value at the path of the field is inside a message that
the policy has been asked about, and since then no other message has been entered there.  So what
the policy holds is of the last message that it was asked about, whatever was broken off before
(`Call.foldl_hold_of_nested`).  In a tree, that message is the last one at the path as the buffer
has them (`Node.foldl_hold_callsAll`).
-/
namespace FieldSieve

namespace CapturedField

variable {wireType : WireType} {path : FieldPath}

/-- The value of a field, if the field has a type and a path. -/
def valueAt? (wireType : WireType) (path : FieldPath) (field : CapturedField) : Option Bytes :=
  if field.wireType = wireType ∧ field.path = path then some field.value else none

/-- The values of one type at one path. -/
def valuesAt (wireType : WireType) (path : FieldPath) (fields : List CapturedField) : List Bytes :=
  fields.filterMap (valueAt? wireType path)

theorem valuesAt_append (fields more : List CapturedField) :
    valuesAt wireType path (fields ++ more) =
      valuesAt wireType path fields ++ valuesAt wireType path more :=
  List.filterMap_append

/-- Fields at other paths have no say in it. -/
theorem valuesAt_filter (fields : List CapturedField) :
    valuesAt wireType path (fields.filter (·.path == path)) = valuesAt wireType path fields := by
  rw [valuesAt, List.filterMap_filter]
  refine congrArg (List.filterMap · fields) (funext fun field => ?_)
  by_cases h : field.path = path <;> simp [valueAt?, h]

end CapturedField

namespace Call

open CapturedField (valuesAt)

/-- The policy is asked about the field at a path. -/
def asksAbout (path : FieldPath) : Call → Bool
  | asked number parent _ => parent.child number == path
  | delivered _ _ _ _ => false

/-- The call is about a field inside a message. -/
def isInside (message : FieldPath) (call : Call) : Bool :=
  message.isAncestorOrSelf call.path.parent

/-- The calls inside the last message at a path that the policy was asked about, if it was asked
about one: those behind the last question, up to the first one that is about another field. -/
def lastInside? (message : FieldPath) : List Call → Option (List Call)
  | [] => none
  | call :: calls => (lastInside? message calls).or <|
    if call.asksAbout message then some (calls.takeWhile (isInside message)) else none

/-- The value that the call brings, if it brings one of a type at a path. -/
def valueAt? (wireType : WireType) (path : FieldPath) (call : Call) : Option Bytes :=
  call.received?.bind (CapturedField.valueAt? wireType path)

/-- The last payload at a path, of those inside the last message that the policy was asked about. -/
def lastPayload? (message path : FieldPath) (calls : List Call) : Option Bytes :=
  (lastInside? message calls).bind fun inside =>
    (valuesAt .lengthDelimited path (inside.filterMap received?)).getLast?

/-- The last value of a type at a path, with another one from before. -/
def latest (wireType : WireType) (path : FieldPath) (held : Option Bytes) (call : Call) :
    Option Bytes :=
  (call.valueAt? wireType path).or held

/-- What is held of a payload in a message: nothing once there is a question about the message, and
otherwise the last one. -/
def hold (message path : FieldPath) (held : Option Bytes) (call : Call) : Option Bytes :=
  if call.asksAbout message then none else latest .lengthDelimited path held call

variable {message path outer : FieldPath} {number own : UInt64} {wireType : WireType}
  {call : Call} {calls more between : List Call} {held : Option Bytes}

theorem valuesAt_received (calls : List Call) :
    valuesAt wireType path (calls.filterMap received?) = calls.filterMap (valueAt? wireType path) :=
  List.filterMap_filterMap

/-- Without a question the last value is held. -/
theorem foldl_latest : calls.foldl (latest wireType path) held =
    (valuesAt wireType path (calls.filterMap received?)).getLast?.or held := by
  rw [valuesAt_received]
  induction calls generalizing held with
  | nil => rfl
  | cons call calls ih =>
    rw [List.foldl_cons, ih, latest]
    cases hvalue : call.valueAt? wireType path with
    | none => rw [List.filterMap_cons_none hvalue, Option.none_or]
    | some value =>
      rw [List.filterMap_cons_some hvalue, List.getLast?_cons]
      cases (calls.filterMap (valueAt? wireType path)).getLast? <;> rfl

theorem foldl_hold_of_not_asked (h : ∀ call ∈ calls, call.asksAbout message = false) :
    calls.foldl (hold message path) held = calls.foldl (latest .lengthDelimited path) held := by
  induction calls generalizing held with
  | nil => rfl
  | cons call calls ih =>
    rw [List.forall_mem_cons] at h
    rw [List.foldl_cons, List.foldl_cons, ih h.2, hold, h.1]
    rfl

/-- A message is not inside itself. -/
theorem asksAbout_of_isInside (h : call.isInside message = true) :
    call.asksAbout message = false := by
  cases call with
  | delivered wireType number value path => rfl
  | asked number parent answer =>
    rw [asksAbout, beq_eq_false_iff_ne]
    rintro rfl
    exact Bool.false_ne_true (FieldPath.not_isAncestorOrSelf_of_child.symm.trans h)

/-- A question about a message that a rule enters is answered with `descend`. -/
theorem asksAbout_of_closed {rule : FieldPath → Decision} (hopen : rule message = .descend)
    (hanswered : call.AnsweredBy rule)
    (hclosed : ∀ number parent, call ≠ .asked number parent .descend) :
    call.asksAbout message = false := by
  cases call with
  | delivered wireType number value path => rfl
  | asked number parent answer =>
    rw [asksAbout, beq_eq_false_iff_ne]
    rintro rfl
    obtain rfl : answer = .descend := Eq.trans hanswered hopen
    exact hclosed number parent rfl

theorem lastInside?_eq_none (h : ∀ call ∈ calls, call.asksAbout message = false) :
    lastInside? message calls = none := by
  induction calls with
  | nil => rfl
  | cons call calls ih =>
    rw [List.forall_mem_cons] at h
    simp [lastInside?, ih h.2, h.1]

theorem lastInside?_concat_asked (h : call.asksAbout message = true) :
    lastInside? message (calls ++ [call]) = some [] := by
  induction calls with
  | nil => simp [lastInside?, h]
  | cons first calls ih => simp [lastInside?, ih]

theorem lastInside?_concat_outside (hasked : call.asksAbout message = false)
    (hinside : call.isInside message = false) :
    lastInside? message (calls ++ [call]) = lastInside? message calls := by
  induction calls with
  | nil => simp [lastInside?, hasked]
  | cons first calls ih =>
    have htake : (calls ++ [call]).takeWhile (isInside message) =
        calls.takeWhile (isInside message) := by
      rw [List.takeWhile_append, List.takeWhile_cons_of_neg (by simp [hinside]), List.append_nil]
      split
      · next hall => exact ((List.takeWhile_prefix _).eq_of_length hall).symm
      · rfl
    rw [List.cons_append, lastInside?, ih, htake, lastInside?]

/-- What comes behind a question and is about fields inside its message is the last one's. -/
theorem lastInside?_of_inside {earlier : List Call} (hasked : call.asksAbout message = true)
    (h : ∀ call ∈ between, call.isInside message = true) :
    lastInside? message (earlier ++ call :: between) = some between := by
  induction earlier with
  | nil =>
    have hnone : lastInside? message between = none :=
      lastInside?_eq_none fun call hcall => asksAbout_of_isInside (h call hcall)
    have htake : between.takeWhile (isInside message) = between := List.takeWhile_eq_self_iff.mpr h
    rw [List.nil_append, lastInside?, hnone, hasked, htake]
    rfl
  | cons first earlier ih => rw [List.cons_append, lastInside?, ih, Option.some_or]

/-- A call about a field inside the message is inside the last one, because that one has been
entered and not been left. -/
theorem lastInside?_concat_inside (h : Entered calls outer number)
    (hinside : call.isInside (outer.child number) = true) :
    ∃ inside, lastInside? (outer.child number) calls = some inside ∧
      lastInside? (outer.child number) (calls ++ [call]) = some (inside ++ [call]) := by
  obtain ⟨earlier, between, rfl, -, hbetween⟩ := h
  have hasked : (asked number outer .descend).asksAbout (outer.child number) = true := by
    simp [asksAbout]
  refine ⟨between, lastInside?_of_inside hasked hbetween, ?_⟩
  rw [List.append_assoc, List.cons_append]
  exact lastInside?_of_inside hasked
    (List.forall_mem_append.mpr ⟨hbetween, List.forall_mem_singleton.mpr hinside⟩)

theorem Nested.of_append (h : Nested (calls ++ more)) : Nested calls := by
  intro front call back hsplit
  exact h front call (back ++ more) (by rw [hsplit, List.append_assoc, List.cons_append])

theorem getLast?_valuesAt_concat :
    (valuesAt wireType path ((calls ++ [call]).filterMap received?)).getLast? =
      latest wireType path (valuesAt wireType path (calls.filterMap received?)).getLast? call := by
  have hcalls : calls.foldl (latest wireType path) none = _ := foldl_latest
  have hmore : (calls ++ [call]).foldl (latest wireType path) none = _ := foldl_latest
  rw [Option.or_none] at hcalls hmore
  rw [← hmore, ← hcalls, List.foldl_append]
  rfl

/-- A value at the path of a field of the message is inside the message. -/
theorem valueAt?_of_outside (h : call.isInside message = false) :
    call.valueAt? wireType (message.child own) = none := by
  cases call with
  | asked number parent answer => rfl
  | delivered type number value path =>
    refine if_neg ?_
    rintro ⟨-, rfl⟩
    cases h.symm.trans (FieldPath.isAncestorOrSelf_refl message)

/-- A call moves what is held as it moves the last payload. -/
theorem hold_lastPayload? (h : Nested (calls ++ [call])) :
    hold (outer.child number) ((outer.child number).child own)
        (lastPayload? (outer.child number) ((outer.child number).child own) calls) call =
      lastPayload? (outer.child number) ((outer.child number).child own) (calls ++ [call]) := by
  rw [hold, lastPayload?, lastPayload?]
  cases hasked : call.asksAbout (outer.child number) with
  | true => rw [if_pos rfl, lastInside?_concat_asked hasked]; rfl
  | false =>
    rw [if_neg Bool.false_ne_true]
    cases hinside : call.isInside (outer.child number) with
    | true =>
      obtain ⟨inside, hcalls, hmore⟩ :=
        lastInside?_concat_inside (h calls call [] rfl outer number hinside) hinside
      rw [hcalls, hmore]
      exact getLast?_valuesAt_concat.symm
    | false =>
      rw [lastInside?_concat_outside hasked hinside, latest, valueAt?_of_outside hinside]
      rfl

theorem foldl_hold_lastPayload? {front : List Call} (h : Nested (front ++ calls)) :
    calls.foldl (hold (outer.child number) ((outer.child number).child own))
        (lastPayload? (outer.child number) ((outer.child number).child own) front) =
      lastPayload? (outer.child number) ((outer.child number).child own) (front ++ calls) := by
  induction calls generalizing front with
  | nil => rw [List.append_nil, List.foldl_nil]
  | cons call calls ih =>
    rw [List.append_cons] at h ⊢
    rw [List.foldl_cons, hold_lastPayload? h.of_append, ih h]

/-- What is held after calls that are nested is the last payload in the last message. -/
theorem foldl_hold_of_nested (h : Nested calls) :
    calls.foldl (hold (outer.child number) ((outer.child number).child own)) none =
      lastPayload? (outer.child number) ((outer.child number).child own) calls :=
  foldl_hold_lastPayload? (show Nested ([] ++ calls) from h)

end Call

namespace Node

open CapturedField (valuesAt)

mutual

/-- The fields of each message at a path, in a field of the message at `parent`. -/
def contentsAt (target parent : FieldPath) : Node → List (List Node)
  | scalar _ _ => []
  | payload _ _ _ => []
  | message number fields =>
    if parent.child number = target then [fields]
    else contentsAtAll target (parent.child number) fields

/-- The fields of each message at a path, in the message at `parent`, as they stand there. -/
def contentsAtAll (target parent : FieldPath) : List Node → List (List Node)
  | [] => []
  | node :: rest => node.contentsAt target parent ++ contentsAtAll target parent rest

end

/-- The last payload at a path, of those in the last message at another path. -/
def lastPayload? (target path parent : FieldPath) (fields : List Node) : Option Bytes :=
  (contentsAtAll target parent fields).getLast?.bind fun inner =>
    (valuesAt .lengthDelimited path (leavesAll target inner)).getLast?

variable {rule : FieldPath → Decision} {target path : FieldPath} {number own : UInt64}
  {wireType : WireType} {fields : List Node} {call : Call} {held : Option Bytes}

theorem contentsAtAll_undeliveredAll (target path : FieldPath) (fields : List Node) :
    contentsAtAll target path (undeliveredAll fields) =
      (contentsAtAll target path fields).map undeliveredAll := by
  match fields with
  | [] => rfl
  | .scalar number value :: rest | .payload number value delivered :: rest =>
    exact contentsAtAll_undeliveredAll target path rest
  | .message number inner :: rest =>
    rw [undeliveredAll, undelivered, contentsAtAll, contentsAtAll, contentsAt, contentsAt,
      List.map_append, contentsAtAll_undeliveredAll target path rest]
    split
    · rfl
    · rw [contentsAtAll_undeliveredAll target (path.child number) inner]

theorem lastPayload?_undeliveredAll (target path parent : FieldPath) (fields : List Node) :
    lastPayload? target path parent (undeliveredAll fields) =
      lastPayload? target path parent fields := by
  rw [lastPayload?, lastPayload?, contentsAtAll_undeliveredAll, List.getLast?_map]
  cases (contentsAtAll target parent fields).getLast? with
  | none => rfl
  | some inner =>
    simp only [Option.map_some, Option.bind_some, leavesAll_undeliveredAll]

/-- All calls of a walk over a message are about fields inside it. -/
theorem isInside_of_mem_callsAll {path : FieldPath} {fields : List Node}
    (h : call ∈ callsAll path fields) : call.isInside path = true := by
  have hself := path.isAncestorOrSelf_refl
  match fields with
  | [] => cases h
  | node :: rest =>
    rcases List.mem_append.mp h with hnode | hrest
    · match node with
      | .scalar number value =>
        cases List.mem_singleton.mp hnode
        exact hself
      | .payload number value delivered =>
        rw [Call.isInside, path_of_mem_calls_payload hnode, FieldPath.parent_child]
        exact hself
      | .message number inner =>
        rcases List.mem_cons.mp hnode with rfl | hinner
        · exact hself
        · exact FieldPath.isAncestorOrSelf_trans (FieldPath.isAncestorOrSelf_child.mpr (.inl hself))
            (isInside_of_mem_callsAll hinner)
    · exact isInside_of_mem_callsAll hrest

/-- The values given at a path where no payload is passed over are those of the leaves. -/
theorem valuesAt_callsAll (hgiven : rule path ≠ .skip) (parent : FieldPath) (fields : List Node)
    (h : ∀ call ∈ callsAll parent fields, call.AnsweredBy rule) :
    valuesAt wireType path ((callsAll parent fields).filterMap Call.received?) =
      valuesAt wireType path (leavesAll parent fields) := by
  have hkeeps : ∀ other, (other == path) = true → rule other ≠ .skip := by
    intro other heq
    rwa [eq_of_beq heq]
  rw [← CapturedField.valuesAt_filter, received_callsAll hkeeps parent fields h,
    CapturedField.valuesAt_filter]

/-- The last payload at a path in a message is held when its fields have been walked over. -/
theorem foldl_hold_inside (hgiven : rule (target.child own) ≠ .skip)
    (h : ∀ call ∈ callsAll target fields, call.AnsweredBy rule) :
    (callsAll target fields).foldl (Call.hold target (target.child own)) none =
      (valuesAt .lengthDelimited (target.child own) (leavesAll target fields)).getLast? := by
  rw [Call.foldl_hold_of_not_asked fun call hcall =>
      Call.asksAbout_of_isInside (isInside_of_mem_callsAll hcall),
    Call.foldl_latest, Option.or_none, valuesAt_callsAll hgiven target fields h]

/-- Fields elsewhere that are not entered leave what is held. -/
theorem foldl_hold_outside {calls : List Call}
    (hasked : ∀ call ∈ calls, call.asksAbout target = false)
    (houtside : ∀ call ∈ calls, call.isInside target = false) :
    calls.foldl (Call.hold target (target.child own)) held = held := by
  rw [Call.foldl_hold_of_not_asked hasked, Call.foldl_latest, Call.valuesAt_received,
    List.filterMap_eq_nil_iff.mpr fun call hcall => Call.valueAt?_of_outside (houtside call hcall)]
  rfl

theorem foldl_hold_payload {value : Bytes} {delivered : Bool} (hopen : rule target = .descend)
    (houtside : target.isAncestorOrSelf path = false)
    (h : ∀ call ∈ (payload number value delivered).calls path, call.AnsweredBy rule) :
    ((payload number value delivered).calls path).foldl (Call.hold target (target.child own)) held =
      held := by
  refine foldl_hold_outside (fun call hcall => ?_) fun call hcall => ?_
  · refine Call.asksAbout_of_closed hopen (h call hcall) ?_
    rintro _ _ rfl
    cases delivered <;> simp [calls] at hcall
  · rw [Call.isInside, path_of_mem_calls_payload hcall]
    exact houtside

/-- What is held when a message has been walked over is of the last message at the path in it. -/
theorem foldl_hold_callsAll (hopen : rule target = .descend)
    (hgiven : rule (target.child own) ≠ .skip) (path : FieldPath) (fields : List Node)
    (houtside : target.isAncestorOrSelf path = false)
    (h : ∀ call ∈ callsAll path fields, call.AnsweredBy rule) (held : Option Bytes) :
    (callsAll path fields).foldl (Call.hold target (target.child own)) held =
      ((contentsAtAll target path fields).getLast?.map fun inner =>
        (valuesAt .lengthDelimited (target.child own) (leavesAll target inner)).getLast?).getD
          held := by
  match fields with
  | [] => rfl
  | node :: rest =>
    obtain ⟨hfirst, hrest⟩ := List.forall_mem_append.mp h
    rw [callsAll, List.foldl_append, foldl_hold_callsAll hopen hgiven path rest houtside hrest,
      contentsAtAll, List.getLast?_append]
    cases node with
    | scalar number value =>
      rw [foldl_hold_outside (by simp [calls, Call.asksAbout])
        (by simpa [calls, Call.isInside, Call.path] using houtside)]
      simp [contentsAt]
    | payload number value delivered =>
      rw [foldl_hold_payload hopen houtside hfirst]
      simp [contentsAt]
    | message number inner =>
      obtain ⟨hanswer, hinner⟩ := List.forall_mem_cons.mp hfirst
      rw [calls, List.foldl_cons, contentsAt]
      by_cases heq : path.child number = target
      · -- The question forgets, and the fields of the message are walked over next.
        subst heq
        have hforgets : Call.hold (path.child number) ((path.child number).child own) held
            (.asked number path .descend) = none := if_pos (beq_self_eq_true _)
        rw [if_pos rfl, hforgets, foldl_hold_inside hgiven hinner]
        cases (contentsAtAll (path.child number) path rest).getLast? <;> rfl
      · have hkeeps : Call.hold target (target.child own) held (.asked number path .descend) =
            held := if_neg (by simpa [Call.asksAbout] using heq)
        have hdeeper : target.isAncestorOrSelf (path.child number) = false := by
          rw [← Bool.not_eq_true, FieldPath.isAncestorOrSelf_child, houtside]
          simpa using Ne.symm heq
        rw [if_neg heq, hkeeps,
          foldl_hold_callsAll hopen hgiven (path.child number) inner hdeeper hinner]
        cases (contentsAtAll target path rest).getLast? <;> rfl

theorem foldl_hold_eq_lastPayload? (hopen : rule target = .descend)
    (hgiven : rule (target.child own) ≠ .skip) (houtside : target.isAncestorOrSelf path = false)
    (h : ∀ call ∈ callsAll path fields, call.AnsweredBy rule) :
    (callsAll path fields).foldl (Call.hold target (target.child own)) none =
      lastPayload? target (target.child own) path fields := by
  rw [foldl_hold_callsAll hopen hgiven path fields houtside h, lastPayload?]
  cases (contentsAtAll target path fields).getLast? <;> rfl

end Node
end FieldSieve
