import FieldSieve.Capture
import FieldSieve.Proofs.Calls
import FieldSieve.Proofs.SlicedScan

/-!
# The tree that a rule opens

Which messages a policy enters is one thing, what it is given another.  Where the first depends on
the path alone, the tree of a buffer can be read without the policy: `Policy.opening` enters the
messages at certain paths and is given nothing.  A policy that enters just these messages goes over
the same tree (`exists_opened_of_scan`), and what it is given is in order among the leaves of that
tree, the fields that are not entered (`Node.received_callsAll`).
-/
namespace FieldSieve

/-- What the policy is given, if it is given something. -/
def Call.received? : Call → Option CapturedField
  | .asked _ _ _ => none
  | .delivered wireType _ value path => some ⟨path, wireType, value⟩

/-- The messages at some paths are entered, and all other payloads are passed over. -/
def Decision.opening (opens : FieldPath → Bool) (path : FieldPath) : Decision :=
  if opens path then .descend else .skip

/-- The policy that enters the messages at some paths and does nothing else. -/
def Policy.opening (opens : FieldPath → Bool) : Policy Unit where
  answer number parent state := (.opening opens (parent.child number), state)
  deliver _ _ _ _ state := state

theorem Policy.decidesBy_opening (opens : FieldPath → Bool) :
    (opening opens).DecidesBy (.opening opens) :=
  fun _ _ _ => rfl

namespace Node

mutual

/-- The field with no payload in it delivered. -/
def undelivered : Node → Node
  | scalar number value => scalar number value
  | payload number value _ => payload number value false
  | message number fields => message number (undeliveredAll fields)

/-- The fields with no payload in them delivered. -/
def undeliveredAll : List Node → List Node
  | [] => []
  | node :: rest => node.undelivered :: undeliveredAll rest

end

mutual

/-- The fields that are not entered, in a field of the message at `parent`. -/
def leaves (parent : FieldPath) : Node → List CapturedField
  | scalar number value => [⟨parent.child number, value.wireType, value.bytes⟩]
  | payload number value _ => [⟨parent.child number, .lengthDelimited, value⟩]
  | message number fields => leavesAll (parent.child number) fields

/-- The fields that are not entered, in the message at `parent`, as they stand there. -/
def leavesAll (parent : FieldPath) : List Node → List CapturedField
  | [] => []
  | node :: rest => node.leaves parent ++ leavesAll parent rest

end

variable {rule : FieldPath → Decision} {opens keeps : FieldPath → Bool} {path : FieldPath}
  {offset : Nat} {bytes : Bytes} {fields : List Node} {events : List Event}

/-- Whether payloads are delivered changes no byte. -/
theorem Spells.undelivered (h : Spells offset path fields bytes events) :
    ∃ more, Spells offset path (undeliveredAll fields) bytes more := by
  induction h with
  | nil => exact ⟨_, .nil⟩
  | scalar hwritten _ ih =>
    obtain ⟨more, hmore⟩ := ih
    exact ⟨_, .scalar hwritten hmore⟩
  | payload hwritten _ ih =>
    obtain ⟨more, hmore⟩ := ih
    exact ⟨_, .payload hwritten hmore⟩
  | message hwritten _ _ ihInner ih =>
    obtain ⟨inside, hinside⟩ := ihInner
    obtain ⟨more, hmore⟩ := ih
    exact ⟨_, .message hwritten hinside hmore⟩

/-- It changes no leaf. -/
theorem leavesAll_undeliveredAll (path : FieldPath) (fields : List Node) :
    leavesAll path (undeliveredAll fields) = leavesAll path fields := by
  match fields with
  | [] => rfl
  | .scalar number value :: rest =>
    simp only [undeliveredAll, Node.undelivered, leavesAll, leavesAll_undeliveredAll path rest]
  | .payload number value delivered :: rest =>
    simp only [undeliveredAll, Node.undelivered, leavesAll, leaves,
      leavesAll_undeliveredAll path rest]
  | .message number inner :: rest =>
    simp only [undeliveredAll, Node.undelivered, leavesAll, leaves,
      leavesAll_undeliveredAll path rest, leavesAll_undeliveredAll (path.child number) inner]

/-- What a rule enters and nothing else, the opening policy would have entered. -/
theorem answered_undelivered (hopens : ∀ path, rule path = .descend ↔ opens path = true)
    (path : FieldPath) (fields : List Node)
    (h : ∀ call ∈ callsAll path fields, call.AnsweredBy rule) :
    ∀ call ∈ callsAll path (undeliveredAll fields), call.AnsweredBy (.opening opens) := by
  have hclosed : ∀ {path : FieldPath}, rule path ≠ .descend →
      Decision.opening opens path = .skip := fun hne => if_neg (hne ∘ (hopens _).mpr)
  match fields with
  | [] => exact nofun
  | .scalar number value :: rest =>
    exact List.forall_mem_cons.mpr ⟨trivial,
      answered_undelivered hopens path rest (List.forall_mem_append.mp h).2⟩
  | .payload number value delivered :: rest =>
    obtain ⟨hfirst, hrest⟩ := List.forall_mem_append.mp h
    have hne : rule (path.child number) ≠ .descend := by
      cases delivered <;> exact fun hd => nomatch (hfirst _ List.mem_cons_self).trans hd
    exact List.forall_mem_cons.mpr ⟨(hclosed hne).symm, answered_undelivered hopens path rest hrest⟩
  | .message number inner :: rest =>
    obtain ⟨hfirst, hrest⟩ := List.forall_mem_append.mp h
    obtain ⟨hasked, hinner⟩ := List.forall_mem_cons.mp hfirst
    have hentered : Decision.opening opens (path.child number) = .descend :=
      if_pos ((hopens _).mp (Eq.symm hasked))
    refine List.forall_mem_cons.mpr ⟨hentered.symm, List.forall_mem_append.mpr ⟨?_, ?_⟩⟩
    · exact answered_undelivered hopens (path.child number) inner hinner
    · exact answered_undelivered hopens path rest hrest

/-- What is given at paths where no payload is passed over are the leaves there, in order. -/
theorem received_callsAll (hkeeps : ∀ path, keeps path = true → rule path ≠ .skip)
    (path : FieldPath) (fields : List Node)
    (h : ∀ call ∈ callsAll path fields, call.AnsweredBy rule) :
    ((callsAll path fields).filterMap Call.received?).filter (keeps ·.path) =
      (leavesAll path fields).filter (keeps ·.path) := by
  match fields with
  | [] => rfl
  | node :: rest =>
    obtain ⟨hfirst, hrest⟩ := List.forall_mem_append.mp h
    rw [callsAll, leavesAll, List.filterMap_append, List.filter_append, List.filter_append,
      received_callsAll hkeeps path rest hrest]
    congr 1
    cases node with
    | scalar number value => rfl
    | payload number value delivered =>
      cases delivered with
      | true => rfl
      | false =>
        have hskip : rule (path.child number) = .skip := (hfirst _ List.mem_cons_self).symm
        have hleft : keeps (path.child number) = false :=
          Bool.eq_false_iff.mpr fun hkept => hkeeps _ hkept hskip
        simp [calls, leaves, Call.received?, hleft]
    | message number inner =>
      exact received_callsAll hkeeps (path.child number) inner (List.forall_mem_cons.mp hfirst).2

end Node

/-- A scan that succeeds under a policy that decides by path goes over the tree that is opened by
the same rule: the two trees differ in what is delivered and in nothing else. -/
theorem exists_opened_of_scan {σ : Type} {P : Policy σ} {rule : FieldPath → Decision}
    {opens : FieldPath → Bool} {bytes : Bytes} {state : σ} {limits : Limits}
    (hP : P.DecidesBy rule) (hopens : ∀ path, rule path = .descend ↔ opens path = true)
    (hok : (scan P bytes state limits).result = .ok ()) :
    ∃ fields, Node.decodeAll (.opening opens) .root bytes () =
        some (Node.undeliveredAll fields, ()) ∧
      (∀ call ∈ Node.callsAll .root fields, call.AnsweredBy rule) ∧
      (scan P bytes state limits).calls = Node.callsAll .root fields ∧
      P.replay (Node.callsAll .root fields) state = some (scan P bytes state limits).state := by
  obtain ⟨hexcess, fields, events, last, hspells, hreplay, hroom⟩ := spelled_of_scan hok
  obtain ⟨-, hstate, hcalls, -⟩ := scan_eq_of_spells hspells hexcess hroom hreplay
  have hanswered : ∀ call ∈ Node.callsAll .root fields, call.AnsweredBy rule :=
    hP.exists_replay_iff.mp ⟨last, hreplay⟩
  obtain ⟨more, hundelivered⟩ := hspells.undelivered
  obtain ⟨_, hopened⟩ := (Policy.decidesBy_opening opens).exists_replay_iff.mpr
    (Node.answered_undelivered hopens .root fields hanswered)
  exact ⟨fields, Node.decodeAll_of_spells hundelivered hopened, hanswered, hcalls,
    hstate.symm ▸ hreplay⟩

end FieldSieve
