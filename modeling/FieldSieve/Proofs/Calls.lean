import FieldSieve.Proofs.Spelling

/-!
# What calls are about

A call concerns one field: a question the field whose payload comes next, a delivery the field whose
value it brings.  Three views of a call are compared between runs: the path of that field, the
question without its answer, and whether a scalar is delivered.

A policy may look at its state when it answers, or at nothing but the path of the field
(`Policy.DecidesBy`).  The answers of the second kind do not depend on what came before, so such a
policy can be led through some calls exactly if the answers that stand in them are its own
(`Policy.DecidesBy.exists_replay_iff`).
-/
namespace FieldSieve

namespace Call

/-- The path of the field that the call is about. -/
def path : Call → FieldPath
  | asked number parent _ => parent.child number
  | delivered _ _ _ path => path

/-- A scalar is delivered. -/
def isScalar : Call → Bool
  | asked _ _ _ => false
  | delivered wireType _ _ _ => wireType.isScalar

/-- What the policy is asked, if it is asked something. -/
def question? : Call → Option (UInt64 × FieldPath)
  | asked number parent _ => some (number, parent)
  | delivered _ _ _ _ => none

/-- If something is asked, the answer is that of a rule. -/
def AnsweredBy (rule : FieldPath → Decision) : Call → Prop
  | asked number parent answer => answer = rule (parent.child number)
  | delivered _ _ _ _ => True

end Call

/-- Both calls about a payload have its path. -/
theorem Node.path_of_mem_calls_payload {number : UInt64} {value : Bytes} {delivered : Bool}
    {path : FieldPath} {call : Call}
    (h : call ∈ (Node.payload number value delivered).calls path) :
    call.path = path.child number := by
  cases delivered with
  | false =>
    cases List.mem_singleton.mp h
    rfl
  | true =>
    rcases List.mem_cons.mp h with rfl | h
    · rfl
    · cases List.mem_singleton.mp h
      rfl

namespace Policy

variable {σ : Type} {P : Policy σ} {rule : FieldPath → Decision}

/-- The policy decides by the path of the field alone. -/
def DecidesBy (P : Policy σ) (rule : FieldPath → Decision) : Prop :=
  ∀ number parent state, (P.answer number parent state).1 = rule (parent.child number)

/-- The answer of the first rule that names a path, or else a default. -/
def ruling (rules : List (FieldPath × Decision)) (default : Decision) (path : FieldPath) :
    Decision :=
  ((rules.find? fun rule => rule.1 == path).map Prod.snd).getD default

theorem decidesBy_ofRules (rules : List (FieldPath × Decision)) (default : Decision) :
    (ofRules rules default).DecidesBy (ruling rules default) :=
  fun _ _ _ => rfl

theorem DecidesBy.answer_eq (h : P.DecidesBy rule) (number : UInt64) (parent : FieldPath)
    (state : σ) : ∃ next, P.answer number parent state = (rule (parent.child number), next) :=
  ⟨_, Prod.ext (h number parent state) rfl⟩

/-- Such a policy can be led through some calls if the answers in them are its own, and only then,
whatever state it is in. -/
theorem DecidesBy.exists_replay_iff (h : P.DecidesBy rule) {calls : List Call} {state : σ} :
    (∃ last, P.replay calls state = some last) ↔ ∀ call ∈ calls, call.AnsweredBy rule := by
  induction calls generalizing state with
  | nil => simp [replay]
  | cons call calls ih =>
    rw [List.forall_mem_cons]
    cases call with
    | asked number parent answer =>
      obtain ⟨next, hanswer⟩ := h.answer_eq number parent state
      constructor
      · rintro ⟨last, hreplay⟩
        obtain ⟨_, hfirst, hrest⟩ := replay_asked_eq_some_iff.mp hreplay
        cases hanswer.symm.trans hfirst
        exact ⟨rfl, ih.mp ⟨last, hrest⟩⟩
      · rintro ⟨rfl, hrest⟩
        obtain ⟨last, hrest⟩ : ∃ last, P.replay calls next = some last := ih.mpr hrest
        exact ⟨last, replay_asked_eq_some_iff.mpr ⟨next, hanswer, hrest⟩⟩
    | delivered wireType number value path =>
      exact ih.trans ⟨fun hrest => ⟨trivial, hrest⟩, And.right⟩

end Policy
end FieldSieve
