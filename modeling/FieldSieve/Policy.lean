import FieldSieve.Bytes
import FieldSieve.FieldPath
import FieldSieve.WireType

/-!
# Policies

The wire format does not tell an embedded message from a string, so somebody has to say which
length-delimited fields to enter.  A policy does, and it also receives the values.  It is a state
machine: `answer` is asked at every length-delimited field, `deliver` is called with every scalar
and every payload that was asked for, and both move the state on.

The calls made on a policy are recorded by `Policy.recorded`, which keeps the list of them beside
the policy's own state and changes nothing else.
-/
namespace FieldSieve

/-- What to do with a length-delimited field. -/
inductive Decision where
  /-- Pass over the payload. -/
  | skip
  /-- Read the payload as a message and walk its fields. -/
  | descend
  /-- Deliver the payload. -/
  | capture
  deriving DecidableEq, Repr

/-- The name used in the log. -/
def Decision.logName : Decision → String
  | skip => "Skip"
  | descend => "ParseAsMessage"
  | capture => "CaptureBytes"

/-- A state machine that steers a scan and receives its values. -/
structure Policy (σ : Type) where
  /-- Asked with a field's number and the path of the message around it. -/
  answer : UInt64 → FieldPath → σ → Decision × σ
  /-- Given a value's wire type, its field's number, its bytes and its path. -/
  deliver : WireType → UInt64 → Bytes → FieldPath → σ → σ

/-- One call on a policy. -/
inductive Call where
  /-- The policy was asked and gave an answer. -/
  | asked (number : UInt64) (parent : FieldPath) (answer : Decision)
  /-- The policy was given a value. -/
  | delivered (wireType : WireType) (number : UInt64) (value : Bytes) (path : FieldPath)
  deriving DecidableEq, Repr

namespace Policy

variable {σ : Type}

/-- The policy with the calls made on it, oldest first. -/
def recorded (P : Policy σ) : Policy (σ × Array Call) where
  answer number parent := fun (state, calls) =>
    let (answer, state) := P.answer number parent state
    (answer, state, calls.push (.asked number parent answer))
  deliver wireType number value path := fun (state, calls) =>
    (P.deliver wireType number value path state,
      calls.push (.delivered wireType number value path))

/-- Decides by path alone: by the first rule that names the field, or else by a default. -/
def ofRules (rules : List (FieldPath × Decision)) (default : Decision) : Policy Unit where
  answer number parent state :=
    let path := parent.child number
    (((rules.find? fun rule => rule.1 == path).map Prod.snd).getD default, state)
  deliver _ _ _ _ state := state

/-- Enters every length-delimited field and counts the values delivered. -/
def countValues : Policy Nat where
  answer _ _ count := (.descend, count)
  deliver _ _ _ _ count := count + 1

@[simp] theorem answer_recorded (P : Policy σ) (number : UInt64) (parent : FieldPath)
    (state : σ) (calls : Array Call) :
    (P.recorded.answer number parent (state, calls)).1 = (P.answer number parent state).1 := rfl

end Policy
end FieldSieve
