import FieldSieve.Proofs.OpenedTrees

/-!
# What a collector collects

A selection opens by one test and captures by another, and a collector tests once more what it is
given, because scalars are delivered wherever the scan passes.  Put together, these tests leave out
nothing and let nothing else in: a payload that is a target is captured unless it is opened, and so
is among what is given, and a scalar is given in any case.

So a target that lies above another one collects the scalars at its path and opens the payloads
there.
-/
namespace FieldSieve

namespace Selection

variable {selection : Selection} {path : FieldPath} {paths : List FieldPath}

/-- What a selection says of the payload at a path. -/
def decision (selection : Selection) (path : FieldPath) : Decision :=
  if selection.targets.any path.isAncestor then .descend
  else if selection.isTarget path then .capture
  else .skip

theorem answer_eq_decision (selection : Selection) (number : UInt64) (parent : FieldPath) :
    selection.answer number parent = selection.decision (parent.child number) := by
  simp only [answer, decision, contains_above]

theorem decision_eq_descend_iff :
    selection.decision path = .descend ↔ selection.targets.any path.isAncestor = true := by
  unfold decision
  split
  · next h => simp [h]
  · next h => split <;> simp [h]

/-- No target is passed over. -/
theorem decision_ne_skip (h : selection.isTarget path = true) :
    selection.decision path ≠ .skip := by
  rw [decision, if_pos h]
  split <;> exact nofun

/-- Neither the order of the targets matters nor the root among them. -/
theorem any_isAncestor_ofList :
    (ofList paths).targets.any path.isAncestor = paths.any path.isAncestor := by
  rw [Bool.eq_iff_iff, List.any_eq_true, List.any_eq_true]
  constructor
  · rintro ⟨target, hmem, habove⟩
    exact ⟨target, (mem_targets_ofList.mp hmem).1, habove⟩
  · rintro ⟨target, hmem, habove⟩
    exact ⟨target, mem_targets_ofList.mpr ⟨hmem, FieldPath.ne_root_of_isAncestor habove⟩, habove⟩

end Selection

namespace Scope

/-- A collector keeps what it is given, in order, so far as that is in scope. -/
theorem toList_of_replay (scope : Scope) {calls : List Call} {fields last : Array CapturedField}
    (h : scope.collector.replay calls fields = some last) :
    last.toList =
      fields.toList ++ (calls.filterMap Call.received?).filter (scope.keeps ·.path) := by
  induction calls generalizing fields with
  | nil =>
    cases h
    exact (List.append_nil _).symm
  | cons call calls ih =>
    cases call with
    | asked number parent answer =>
      obtain ⟨next, hanswer, hrest⟩ := Policy.replay_asked_eq_some_iff.mp h
      cases hanswer
      exact ih hrest
    | delivered wireType number value path =>
      rw [ih h, toList_deliver_collector, List.append_assoc]
      congr 1
      cases hkept : scope.keeps path <;> simp [Call.received?, hkept]

end Scope

end FieldSieve
