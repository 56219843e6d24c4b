import FieldSieve.Proofs.Journal
import FieldSieve.Proofs.Spelling

/-!
# A policy knows its calls and nothing else

The state of a policy after a run is the state that its calls lead to (`replay_calls_run`), whether
the run succeeded or broke off, and whatever the scan had been through before.  So what a policy
ends up with is a question about a list of calls: the buffer, the open frames and the error do not
come into it any more.

The calls of a field lead from the state in front of it to the state behind it
(`Walk.follows_field`), and rows of calls are put one behind the other.
-/
namespace FieldSieve

namespace Walk

variable {σ : Type} {P : Policy σ} {start walk next last : Walk σ}

/-- The calls made from one walk to another lead the policy from the state of the one to that of
the other. -/
def Follows (P : Policy σ) (walk next : Walk σ) : Prop :=
  ∃ made, next.calls = walk.calls ++ made ∧ P.replay made walk.state = some next.state

theorem Follows.refl (P : Policy σ) (walk : Walk σ) : Follows P walk walk :=
  ⟨[], (List.append_nil _).symm, rfl⟩

theorem Follows.trans (h : Follows P walk next) (hlast : Follows P next last) :
    Follows P walk last := by
  obtain ⟨made, hcalls, hreplay⟩ := h
  obtain ⟨more, hmore, hrest⟩ := hlast
  refine ⟨made ++ more, ?_, Policy.replay_append_eq_some_iff.mpr ⟨_, hreplay, hrest⟩⟩
  rw [hmore, hcalls, List.append_assoc]

/-- The events that a walk has written since tell the calls. -/
theorem Follows.of_journal {events : List Event} (hjournal : next.journal = walk.journal ++ events)
    (hreplay : P.replay (events.filterMap Event.call?) walk.state = some next.state) :
    Follows P walk next :=
  ⟨_, calls_of_journal hjournal, hreplay⟩

theorem Follows.close (h : Follows P walk next) :
    Follows P walk (stateAfter (Walk.close next)) := by
  rw [stateAfter_close]
  exact h

theorem follows_record {event : Event} (h : event.call? = none) :
    Follows P walk (walk.record event) :=
  ⟨[], by rw [calls_record h, List.append_nil], rfl⟩

/-- Whatever becomes of a field, its policy has been moved by the calls about it. -/
theorem follows_field (P : Policy σ) (walk : Walk σ) :
    Follows P walk (stateAfter (field P walk)) := by
  have houtcome := fieldOutcome P walk
  generalize field P walk = result at houtcome
  cases houtcome with
  | badKey => exact .refl P walk
  | tooDeep | noValue | noLength => exact .of_journal rfl rfl
  | missing _ hanswer | outside _ hanswer =>
    exact .of_journal rfl (Policy.replay_asked_eq_some_iff.mpr ⟨_, hanswer, rfl⟩)
  | scalar => exact .close (.of_journal rfl rfl)
  | skipped _ hanswer | captured _ hanswer | descended _ hanswer =>
    exact .close (.of_journal rfl (Policy.replay_asked_eq_some_iff.mpr ⟨_, hanswer, rfl⟩))

end Walk

section Run

variable {σ : Type}

theorem calls_ofResult (result : EStateM.Result DecodeError (Walk σ) Unit) :
    (Run.ofResult result).calls = (stateAfter result).calls := by
  cases result <;> rfl

theorem state_ofResult (result : EStateM.Result DecodeError (Walk σ) Unit) :
    (Run.ofResult result).state = (stateAfter result).state := by
  cases result <;> rfl

/-- A run has made the calls of the walk at which it ends, and ends in the state of that walk. -/
theorem replay_calls_of_follows {P : Policy σ} {scan : Scan} {state : σ}
    {result : EStateM.Result DecodeError (Walk σ) Unit}
    (h : Walk.Follows P ⟨scan, state, #[]⟩ (stateAfter result)) :
    P.replay (Run.ofResult result).calls state = some (Run.ofResult result).state := by
  obtain ⟨made, hcalls, hreplay⟩ := h
  rw [calls_ofResult, state_ofResult, hcalls]
  exact hreplay

/-- **The calls of a run make up the state of its policy.** -/
theorem replay_calls_run (P : Policy σ) (scan : Scan) (state : σ) :
    P.replay (scan.run P state).calls state = some (scan.run P state).state := by
  cases hexcess : scan.excess? with
  | some fault =>
    rw [run_of_excess hexcess]
    rfl
  | none =>
    obtain ⟨result, hrun, hfollows⟩ := exists_ofResult_of_fields (Walk.Follows.refl P)
      Walk.Follows.trans (Walk.follows_field P) (fun _ _ => Walk.follows_record) state hexcess
    rw [hrun]
    exact replay_calls_of_follows hfollows

/-- What holds of the calls about every field holds of all calls of a run. -/
theorem forall_mem_calls_run {P : Policy σ} {p : Call → Prop}
    (hfield : ∀ walk : Walk σ, ∃ made,
      (stateAfter (Walk.field P walk)).calls = walk.calls ++ made ∧ ∀ call ∈ made, p call)
    (scan : Scan) (state : σ) : ∀ call ∈ (scan.run P state).calls, p call := by
  let Keeps (walk next : Walk σ) : Prop :=
    (∀ call ∈ walk.calls, p call) → ∀ call ∈ next.calls, p call
  have hstep : ∀ walk : Walk σ, Keeps walk (stateAfter (Walk.field P walk)) := by
    intro walk hwalk
    obtain ⟨made, hcalls, hmade⟩ := hfield walk
    rw [hcalls]
    exact List.forall_mem_append.mpr ⟨hwalk, hmade⟩
  have hrecord : ∀ (walk : Walk σ) (event : Event), event.call? = none →
      Keeps walk (walk.record event) := by
    intro walk event hevent hwalk
    rwa [Walk.calls_record hevent]
  cases hexcess : scan.excess? with
  | some fault =>
    rw [run_of_excess hexcess]
    exact nofun
  | none =>
    obtain ⟨result, hrun, hkeeps⟩ := exists_ofResult_of_fields (R := Keeps) (fun _ => id)
      (fun hnext hlast => hlast ∘ hnext) hstep hrecord state hexcess
    rw [hrun, calls_ofResult]
    exact hkeeps nofun

end Run
end FieldSieve
