import FieldSieve.Proofs.FieldOutcomes

/-!
# What a run goes through

A run tests for the end of the buffer at its start and behind every field that it reads; the walks
at which it does so are the ones it visits (`Walk.Visits`).  It ends at a walk that it visits: there
the buffer is used up, or the field that comes next cannot be read (`Walk.toEnd_cases`).  So a
property of the start that every field keeps holds at every walk visited, and what is known of the
last one is known of the result.
-/
namespace FieldSieve

namespace Walk

variable {σ : Type}

/-- The walk at which the scan of a whole buffer starts. -/
def fresh (bytes : Bytes) (state : σ) (limits : Limits) : Walk σ :=
  ⟨.ofBytes bytes limits, state, #[]⟩

/-- The walks at which a run from `start` tests for the end of the buffer. -/
inductive Visits (P : Policy σ) (start : Walk σ) : Walk σ → Prop
  | start : Visits P start start
  | field {walk next : Walk σ} (h : Visits P start walk) (hmore : walk.cursor.atEnd = false)
      (hfield : field P walk = .ok () next) : Visits P start next

variable {P : Policy σ} {start walk : Walk σ}

/-- The calls made on the policy so far. -/
def calls (walk : Walk σ) : List Call := walk.journal.toList.filterMap Event.call?

theorem calls_record {event : Event} (h : event.call? = none) :
    (walk.record event).calls = walk.calls := by
  simp [calls, record, h]

theorem toEnd_cases_of_visits (h : Visits P start walk) :
    (∃ last, Visits P start last ∧ last.cursor.atEnd = true ∧ toEnd P walk = .ok () last) ∨
    ∃ last fault rest, Visits P start last ∧ last.cursor.atEnd = false ∧
      field P last = .error fault rest ∧
      toEnd P walk = broken last.cursor.position fault rest := by
  induction hr : walk.cursor.remaining using Nat.strongRecOn generalizing walk with
  | ind remaining ih =>
    cases hmore : walk.cursor.atEnd with
    | true => exact .inl ⟨walk, h, hmore, toEnd_of_atEnd hmore⟩
    | false =>
      cases hfield : field P walk with
      | ok done next =>
        rw [toEnd_of_ok hmore hfield]
        exact ih _ (hr ▸ remaining_lt_of_field hfield) (.field h hmore hfield) rfl
      | error fault rest =>
        exact .inr ⟨walk, fault, rest, h, hmore, hfield, toEnd_of_error hmore hfield⟩

/-- A run goes on from every walk that it visits. -/
theorem toEnd_of_visits (h : Visits P start walk) : toEnd P start = toEnd P walk := by
  induction h with
  | start => rfl
  | field _ hmore hfield ih => exact ih.trans (toEnd_of_ok hmore hfield)

/-- A run ends at a walk that it visits. -/
theorem toEnd_cases (P : Policy σ) (start : Walk σ) :
    (∃ last, Visits P start last ∧ last.cursor.atEnd = true ∧ toEnd P start = .ok () last) ∨
    ∃ last fault rest, Visits P start last ∧ last.cursor.atEnd = false ∧
      field P last = .error fault rest ∧
      toEnd P start = broken last.cursor.position fault rest :=
  toEnd_cases_of_visits .start

end Walk

section Run

variable {σ : Type} {P : Policy σ} {scan : Scan} {state : σ} {walk : Walk σ} {fault : Fault}

theorem run_of_excess (h : scan.excess? = some fault) :
    scan.run P state = ⟨.error fault.unlocated, scan, state, []⟩ := by
  rw [Scan.run, h]

/-- A run of a scan that is not too long ends at the end of the buffer or at a field that cannot be
read. -/
theorem run_cases (P : Policy σ) (state : σ) (hexcess : scan.excess? = none) :
    (∃ last, Walk.Visits P ⟨scan, state, #[]⟩ last ∧ last.cursor.atEnd = true ∧
      scan.run P state = .ofResult last.finish) ∨
    ∃ last fault rest, Walk.Visits P ⟨scan, state, #[]⟩ last ∧ last.cursor.atEnd = false ∧
      Walk.field P last = .error fault rest ∧
      scan.run P state = .ofResult (Walk.broken last.cursor.position fault rest) := by
  rcases Walk.toEnd_cases P ⟨scan, state, #[]⟩ with
    ⟨last, hvisits, hend, hrun⟩ | ⟨last, fault, rest, hvisits, hmore, hfield, hrun⟩
  · refine .inl ⟨last, hvisits, hend, ?_⟩
    rw [Scan.run, hexcess, hrun]
  · refine .inr ⟨last, fault, rest, hvisits, hmore, hfield, ?_⟩
    rw [Scan.run, hexcess, hrun]
    rfl

/-- A relation between walks that every field keeps, and every line of the journal that is no call,
leads from the start of a run to its end. -/
theorem exists_ofResult_of_fields {R : Walk σ → Walk σ → Prop} (hrefl : ∀ walk, R walk walk)
    (htrans : ∀ {walk next last}, R walk next → R next last → R walk last)
    (hfield : ∀ walk, R walk (stateAfter (Walk.field P walk)))
    (hrecord : ∀ walk event, event.call? = none → R walk (walk.record event)) (state : σ)
    (hexcess : scan.excess? = none) :
    ∃ result, scan.run P state = .ofResult result ∧ R ⟨scan, state, #[]⟩ (stateAfter result) := by
  have hvisited : ∀ {walk}, Walk.Visits P ⟨scan, state, #[]⟩ walk → R ⟨scan, state, #[]⟩ walk := by
    intro walk hvisits
    induction hvisits with
    | start => exact hrefl _
    | @field walk next _ _ hnext ih =>
      have hstep := hfield walk
      rw [hnext] at hstep
      exact htrans ih hstep
  rcases run_cases P state hexcess with
    ⟨last, hvisits, -, hrun⟩ | ⟨last, fault, rest, hvisits, -, hbroken, hrun⟩
  · refine ⟨_, hrun, htrans (hvisited hvisits) ?_⟩
    rw [Walk.finish]
    split
    · exact hrecord last _ rfl
    · exact hrefl last
  · have hstep := hfield last
    rw [hbroken] at hstep
    exact ⟨_, hrun, htrans (hvisited hvisits) (htrans hstep (hrecord rest _ rfl))⟩

theorem finish_of_isEmpty (h : walk.nesting.isEmpty = true) :
    walk.finish = .ok () (walk.record (.completed walk.cursor.size walk.visited)) :=
  if_pos h

theorem finish_of_open (h : walk.nesting.isEmpty = false) :
    ∃ error, walk.finish = .error error walk :=
  ⟨_, if_neg (by simp [h])⟩

end Run

section Scan

variable {σ : Type} {P : Policy σ} {bytes : Bytes} {state : σ} {limits : Limits}

theorem excess?_eq_some_iff {fault : Fault} :
    (Scan.ofBytes bytes limits).excess? = some fault ↔ ∃ limit, limits.maxLength = some limit ∧
      limit < bytes.length ∧ fault = .inputTooLarge bytes.length limit := by
  unfold Scan.excess?
  rw [show (Scan.ofBytes bytes limits).limits = limits from rfl,
    show (Scan.ofBytes bytes limits).cursor.size = bytes.length from Cursor.size_ofBytes bytes]
  cases limits.maxLength with
  | none => simp
  | some limit => by_cases h : limit < bytes.length <;> simp [h, eq_comm]

theorem scan_of_excess {fault : Fault} (h : (Scan.ofBytes bytes limits).excess? = some fault) :
    scan P bytes state limits = ⟨.error fault.unlocated, .ofBytes bytes limits, state, []⟩ :=
  run_of_excess h

theorem scan_of_toEnd (h : (Scan.ofBytes bytes limits).excess? = none) :
    scan P bytes state limits = .ofResult (match Walk.toEnd P (.fresh bytes state limits) with
      | .ok _ walk => walk.finish
      | .error error walk => .error error walk) := by
  rw [scan, Scan.run, h]
  rfl

/-- A run that comes to the end of the buffer with all frames closed succeeds. -/
theorem scan_of_toEnd_ok {last : Walk σ} (h : (Scan.ofBytes bytes limits).excess? = none)
    (hrun : Walk.toEnd P (.fresh bytes state limits) = .ok () last)
    (hempty : last.nesting.isEmpty = true) :
    scan P bytes state limits =
      .ofResult (.ok () (last.record (.completed last.cursor.size last.visited))) := by
  rw [scan_of_toEnd h, hrun]
  exact congrArg Run.ofResult (finish_of_isEmpty hempty)

/-- A run that breaks off fails with the error that it broke off with. -/
theorem scan_of_toEnd_error {error : DecodeError} {rest : Walk σ}
    (h : (Scan.ofBytes bytes limits).excess? = none)
    (hrun : Walk.toEnd P (.fresh bytes state limits) = .error error rest) :
    scan P bytes state limits = .ofResult (.error error rest) := by
  rw [scan_of_toEnd h, hrun]

theorem scan_of_toEnd_broken {offset : Nat} {fault : Fault} {rest : Walk σ}
    (h : (Scan.ofBytes bytes limits).excess? = none)
    (hrun : Walk.toEnd P (.fresh bytes state limits) = Walk.broken offset fault rest) :
    scan P bytes state limits = .ofResult (Walk.broken offset fault rest) :=
  scan_of_toEnd_error h hrun

/-- A scan whose run visits the end of the buffer with all frames closed succeeds there. -/
theorem scan_of_visits_atEnd {last : Walk σ} (h : (Scan.ofBytes bytes limits).excess? = none)
    (hvisits : Walk.Visits P (.fresh bytes state limits) last) (hend : last.cursor.atEnd = true)
    (hempty : last.nesting.isEmpty = true) :
    scan P bytes state limits =
      .ofResult (.ok () (last.record (.completed last.cursor.size last.visited))) :=
  scan_of_toEnd_ok h ((Walk.toEnd_of_visits hvisits).trans (Walk.toEnd_of_atEnd hend)) hempty

/-- A scan whose run visits a field that cannot be read breaks off there. -/
theorem scan_of_visits_error {last rest : Walk σ} {fault : Fault}
    (h : (Scan.ofBytes bytes limits).excess? = none)
    (hvisits : Walk.Visits P (.fresh bytes state limits) last) (hmore : last.cursor.atEnd = false)
    (hfield : Walk.field P last = .error fault rest) :
    scan P bytes state limits = .ofResult (Walk.broken last.cursor.position fault rest) :=
  scan_of_toEnd_broken h ((Walk.toEnd_of_visits hvisits).trans (Walk.toEnd_of_error hmore hfield))

theorem calls_completed {walk : Walk σ} {length visited : Nat} :
    (Run.ofResult (.ok () (walk.record (.completed length visited)))).calls = walk.calls :=
  Walk.calls_record rfl

theorem calls_broken {walk : Walk σ} {offset : Nat} {fault : Fault} :
    (Run.ofResult (Walk.broken offset fault walk)).calls = walk.calls :=
  Walk.calls_record rfl

/-- At the end of the buffer no call is made. -/
theorem calls_finish (walk : Walk σ) : (Run.ofResult walk.finish).calls = walk.calls := by
  rw [Walk.finish]
  split
  · exact Walk.calls_record rfl
  · rfl

/-- The calls of a scan are made on the way to where its run ends. -/
theorem calls_scan (h : (Scan.ofBytes bytes limits).excess? = none) :
    (scan P bytes state limits).calls =
      (stateAfter (Walk.toEnd P (.fresh bytes state limits))).calls := by
  rw [scan_of_toEnd h]
  cases Walk.toEnd P (.fresh bytes state limits) with
  | error error rest => rfl
  | ok done last => exact calls_finish last

end Scan
end FieldSieve
