import FieldSieve.Proofs.Calls
import FieldSieve.Proofs.Replays
import FieldSieve.Proofs.Reruns

/-!
# What a run costs

Every field is paid for by the bytes that it takes up.  Its key is at least one byte, and behind the
key stands at least one more, be it of a number, of a fixed width or of a length: an empty message
has its length too.  Closing a frame reads nothing, but the frame was opened by a field.  So there
are at most half as many fields as bytes, and the policy is called at most once for each byte.

A policy hears of a field when it is asked about it or, if the field is a scalar, when it receives
it.  Of a field that cannot be read it may not hear at all, and such a field may be a single byte
long; but it ends the run.  `Walk.Spends` keeps the account between two walks, and it holds of a
field, of a run and, with one unheard field for each run, of a row of runs.
-/
namespace FieldSieve

namespace Call

variable {number key : UInt64} {parent path : FieldPath} {answer : Decision} {wireType : WireType}
  {value : Bytes}

/-- How many fields the calls tell of: questions, and scalars that are delivered without one. -/
def fieldCount (calls : List Call) : Nat :=
  calls.countP (·.question?.isSome) + calls.countP isScalar

theorem fieldCount_append (calls more : List Call) :
    fieldCount (calls ++ more) = fieldCount calls + fieldCount more := by
  simp only [fieldCount, List.countP_append]
  omega

/-- A question is told of once, whether or not the payload is delivered. -/
theorem fieldCount_captured (h : wireType.isScalar = false) :
    fieldCount [asked number parent answer, delivered wireType key value path] = 1 := by
  simp [fieldCount, question?, isScalar, h]

theorem fieldCount_delivered (h : wireType.isScalar = true) :
    fieldCount [delivered wireType key value path] = 1 := by
  simp [fieldCount, question?, isScalar, h]

end Call

namespace Walk

variable {σ : Type} {P : Policy σ} {start walk next last : Walk σ} {made more : List Call}
  {unheard later : Nat}

/-- From one walk to another the calls in `made` are made and, besides the fields that they tell of,
some are visited of which the policy does not hear.  All of that is paid for in bytes. -/
structure Spends (walk next : Walk σ) (made : List Call) (unheard : Nat) : Prop where
  calls : next.calls = walk.calls ++ made
  visited : next.visited = walk.visited + Call.fieldCount made + unheard
  callsPaid : walk.cursor.position + made.length ≤ next.cursor.position
  fieldsPaid : walk.cursor.position + 2 * Call.fieldCount made + unheard ≤ next.cursor.position

theorem Spends.refl (walk : Walk σ) : Spends walk walk [] 0 :=
  ⟨(List.append_nil _).symm, rfl, Nat.le_refl _, Nat.le_refl _⟩

theorem Spends.trans (h : Spends walk next made unheard) (hlast : Spends next last more later) :
    Spends walk last (made ++ more) (unheard + later) where
  calls := by rw [hlast.calls, h.calls, List.append_assoc]
  visited := by rw [hlast.visited, h.visited, Call.fieldCount_append]; omega
  callsPaid := by
    have := h.callsPaid
    have := hlast.callsPaid
    rw [List.length_append]
    omega
  fieldsPaid := by
    have := h.fieldsPaid
    have := hlast.fieldsPaid
    rw [Call.fieldCount_append]
    omega

/-- Closing frames costs nothing. -/
theorem Spends.close (h : Spends walk next made unheard) :
    Spends walk (stateAfter (Walk.close next)) made unheard := by
  rw [stateAfter_close]
  exact ⟨h.calls, h.visited, h.callsPaid, h.fieldsPaid⟩

theorem Spends.record {event : Event} (h : Spends walk next made unheard)
    (hevent : event.call? = none) : Spends walk (next.record event) made unheard :=
  ⟨(calls_record hevent).trans h.calls, h.visited, h.callsPaid, h.fieldsPaid⟩

/-- A field of which the policy hears takes up at least as many bytes as it makes calls. -/
theorem spends_of_heard {events : List Event} (hjournal : next.journal = walk.journal ++ events)
    (hvisited : next.visited = walk.visited + 1)
    (hbytes : walk.cursor.position + 2 ≤ next.cursor.position)
    (hcount : Call.fieldCount (events.filterMap Event.call?) = 1)
    (hcalls : (events.filterMap Event.call?).length ≤ 2) :
    Spends walk next (events.filterMap Event.call?) 0 where
  calls := calls_of_journal hjournal
  visited := by rw [hvisited, hcount]
  callsPaid := Nat.le_trans (Nat.add_le_add_left hcalls _) hbytes
  fieldsPaid := by rw [hcount]; exact hbytes

/-- A field of which the policy does not hear takes up at least its key. -/
theorem spends_of_unheard (hcalls : next.calls = walk.calls)
    (hvisited : next.visited = walk.visited + 1)
    (hbytes : walk.cursor.position < next.cursor.position) : Spends walk next [] 1 where
  calls := hcalls.trans (List.append_nil _).symm
  visited := hvisited
  callsPaid := Nat.le_of_lt hbytes
  fieldsPaid := hbytes

/-- Whatever becomes of a field, it pays for itself, and the policy hears of it if it is read. -/
theorem spends_field (P : Policy σ) (walk : Walk σ) :
    ∃ made unheard, Spends walk (stateAfter (field P walk)) made unheard ∧ unheard ≤ 1 ∧
      ∀ next, field P walk = .ok () next → unheard = 0 := by
  have hle := (forward_field P walk).position_le
  have hlt : ∀ {key : Key} {c : Cursor}, Cursor.readKey walk.cursor = .ok key c →
      walk.cursor.position < (stateAfter (field P walk)).cursor.position := fun hkey =>
    Nat.lt_of_lt_of_le (Cursor.position_lt_of_readKey hkey) (leadsTo_of_readKey hkey).position_le
  have houtcome := fieldOutcome P walk
  generalize field P walk = result at houtcome hle hlt
  cases houtcome with
  | badKey =>
    exact ⟨[], 0, ⟨(List.append_nil _).symm, rfl, hle, hle⟩, Nat.zero_le _, nofun⟩
  | tooDeep h =>
    exact ⟨[], 1, spends_of_unheard (calls_inside.trans (List.append_nil _)) rfl (hlt h),
      Nat.le_refl _, nofun⟩
  | noValue h | noLength h =>
    exact ⟨[], 1, spends_of_unheard (calls_inside.trans (List.append_nil _)) rfl (hlt h.readKey),
      Nat.le_refl _, nofun⟩
  | missing h | outside h =>
    exact ⟨_, 0, spends_of_heard rfl rfl h.position_le rfl (Nat.le_succ 1), Nat.zero_le _, nofun⟩
  | scalar h hread =>
    have hkey := Cursor.position_lt_of_readKey h.readKey
    have hvalue := Item.position_lt_of_readBehind hread
    obtain ⟨behind, hbehind, -⟩ := Item.readBehind_eq_ok_iff.mp hread
    have hscalar := congrArg WireType.isScalar hbehind.wireType_eq
    rw [Scalar.isScalar_wireType] at hscalar
    refine ⟨_, 0, .close (spends_of_heard rfl rfl ?_ ?_ (Nat.le_succ 1)), Nat.zero_le _,
      fun _ _ => rfl⟩
    · exact Nat.le_trans (Nat.succ_le_succ hkey) hvalue
    · exact Call.fieldCount_delivered hscalar
  | skipped h _ hthere =>
    have hle := Nat.le_trans h.position_le hthere.position_le
    exact ⟨_, 0, .close (spends_of_heard rfl rfl hle rfl (Nat.le_succ 1)), Nat.zero_le _,
      fun _ _ => rfl⟩
  | captured h _ hthere =>
    have hle := Nat.le_trans h.position_le hthere.position_le
    -- Two calls are made, but they tell of one field: what is delivered is no scalar.
    have hscalar := congrArg WireType.isScalar h.wireType
    refine ⟨_, 0, .close (spends_of_heard rfl rfl hle ?_ (Nat.le_refl 2)), Nat.zero_le _,
      fun _ _ => rfl⟩
    exact Call.fieldCount_captured hscalar
  | descended h =>
    exact ⟨_, 0, .close (spends_of_heard rfl rfl h.position_le rfl (Nat.le_succ 1)), Nat.zero_le _,
      fun _ _ => rfl⟩

theorem spends_of_visits (h : Visits P start walk) : ∃ made, Spends start walk made 0 := by
  induction h with
  | start => exact ⟨[], .refl start⟩
  | @field walk next _ _ hfield ih =>
    obtain ⟨made, hmade⟩ := ih
    obtain ⟨more, unheard, hmore, -, hread⟩ := spends_field P walk
    rw [hfield] at hmore
    obtain rfl := hread next hfield
    exact ⟨made ++ more, hmade.trans hmore⟩

end Walk

/-- The account of a run of a scan: what it has visited is what its calls tell of, and `unheard`
fields more. -/
structure Run.Spends {σ : Type} (scan : Scan) (run : Run σ) (unheard : Nat) : Prop where
  visited : run.visited = scan.visited + Call.fieldCount run.calls + unheard
  callsPaid : scan.cursor.position + run.calls.length ≤ run.scan.cursor.position
  fieldsPaid :
    scan.cursor.position + 2 * Call.fieldCount run.calls + unheard ≤ run.scan.cursor.position

section Run

variable {σ : Type} {P : Policy σ} {scan : Scan} {state : σ} {made : List Call} {unheard : Nat}

theorem spends_ofResult {result : EStateM.Result DecodeError (Walk σ) Unit}
    (h : Walk.Spends ⟨scan, state, #[]⟩ (stateAfter result) made unheard) :
    (Run.ofResult result).Spends scan unheard := by
  have hcalls : (Run.ofResult result).calls = made := (calls_ofResult result).trans h.calls
  rw [← hcalls] at h
  cases result <;> exact ⟨h.visited, h.callsPaid, h.fieldsPaid⟩

theorem spends_finish (walk : Walk σ) : Walk.Spends walk (stateAfter walk.finish) [] 0 := by
  rw [Walk.finish]
  split
  · exact (Walk.Spends.refl walk).record rfl
  · exact .refl walk

/-- A run pays for itself, and its policy hears of all fields but perhaps the one that ends it. -/
theorem spends_run (P : Policy σ) (scan : Scan) (state : σ) :
    ∃ unheard, (scan.run P state).Spends scan unheard ∧ unheard ≤ 1 ∧
      ((scan.run P state).result = .ok () → unheard = 0) := by
  cases hexcess : scan.excess? with
  | some fault =>
    rw [run_of_excess hexcess]
    exact ⟨0, ⟨rfl, Nat.le_refl _, Nat.le_refl _⟩, Nat.zero_le _, fun _ => rfl⟩
  | none =>
    rcases run_cases P state hexcess with
      ⟨last, hvisits, -, hrun⟩ | ⟨last, fault, rest, hvisits, -, hfield, hrun⟩
    · obtain ⟨made, hmade⟩ := Walk.spends_of_visits hvisits
      rw [hrun]
      exact ⟨0, spends_ofResult (hmade.trans (spends_finish last)), Nat.zero_le _, fun _ => rfl⟩
    · obtain ⟨made, hmade⟩ := Walk.spends_of_visits hvisits
      obtain ⟨more, unheard, hmore, hone, -⟩ := Walk.spends_field P last
      rw [hfield] at hmore
      rw [hrun]
      exact ⟨0 + unheard, spends_ofResult ((hmade.trans hmore).record rfl), by omega, nofun⟩

/-- Each run can leave one field half paid for. -/
theorem two_mul_visited_after (scan : Scan) (turns : List Turn) :
    2 * (scan.after turns).visited + scan.cursor.position ≤
      2 * scan.visited + (scan.after turns).cursor.position + turns.length := by
  induction turns generalizing scan with
  | nil => exact Nat.le_refl _
  | cons turn turns ih =>
    obtain ⟨unheard, hspends, hone, -⟩ := spends_run turn.policy scan turn.state
    have hvisited : (turn.run scan).scan.visited = _ := hspends.visited
    have hpaid : _ ≤ (turn.run scan).scan.cursor.position := hspends.fieldsPaid
    have hrest := ih (turn.run scan).scan
    rw [Scan.after, List.length_cons]
    omega

end Run

/-- A scan that succeeds has used up its buffer and left nothing unpaid. -/
theorem two_mul_visited_scan {σ : Type} {P : Policy σ} {bytes : Bytes} {state : σ} {limits : Limits}
    (h : (scan P bytes state limits).result = .ok ()) :
    2 * (scan P bytes state limits).visited ≤ bytes.length := by
  have hposition : (scan P bytes state limits).scan.cursor.position = bytes.length := by
    cases hexcess : (Scan.ofBytes bytes limits).excess? with
    | some fault =>
      rw [scan_of_excess hexcess] at h
      cases h
    | none =>
      rcases scan_cases P bytes state limits hexcess with
        ⟨last, -, -, hend, -, hscan⟩ | ⟨last, fault, rest, -, -, -, hscan⟩
      · rw [hscan]
        exact hend
      · rw [hscan] at h
        cases h
  obtain ⟨unheard, hspends, -, hok⟩ := spends_run P (Scan.ofBytes bytes limits) state
  obtain rfl := hok h
  have hvisited : _ = 0 + _ + 0 := hspends.visited
  have hpaid : 0 + _ + 0 ≤ _ := hspends.fieldsPaid
  rw [← hposition]
  unfold scan
  omega

/-- **A run is paid for by the bytes that it reads.**  Take any row of runs of one scan, each with a
policy of its own, and look at the last of them.  It ends, and the position never goes back.  There
are at most half as many fields as bytes, and half a field more for each run.  The policy is called
at most once for each byte read, and it hears of every field visited, but for one that cannot be
read. -/
theorem run_work (bytes : Bytes) (limits : Limits) (earlier : List Turn) (turn : Turn) :
    let before := (Scan.ofBytes bytes limits).after earlier
    let start : Walk turn.State := ⟨before, turn.state, #[]⟩
    let run := turn.run before
    (before.excess? = none → ∃ last, Walk.Visits turn.policy start last ∧
      ((last.cursor.atEnd = true ∧ run.scan = last.toScan) ∨
        ∃ fault rest, Walk.field turn.policy last = .error fault rest ∧
          run.scan = rest.toScan)) ∧
    (∀ walk, Walk.Visits turn.policy start walk →
      walk.cursor.position ≤ (stateAfter (Walk.field turn.policy walk)).cursor.position) ∧
    before.cursor.position + run.calls.length ≤ run.scan.cursor.position ∧
    2 * run.visited ≤ run.scan.cursor.position + (earlier.length + 1) ∧
    (run.result = .ok () → run.visited = before.visited + Call.fieldCount run.calls) ∧
    (∀ error, run.result = .error error →
      run.visited = before.visited + Call.fieldCount run.calls ∨
      run.visited = before.visited + Call.fieldCount run.calls + 1) ∧
    (earlier = [] → run.result = .ok () → 2 * run.visited ≤ bytes.length) := by
  intro before start run
  obtain ⟨unheard, hspends, hone, hok⟩ := spends_run turn.policy before turn.state
  refine ⟨?ends, fun walk _ => (Walk.forward_field turn.policy walk).position_le,
    hspends.callsPaid, ?half, ?heard, ?perhaps, ?whole⟩
  case ends =>
    intro hexcess
    rcases run_cases turn.policy turn.state hexcess with
      ⟨last, hvisits, hend, hrun⟩ | ⟨last, fault, rest, hvisits, -, hfield, hrun⟩
    · refine ⟨last, hvisits, .inl ⟨hend, ?_⟩⟩
      rw [show run = _ from hrun, Walk.finish]
      split <;> rfl
    · refine ⟨last, hvisits, .inr ⟨fault, rest, hfield, ?_⟩⟩
      rw [show run = _ from hrun]
      rfl
  case half =>
    have hafter : 2 * run.visited ≤
        2 * 0 + run.scan.cursor.position + (earlier ++ [turn]).length := by
      have h := two_mul_visited_after (Scan.ofBytes bytes limits) (earlier ++ [turn])
      rwa [after_append] at h
    rwa [Nat.zero_add, List.length_append] at hafter
  case heard =>
    intro hresult
    obtain rfl := hok hresult
    exact hspends.visited
  case perhaps =>
    intro error _
    have hvisited : run.visited = before.visited + Call.fieldCount run.calls + unheard :=
      hspends.visited
    omega
  case whole =>
    rintro rfl hresult
    exact two_mul_visited_scan hresult

/-- An empty message, and a key with nothing behind it.  The one field takes up two bytes, the other
one byte only, and of that one the policy does not hear.  Without it the run succeeds. -/
theorem run_work_unheard :
    (scan .countValues [0x0a, 0x00, 0x08] 0).result =
      .error (Fault.endOfStream.located 2 "1") ∧
    (scan .countValues [0x0a, 0x00, 0x08] 0).visited =
      Call.fieldCount (scan .countValues [0x0a, 0x00, 0x08] 0).calls + 1 ∧
    2 * (scan .countValues [0x0a, 0x00, 0x08] 0).visited ≤ 3 + 1 ∧
    2 * (scan .countValues [0x0a, 0x00] 0).visited ≤ 2 := by
  have hresult : (scan .countValues [0x0a, 0x00, 0x08] 0).result =
      .error (Fault.endOfStream.located 2 "1") := by
    rw [scan_of_toEnd rfl, Walk.toEnd_of_ok rfl rfl, Walk.toEnd_of_error rfl rfl]
    rfl
  have hvisited : (scan .countValues [0x0a, 0x00, 0x08] 0).visited = 2 := by decide +kernel
  have hcount : Call.fieldCount (scan .countValues [0x0a, 0x00, 0x08] 0).calls = 1 := by decide +kernel
  have hposition : (scan .countValues [0x0a, 0x00, 0x08] 0).scan.cursor.position = 3 := by decide +kernel
  obtain ⟨-, -, -, hhalf, -, hperhaps, -⟩ :=
    run_work [0x0a, 0x00, 0x08] {} [] ⟨Nat, .countValues, 0⟩
  obtain ⟨-, -, -, -, -, -, hwhole⟩ := run_work [0x0a, 0x00] {} [] ⟨Nat, .countValues, 0⟩
  have hok : (scan .countValues [0x0a, 0x00] 0).result = .ok () := by
    rw [scan_of_toEnd rfl, Walk.toEnd_of_ok rfl rfl, Walk.toEnd_of_atEnd rfl]
    rfl
  refine ⟨hresult, ?_, hposition ▸ hhalf, hwhole rfl hok⟩
  rcases hperhaps _ hresult with hall | hbut
  · exact absurd (hvisited.symm.trans (hall.trans (congrArg (0 + ·) hcount))) (by decide)
  · exact hbut.trans (congrArg (· + 1) (Nat.zero_add _))

end FieldSieve
