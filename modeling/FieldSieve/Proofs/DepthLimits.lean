import FieldSieve.Proofs.Calls
import FieldSieve.Proofs.Continuation

/-!
# Limits are cut-offs

A limit never changes what a scan does, it only ends it.  A buffer that is too long is refused
before anything is read.  A depth limit ends the run at the first key whose field is nested more
deeply than allowed, and up to there the run is the one without limits.

The two runs go side by side (`Walk.unlimiting`), and the one fault that the limited run has for
itself is excused.  What ties that fault to the keys is an invariant of the limited run: whenever a
field begins, no more frames are open than allowed, and nothing in the journal concerns a field that
is nested more deeply (`Walk.upTo_of_visits`).  So the first key that is too deep is exactly one
frame too deep, and it is the one at which the run ends.
-/
namespace FieldSieve

/-- No limit of the second is narrower than that of the first. -/
structure Limits.Within (limits wider : Limits) : Prop where
  maxLength : ∀ n, wider.maxLength = some n → ∃ m, limits.maxLength = some m ∧ m ≤ n
  maxDepth : ∀ n, wider.maxDepth = some n → ∃ m, limits.maxDepth = some m ∧ m ≤ n

namespace Event

variable {event : Event} {limit : Nat}

/-- A key was read whose field is nested more deeply than a limit. -/
def isDeep (limit : Nat) : Event → Bool
  | keyRead _ _ path => limit < path.length
  | _ => false

/-- The path of the field that the event is about, if it is about one. -/
def path? : Event → Option FieldPath
  | keyRead _ _ path => some path
  | asked number parent _ _ _ => some (parent.child number)
  | delivered _ _ _ path => some path
  | _ => none

/-- The event is about no field that is nested more deeply than a limit. -/
def UpTo (limit : Nat) (event : Event) : Prop :=
  ∀ path, event.path? = some path → path.length ≤ limit

theorem UpTo.mono {wider : Nat} (h : event.UpTo limit) (hle : limit ≤ wider) :
    event.UpTo wider := by
  intro path hpath
  exact Nat.le_trans (h path hpath) hle

theorem UpTo.isDeep_eq_false (h : event.UpTo limit) : event.isDeep limit = false := by
  cases event with
  | keyRead offset key path => simpa [isDeep] using h path rfl
  | asked | delivered | failed | completed => rfl

theorem UpTo.length_path_le {call : Call} (h : event.UpTo limit) (hcall : event.call? = some call) :
    call.path.length ≤ limit := by
  cases event with
  | asked number parent start length answer =>
    cases hcall
    exact h _ rfl
  | delivered wireType number value path =>
    cases hcall
    exact h _ rfl
  | keyRead | failed | completed => cases hcall

end Event

namespace Walk

variable {σ : Type} {P : Policy σ} {walk next start rest : Walk σ} {key : Key} {c : Cursor}
  {limit : Nat} {bytes : Bytes} {state : σ} {limits : Limits}

@[simp] theorem path?_keyEvent :
    (walk.keyEvent key).path? = some (walk.nesting.path.child key.number) := rfl

@[simp] theorem path?_askedEvent {start length : Nat} {answer : Decision} :
    (walk.askedEvent key start length answer).path? =
      some (walk.nesting.path.child key.number) := rfl

@[simp] theorem path?_deliveryEvent {value : Bytes} :
    (walk.deliveryEvent key value).path? = some (walk.nesting.path.child key.number) := rfl

theorem length_child (walk : Walk σ) (number : UInt64) :
    (walk.nesting.path.child number).length = walk.nesting.depth + 1 :=
  congrArg (· + 1) walk.nesting.length_path

/-- With room for its frame, a field is nested no more deeply than allowed. -/
theorem Keyed.upTo (h : walk.Keyed key c) (hlimit : walk.limits.maxDepth = some limit)
    {event : Event} (hpath : event.path? = some (walk.nesting.path.child key.number)) :
    event.UpTo limit := by
  intro path hevent
  cases hpath.symm.trans hevent
  rw [length_child]
  exact h.room limit hlimit

/-- A field adds nothing about fields that are too deep, unless it is too deep itself. -/
theorem adds_upTo (hlimit : walk.limits.maxDepth = some limit)
    (hfault : ∀ rest, field P walk ≠ .error (.depthLimitExceeded limit) rest) :
    walk.Adds (Event.UpTo limit) (stateAfter (field P walk)) := by
  have hkeyed : ∀ {key : Key} {c : Cursor} {done : Walk σ} {events : List Event},
      walk.Keyed key c → done.journal = walk.journal ++ events →
      (∀ event ∈ events, event.path? = some (walk.nesting.path.child key.number)) →
      walk.Adds (Event.UpTo limit) done := by
    intro key c done events h hjournal hevents
    exact ⟨events, hjournal, fun event hevent => h.upTo hlimit (hevents event hevent)⟩
  have houtcome := fieldOutcome P walk
  generalize field P walk = result at houtcome hfault
  cases houtcome with
  | badKey => exact ⟨[], Array.ext' (by simp [stateAfter, movedTo]), by simp⟩
  | tooDeep _ hsome =>
    cases hlimit.symm.trans hsome
    exact absurd rfl (hfault _)
  | noValue h | noLength h => exact hkeyed h rfl (by simp)
  | missing h | outside h => exact hkeyed h.toKeyed rfl (by simp)
  | scalar h => exact hkeyed h journal_close (by simp)
  | skipped h | captured h | descended h => exact hkeyed h.toKeyed journal_close (by simp)

/-- A field that is read leaves no more frames open than allowed. -/
theorem depth_le_of_field (hlimit : walk.limits.maxDepth = some limit)
    (hfield : field P walk = .ok () next) : next.nesting.depth ≤ limit := by
  have hclosed : ∀ {closing : Walk σ}, closing.nesting.depth ≤ limit →
      closing.settle.nesting.depth ≤ limit :=
    fun h => Nat.le_trans (Nat.sub_le ..) h
  have houtcome := fieldOutcome P walk
  generalize field P walk = result at houtcome hfield
  cases houtcome with
  | badKey | tooDeep | noValue | noLength | missing | outside => cases hfield
  | scalar h | skipped h | captured h =>
    obtain rfl := eq_settle_of_close hfield
    exact hclosed (Nat.le_of_lt (h.room limit hlimit))
  | descended h =>
    obtain rfl := eq_settle_of_close hfield
    exact hclosed (h.room limit hlimit)

/-- Whenever a field begins, no frame is open and no event written down beyond the limit. -/
theorem upTo_of_visits (hlimit : limits.maxDepth = some limit)
    (h : Visits P (fresh bytes state limits) walk) :
    (fresh bytes state limits).Adds (Event.UpTo limit) walk ∧ walk.nesting.depth ≤ limit := by
  induction h with
  | start => exact ⟨.refl _, Nat.zero_le limit⟩
  | @field walk next hvisits _ hfield ih =>
    have hsame : walk.limits.maxDepth = some limit := by
      rw [limits_of_visits hvisits]
      exact hlimit
    have hadds : walk.Adds (Event.UpTo limit) (stateAfter (Walk.field P walk)) :=
      adds_upTo hsame fun rest hdeep => by cases hfield.symm.trans hdeep
    rw [hfield] at hadds
    exact ⟨ih.1.trans hadds, depth_le_of_field hsame hfield⟩

/-- The fault of a depth limit comes from a key that was read with all frames open that may be. -/
theorem tooDeep_of_field (hfield : field P walk = .error (.depthLimitExceeded limit) rest) :
    ∃ key c, Cursor.readKey walk.cursor = .ok key c ∧ walk.limits.maxDepth = some limit ∧
      limit ≤ walk.nesting.depth ∧ rest = walk.inside key c walk.state [walk.keyEvent key] := by
  have houtcome := fieldOutcome P walk
  generalize field P walk = result at houtcome hfield
  cases houtcome with
  | badKey hbad =>
    cases hfield
    rcases Cursor.fault_of_readKey hbad with hfault | ⟨_, hfault⟩ <;> cases hfault
  | tooDeep hkey hlimit hdeep =>
    cases hfield
    exact ⟨_, _, hkey, hlimit, hdeep, rfl⟩
  | noValue | noLength | missing | outside => cases hfield
  | scalar | skipped | captured | descended =>
    rw [close_eq] at hfield
    split at hfield <;> cases hfield

/-- The walk of a scan without limits. -/
def unlimited (walk : Walk σ) : Walk σ := { walk with limits := {} }

/-- Without limits a run goes through the same walks, and on where a frame would be one too many. -/
def unlimiting (P : Policy σ) : Transport P P where
  image := unlimited
  onCursor := id
  excused fault := ∃ limit, fault = .depthLimitExceeded limit
  shift := 0
  cursor_image _ := rfl
  image_movedTo _ _ := rfl
  position _ := (Nat.add_zero _).symm
  more _ h := h
  readKey := .refl _ _
  readVarint := .refl _ _
  readBytes _ := .refl _ _
  skip _ := .refl _ _
  require _ := .refl _ _
  enter offset key := by
    constructor
    · intro walk done next h
      rw [enter_eq] at h
      split at h
      · split at h
        · cases h
        · cases h
          rfl
      · cases h
        rfl
    · intro walk fault rest h hfault
      rw [enter_eq] at h
      split at h
      · split at h
        · cases h
          exact absurd ⟨_, rfl⟩ hfault
        · cases h
      · cases h
  leave := .of_eq fun _ => rfl
  deliver key value := .of_eq fun _ => rfl
  ask key length := .of_eq fun _ => rfl
  descend length := by
    apply Carries.of_eq
    intro walk
    simp only [descend]
    rw [show walk.unlimited.nesting = walk.nesting from rfl,
      show walk.unlimited.cursor = walk.cursor from rfl]
    split
    · rfl
    · cases walk.nesting.setEnd (walk.cursor.position + length) <;> rfl
  close := .of_eq (close_image (fun _ => rfl) fun _ => rfl)

end Walk

section Scan

variable {σ : Type} {P : Policy σ} {bytes : Bytes} {state : σ} {limits : Limits} {limit : Nat}

/-- The run with its limits taken off. -/
def Run.unlimited (run : Run σ) : Run σ := { run with scan := { run.scan with limits := {} } }

/-- A limited scan does what the scan without limits does, or it breaks off at the first key that is
too deep. -/
theorem scan_limited_cases (P : Policy σ) (state : σ)
    (hexcess : (Scan.ofBytes bytes limits).excess? = none) :
    (scan P bytes state = (scan P bytes state limits).unlimited ∧
      ∀ limit, limits.maxDepth = some limit → ∀ event ∈ (scan P bytes state limits).events,
        event.UpTo limit) ∨
    ∃ (limit : Nat) (last : Walk σ) (key : Key) (c : Cursor) (more : List Event),
      limits.maxDepth = some limit ∧ last.nesting.depth = limit ∧
      (∀ event ∈ last.journal.toList, event.UpTo limit) ∧
      (scan P bytes state).events = last.journal.toList ++ last.keyEvent key :: more ∧
      scan P bytes state limits = .ofResult (Walk.broken last.cursor.position
        (.depthLimitExceeded limit) (last.inside key c last.state [last.keyEvent key])) := by
  have hunlimited : ∀ {walk}, Walk.Visits P (.fresh bytes state limits) walk →
      Walk.Visits P (.fresh bytes state {}) walk.unlimited := (Walk.unlimiting P).visits
  rcases scan_cases P bytes state limits hexcess with
    ⟨last, hvisits, hend, -, hempty, hscan⟩ | ⟨last, fault, rest, hvisits, hmore, hfield, hscan⟩
  · left
    rw [scan_of_visits_atEnd rfl (hunlimited hvisits) hend hempty, hscan]
    refine ⟨rfl, ?_⟩
    intro limit hlimit
    have hadds : last.Adds (Event.UpTo limit)
        (last.record (.completed last.cursor.size last.visited)) := Walk.adds_record nofun
    exact Walk.forall_of_adds ((Walk.upTo_of_visits hlimit hvisits).1.trans hadds)
  · by_cases hdeep : ∃ limit, fault = .depthLimitExceeded limit
    · right
      obtain ⟨limit, rfl⟩ := hdeep
      obtain ⟨key, c, hkey, hlimit, hle, rfl⟩ := Walk.tooDeep_of_field hfield
      rw [Walk.limits_of_visits hvisits] at hlimit
      obtain ⟨hadds, hdepth⟩ := Walk.upTo_of_visits hlimit hvisits
      -- Without limits the same key is read, and then whatever the run makes of it.
      have hsame : Cursor.readKey last.unlimited.cursor = .ok key c := hkey
      obtain ⟨events, hjournal, hwritten⟩ := Walk.exists_fieldEvents P last.unlimited
      obtain ⟨more, rfl⟩ := hwritten.exists_eq_cons hsame
      have hfirst : (stateAfter (Walk.field P last.unlimited)).journal.toList <+:
          (stateAfter (Walk.toEnd P last.unlimited)).journal.toList :=
        Walk.journal_prefix_toEnd hmore
      obtain ⟨rest, hevents⟩ := hfirst.trans (journal_prefix_scan rfl (hunlimited hvisits))
      rw [hjournal] at hevents
      refine ⟨limit, last, key, c, more ++ rest, hlimit, Nat.le_antisymm hdepth hle,
        Walk.forall_of_adds hadds, ?_, hscan⟩
      rw [← hevents]
      simp [Walk.unlimited, Walk.keyEvent]
    · left
      rw [scan_of_visits_error rfl (hunlimited hvisits) hmore
        ((Walk.unlimiting P).field.error hfield hdeep), hscan]
      refine ⟨rfl, ?_⟩
      intro limit hlimit
      have hlast : last.limits.maxDepth = some limit := by
        rw [Walk.limits_of_visits hvisits]
        exact hlimit
      have hadds := Walk.adds_upTo (P := P) hlast fun rest h => by
        cases hfield.symm.trans h
        exact hdeep ⟨limit, rfl⟩
      rw [hfield] at hadds
      exact Walk.forall_of_adds
        ((Walk.upTo_of_visits hlimit hvisits).1.trans (hadds.trans (Walk.adds_record nofun)))

/-- The runs make the same calls and come to the same end. -/
structure Run.SameAs (run other : Run σ) : Prop where
  result : run.result = other.result
  calls : run.calls = other.calls
  state : run.state = other.state
  visited : run.visited = other.visited

theorem Run.SameAs.symm {run other : Run σ} (h : run.SameAs other) : other.SameAs run :=
  ⟨h.result.symm, h.calls.symm, h.state.symm, h.visited.symm⟩

theorem Run.SameAs.trans {run other third : Run σ} (h : run.SameAs other)
    (hthird : other.SameAs third) : run.SameAs third :=
  ⟨h.result.trans hthird.result, h.calls.trans hthird.calls, h.state.trans hthird.state,
    h.visited.trans hthird.visited⟩

theorem Run.unlimited_sameAs (run : Run σ) : run.unlimited.SameAs run :=
  ⟨rfl, rfl, rfl, rfl⟩

theorem isDeep_keyEvent {walk : Walk σ} {key : Key} (h : walk.nesting.depth = limit) :
    (walk.keyEvent key).isDeep limit = true := by
  have hlength := walk.length_child key.number
  simp only [Walk.keyEvent, Event.isDeep, decide_eq_true_eq]
  omega

/-- At a key that is too deep no call is made. -/
theorem calls_broken_inside (last : Walk σ) (key : Key) (c : Cursor) (offset : Nat)
    (fault : Fault) :
    (Run.ofResult (Walk.broken offset fault
      (last.inside key c last.state [last.keyEvent key]))).calls = last.calls := by
  rw [calls_broken, Walk.calls_inside]
  exact List.append_nil _

/-- A buffer that is too long is not looked at. -/
theorem scan_of_tooLong (P : Policy σ) (state : σ) (hlimit : limits.maxLength = some limit)
    (hlong : limit < bytes.length) :
    scan P bytes state limits =
      ⟨.error (Fault.inputTooLarge bytes.length limit).unlocated, .ofBytes bytes limits, state, []⟩ :=
  scan_of_excess (excess?_eq_some_iff.mpr ⟨limit, hlimit, hlong, rfl⟩)

/-- Where no key is too deep, a limited scan does what the scan without limits does. -/
theorem sameAs_of_not_deep (P : Policy σ) (state : σ)
    (hexcess : (Scan.ofBytes bytes limits).excess? = none)
    (hflat : ∀ limit, limits.maxDepth = some limit →
      ∀ event ∈ (scan P bytes state).events, event.isDeep limit = false) :
    (scan P bytes state limits).SameAs (scan P bytes state) := by
  rcases scan_limited_cases P state hexcess with
    ⟨hscan, -⟩ | ⟨limit, last, key, c, more, hlimit, hdepth, -, hevents, -⟩
  · rw [hscan]
    exact (scan P bytes state limits).unlimited_sameAs.symm
  · have hkey := hflat limit hlimit (last.keyEvent key) (by simp [hevents])
    cases (isDeep_keyEvent hdepth).symm.trans hkey

/-- At the first key that is too deep a limited scan breaks off. -/
theorem scan_of_deep (P : Policy σ) (state : σ) {event : Event}
    (hexcess : (Scan.ofBytes bytes limits).excess? = none) (hlimit : limits.maxDepth = some limit)
    (hdeep : (scan P bytes state).events.find? (Event.isDeep limit) = some event) :
    ∃ offset key path, event = .keyRead offset key path ∧ path.length = limit + 1 ∧
      (scan P bytes state limits).result =
        .error ((Fault.depthLimitExceeded limit).located offset path.text) ∧
      (scan P bytes state limits).calls =
        ((scan P bytes state).events.takeWhile fun event => !event.isDeep limit).filterMap
          Event.call? := by
  rcases scan_limited_cases P state hexcess with
    ⟨hscan, hupTo⟩ | ⟨_, last, key, c, more, hsome, hdepth, hupTo, hevents, hscan⟩
  · rw [hscan] at hdeep
    have hflat := (hupTo limit hlimit event (List.mem_of_find?_eq_some hdeep)).isDeep_eq_false
    cases (List.find?_some hdeep).symm.trans hflat
  · cases hlimit.symm.trans hsome
    have hbefore : ∀ event ∈ last.journal.toList, event.isDeep limit = false :=
      fun event hevent => (hupTo event hevent).isDeep_eq_false
    have hfirst : (scan P bytes state).events.find? (Event.isDeep limit) =
        some (last.keyEvent key) := by
      rw [hevents, List.find?_append, List.find?_eq_none.mpr (by simpa using hbefore),
        List.find?_cons_of_pos (isDeep_keyEvent hdepth)]
      rfl
    have hfront : ((scan P bytes state).events.takeWhile fun event => !event.isDeep limit) =
        last.journal.toList := by
      rw [hevents, List.takeWhile_append_of_pos (by simpa using hbefore),
        List.takeWhile_cons_of_neg (by simp [isDeep_keyEvent hdepth]), List.append_nil]
    cases hdeep.symm.trans hfirst
    rw [hfront, hscan]
    exact ⟨_, _, _, rfl, (last.length_child key.number).trans (by rw [hdepth]), rfl,
      calls_broken_inside ..⟩

/-- No call of a limited scan concerns a field that is nested more deeply than allowed. -/
theorem length_path_le_of_mem_calls (P : Policy σ) (state : σ)
    (hexcess : (Scan.ofBytes bytes limits).excess? = none) (hlimit : limits.maxDepth = some limit) :
    ∀ call ∈ (scan P bytes state limits).calls, call.path.length ≤ limit := by
  intro call hcall
  rcases scan_limited_cases P state hexcess with
    ⟨-, hupTo⟩ | ⟨_, last, key, c, more, hsome, -, hupTo, -, hscan⟩
  · obtain ⟨event, hevent, hcall⟩ := List.mem_filterMap.mp hcall
    exact (hupTo limit hlimit event hevent).length_path_le hcall
  · cases hlimit.symm.trans hsome
    rw [hscan, calls_broken_inside] at hcall
    obtain ⟨event, hevent, hcall⟩ := List.mem_filterMap.mp hcall
    exact (hupTo event hevent).length_path_le hcall

/-- A buffer that is not too long is not too long for wider limits. -/
theorem excess?_of_within {wider : Limits} (hwithin : limits.Within wider)
    (hexcess : (Scan.ofBytes bytes limits).excess? = none) :
    (Scan.ofBytes bytes wider).excess? = none := by
  cases hwide : (Scan.ofBytes bytes wider).excess? with
  | none => rfl
  | some fault =>
    obtain ⟨n, hn, hlong, -⟩ := excess?_eq_some_iff.mp hwide
    obtain ⟨m, hm, hle⟩ := hwithin.maxLength n hn
    have hnarrow := excess?_eq_some_iff.mpr ⟨m, hm, Nat.lt_of_le_of_lt hle hlong, rfl⟩
    cases hexcess.symm.trans hnarrow

/-- A scan that succeeds is the same under wider limits. -/
theorem sameAs_of_within (P : Policy σ) (state : σ) {wider : Limits} (hwithin : limits.Within wider)
    (hok : (scan P bytes state limits).result = .ok ()) :
    (scan P bytes state wider).SameAs (scan P bytes state limits) := by
  have hexcess : (Scan.ofBytes bytes limits).excess? = none := by
    cases hexcess : (Scan.ofBytes bytes limits).excess? with
    | none => rfl
    | some fault =>
      rw [scan_of_excess hexcess] at hok
      cases hok
  rcases scan_limited_cases P state hexcess with
    ⟨hscan, hupTo⟩ | ⟨limit, last, key, c, more, -, -, -, -, hscan⟩
  · have hsame := (scan P bytes state limits).unlimited_sameAs
    rw [← hscan] at hsame
    refine Run.SameAs.trans ?_ hsame
    apply sameAs_of_not_deep P state (excess?_of_within hwithin hexcess)
    intro n hn event hevent
    obtain ⟨m, hm, hle⟩ := hwithin.maxDepth n hn
    rw [hscan] at hevent
    exact ((hupTo m hm event hevent).mono hle).isDeep_eq_false
  · rw [hscan] at hok
    cases hok

end Scan

/-- **Limits are cut-offs.**  A buffer that is too long is refused before anything is read.  Any
other is scanned as without limits up to the first key whose field is nested too deeply, and at that
key the scan breaks off; where there is no such key, it is the scan without limits.  So no call
concerns a field that is nested more deeply than allowed, and a scan that succeeds is the same under
wider limits. -/
theorem scan_limited {σ : Type} (P : Policy σ) (bytes : Bytes) (state : σ) (limits : Limits) :
    (∀ limit, limits.maxLength = some limit → limit < bytes.length →
      (scan P bytes state limits).result =
        .error (Fault.inputTooLarge bytes.length limit).unlocated ∧
      (scan P bytes state limits).calls = [] ∧ (scan P bytes state limits).visited = 0) ∧
    ((∀ limit, limits.maxLength = some limit → bytes.length ≤ limit) →
      (∀ limit event, limits.maxDepth = some limit →
        (scan P bytes state).events.find? (Event.isDeep limit) = some event →
        ∃ offset key path, event = .keyRead offset key path ∧ path.length = limit + 1 ∧
          (scan P bytes state limits).result =
            .error ((Fault.depthLimitExceeded limit).located offset path.text) ∧
          (scan P bytes state limits).calls =
            ((scan P bytes state).events.takeWhile fun event => !event.isDeep limit).filterMap
              Event.call?) ∧
      ((∀ limit, limits.maxDepth = some limit →
        ∀ event ∈ (scan P bytes state).events, event.isDeep limit = false) →
        (scan P bytes state limits).SameAs (scan P bytes state))) ∧
    (∀ limit, limits.maxDepth = some limit →
      ∀ call ∈ (scan P bytes state limits).calls, call.path.length ≤ limit) ∧
    (∀ wider, limits.Within wider → (scan P bytes state limits).result = .ok () →
      (scan P bytes state wider).SameAs (scan P bytes state limits)) := by
  refine ⟨?_, ?_, ?_, fun wider hwithin hok => sameAs_of_within P state hwithin hok⟩
  · intro limit hlimit hlong
    rw [scan_of_tooLong P state hlimit hlong]
    exact ⟨rfl, rfl, rfl⟩
  · intro hfits
    have hexcess : (Scan.ofBytes bytes limits).excess? = none := by
      cases hexcess : (Scan.ofBytes bytes limits).excess? with
      | none => rfl
      | some fault =>
        obtain ⟨limit, hlimit, hlong, -⟩ := excess?_eq_some_iff.mp hexcess
        exact absurd hlong (Nat.not_lt.mpr (hfits limit hlimit))
    exact ⟨fun limit event hlimit hdeep => scan_of_deep P state hexcess hlimit hdeep,
      sameAs_of_not_deep P state hexcess⟩
  · intro limit hlimit call hcall
    cases hexcess : (Scan.ofBytes bytes limits).excess? with
    | none => exact length_path_le_of_mem_calls P state hexcess hlimit call hcall
    | some fault =>
      rw [scan_of_excess hexcess] at hcall
      cases hcall

/-- A message may be entered, and the first key in it is too deep. -/
theorem scan_limited_in_message :
    (scan .countValues [0x08, 0x01, 0x0a, 0x02, 0x10, 0x05] 0 { maxDepth := some 1 }).result =
      .error ((Fault.depthLimitExceeded 1).located 4 "1:2") ∧
    (scan .countValues [0x08, 0x01, 0x0a, 0x02, 0x10, 0x05] 0 { maxDepth := some 1 }).calls =
      [.delivered .varint 1 [0x01] (.ofList [1]), .asked 1 .root .descend] := by
  have hdeep : (scan .countValues [0x08, 0x01, 0x0a, 0x02, 0x10, 0x05] 0).events.find?
      (Event.isDeep 1) = some (.keyRead 4 ⟨.varint, 2⟩ (.ofList [1, 2])) := by decide +kernel
  obtain ⟨-, hfits, -, -⟩ := scan_limited .countValues [0x08, 0x01, 0x0a, 0x02, 0x10, 0x05] 0
    { maxDepth := some 1 }
  obtain ⟨_, _, _, ⟨⟩, -, hresult, hcalls⟩ := (hfits (by simp)).1 1 _ rfl hdeep
  exact ⟨hresult.trans rfl, hcalls.trans (by decide +kernel)⟩

end FieldSieve
