import FieldSieve.Proofs.Continuation
import FieldSieve.Proofs.Crossing
import FieldSieve.Proofs.EnteredMessages
import FieldSieve.Proofs.SkippedBytes
import FieldSieve.Proofs.VisitedFields

/-!
# Fields that run past a message

Where a field ends is written in its bytes (`Bytes.fieldEnd?`): behind a number, or as far on as the
length of a payload says, no matter what lies in between.  A message that is entered has an end too,
and so has the buffer.  A field that ends behind one of them ends the run
(`scan_field_past_message`).

What tells that it does is found in three places.  A number or a length that is cut off, or a
payload that is not all there, is found by the read.  A message that would end behind the one around
it is found before it is opened.  All else is found when it has been read, and then a value may have
been delivered: it is the last thing that the policy sees.
-/
namespace FieldSieve

namespace Bytes

/-- The key at an offset, if one can be read there. -/
def keyAt? (bytes : Bytes) (offset : Nat) : Option Key :=
  match Cursor.readKey (bytes.cursorAt offset) with
  | .ok key _ => some key
  | .error _ _ => none

end Bytes

/-- Where that which stands behind a key ends, if the number or the length there is not cut off.  A
payload may end behind the buffer. -/
def Key.finishBehind? (key : Key) (c : Cursor) : Option Nat :=
  match key.wireType with
  | .varint =>
    match Cursor.readVarint c with
    | .ok _ d => some d.position
    | .error _ _ => none
  | .fixed64 => some (c.position + 8)
  | .fixed32 => some (c.position + 4)
  | .lengthDelimited =>
    match Cursor.readVarint c with
    | .ok word d => some (d.position + word.value.toNat)
    | .error _ _ => none
  | .startGroup | .endGroup => none

namespace Bytes

/-- Where the field whose key stands at an offset ends. -/
def fieldEnd? (bytes : Bytes) (offset : Nat) : Option Nat :=
  match Cursor.readKey (bytes.cursorAt offset) with
  | .ok key c => key.finishBehind? c
  | .error _ _ => none

/-- The field whose key stands at an offset lies in front of another offset. -/
def EndsBy (bytes : Bytes) (offset stop : Nat) : Prop :=
  ∃ finish, bytes.fieldEnd? offset = some finish ∧ finish ≤ stop

end Bytes

section Finish

variable {bytes : Bytes} {c d : Cursor} {key : Key} {stop finish : Nat} {fault : Fault}

theorem Cursor.In.cursorAt_eq (h : c.In bytes) : bytes.cursorAt c.position = c :=
  Cursor.ext rfl h.symm

theorem Bytes.keyAt?_of_readKey (h : c.In bytes) (hkey : Cursor.readKey c = .ok key d) :
    bytes.keyAt? c.position = some key := by
  rw [keyAt?, h.cursorAt_eq, hkey]

theorem Bytes.keyAt?_of_error (h : c.In bytes) (hkey : Cursor.readKey c = .error fault d) :
    bytes.keyAt? c.position = none := by
  rw [keyAt?, h.cursorAt_eq, hkey]

theorem Bytes.endsBy_iff (h : c.In bytes) (hkey : Cursor.readKey c = .ok key d)
    (hfinish : key.finishBehind? d = some finish) :
    bytes.EndsBy c.position stop ↔ finish ≤ stop := by
  rw [EndsBy, fieldEnd?, h.cursorAt_eq, hkey]
  simp [hfinish]

theorem Key.finishBehind?_of_sized {σ : Type} {walk : Walk σ} {length : Nat}
    (h : walk.Sized key length c d) : key.finishBehind? c = some (d.position + length) := by
  obtain ⟨word, hword, rfl⟩ := h.readLength
  simp only [finishBehind?, h.wireType, hword]

theorem Key.finishBehind?_of_scalar {number : UInt64} {value : Scalar}
    (hread : Item.readBehind key c = .ok (.scalar number value) d) :
    key.finishBehind? c = some d.position := by
  obtain ⟨behind, hbehind, hpasses⟩ := Item.readBehind_eq_ok_iff.mp hread
  cases hbehind with
  | varint htype hform =>
    simp only [finishBehind?, htype,
      Cursor.readVarint_eq_ok_iff.mpr ⟨behind, hform, hpasses, rfl⟩]
  | fixed64 htype hlength | fixed32 htype hlength =>
    simp only [finishBehind?, htype, hpasses.position, hlength]

/-- What the read of a scalar misses would end behind the buffer, or its end is missing too. -/
theorem Key.size_lt_of_readBehind (hscalar : key.wireType ≠ .lengthDelimited)
    (hread : Item.readBehind key c = .error fault d) (hfinish : key.finishBehind? c = some finish) :
    c.size < finish := by
  have hshort : ∀ {n : Nat}, Cursor.readBytes n c = .error fault d → c.size < c.position + n := by
    intro n hraw
    apply Nat.lt_of_not_le
    intro hle
    cases (Cursor.readBytes_of_le (Nat.le_of_add_le_add_left hle)).symm.trans hraw
  obtain ⟨type, number⟩ := key
  cases type with
  | varint =>
    rcases bind_eq_error.mp hread with hword | ⟨_, _, -, hitem⟩
    · simp [finishBehind?, hword] at hfinish
    · cases hitem
  | fixed64 | fixed32 =>
    cases hfinish
    rcases bind_eq_error.mp hread with hraw | ⟨_, _, -, hitem⟩
    · exact hshort hraw
    · cases hitem
  | lengthDelimited => exact absurd rfl hscalar
  | startGroup | endGroup => cases hfinish

end Finish

namespace Walk

variable {σ : Type} {P : Policy σ} {walk closing : Walk σ} {bytes : Bytes} {key : Key} {c : Cursor}
  {stops : List Nat} {finish : Nat}

/-- Where a field ends decides what becomes of it: it must end in front of all ends around it, those
of the messages and that of the buffer. -/
inductive EndOutcome (walk : Walk σ) (bytes : Bytes) (stops : List Nat) :
    EStateM.Result Fault (Walk σ) Unit → Prop
  | cutOff {rest : Walk σ} (h : ¬ bytes.EndsBy walk.cursor.position bytes.length) :
    EndOutcome walk bytes stops (.error .endOfStream rest)
  | overrun {rest : Walk σ} {stop : Nat} (h : bytes.EndsBy walk.cursor.position bytes.length)
      (hstop : stop ∈ stops) (hpast : ¬ bytes.EndsBy walk.cursor.position stop) :
    EndOutcome walk bytes stops (.error .messageOverrun rest)
  | within {next : Walk σ} (h : bytes.EndsBy walk.cursor.position bytes.length)
      (hstops : ∀ stop ∈ stops, bytes.EndsBy walk.cursor.position stop) :
    EndOutcome walk bytes stops (.ok () next)

theorem endOutcome_of_close (hstops : closing.Stops stops)
    (hsize : closing.cursor.size = bytes.length)
    (hends : ∀ stop, bytes.EndsBy walk.cursor.position stop ↔ closing.cursor.position ≤ stop) :
    EndOutcome walk bytes stops (close closing) := by
  have hthere : bytes.EndsBy walk.cursor.position bytes.length :=
    (hends _).mpr (hsize ▸ Nat.le_add_right ..)
  by_cases hle : ∀ stop ∈ stops, closing.cursor.position ≤ stop
  · rw [close_of_le hstops hle]
    exact .within hthere fun stop hstop => (hends stop).mpr (hle stop hstop)
  · simp only [Classical.not_forall, Nat.not_le] at hle
    obtain ⟨stop, hstop, hlt⟩ := hle
    rw [close_of_lt hstops hstop hlt]
    exact .overrun hthere hstop (mt (hends stop).mp (Nat.not_le.mpr hlt))

/-- With a usable key, and room for any number of frames, only its end is in the way of a field. -/
theorem endOutcome (hin : walk.cursor.In bytes) (hstops : walk.Stops stops)
    (hsize : walk.cursor.size = bytes.length) (hroom : walk.limits.maxDepth = none)
    (hkey : Cursor.readKey walk.cursor = .ok key c) :
    EndOutcome walk bytes stops (field P walk) := by
  have houtcome := fieldOutcome P walk
  generalize field P walk = result at houtcome
  cases houtcome with
  | badKey hbad => cases hkey.symm.trans hbad
  | tooDeep _ hlimit => cases hroom.symm.trans hlimit
  | @noValue key c d hkeyed hscalar hread =>
    -- The end of the value is not known, or it is known and lies behind the buffer.
    obtain ⟨front, hfront⟩ := hkeyed.passes
    refine .cutOff ?_
    rintro ⟨finish, hfinish, hle⟩
    rw [Bytes.fieldEnd?, hin.cursorAt_eq, hkeyed.readKey] at hfinish
    have hlt := Key.size_lt_of_readBehind hscalar hread hfinish
    rw [hfront.size_eq, hsize] at hlt
    omega
  | noLength hkeyed hpayload hread =>
    refine .cutOff ?_
    rintro ⟨finish, hfinish, -⟩
    rw [Bytes.fieldEnd?, hin.cursorAt_eq, hkeyed.readKey] at hfinish
    simp [Key.finishBehind?, hpayload, hread] at hfinish
  | @missing key length c d answer state hsized hanswer hmissing =>
    obtain ⟨front, hpasses⟩ := hsized.passes
    have hthere := hpasses.size_eq.trans hsize
    rw [Cursor.size] at hthere
    refine .cutOff ?_
    rw [Bytes.endsBy_iff hin hsized.readKey (Key.finishBehind?_of_sized hsized)]
    omega
  | @outside key length stop c d state hsized hanswer hthere hstop houtside =>
    obtain ⟨front, hpasses⟩ := hsized.passes
    have hends : ∀ other, bytes.EndsBy walk.cursor.position other ↔ d.position + length ≤ other :=
      fun _ => Bytes.endsBy_iff hin hsized.readKey (Key.finishBehind?_of_sized hsized)
    have hlength := hpasses.size_eq.trans hsize
    rw [Cursor.size] at hlength
    refine .overrun ((hends _).mpr (by omega)) ?_ (mt (hends stop).mp (Nat.not_le.mpr houtside))
    rw [hstops.innermostEnd?_eq] at hstop
    exact List.mem_of_mem_head? hstop
  | scalar hkeyed hread =>
    obtain ⟨front, hfront⟩ := hkeyed.passes
    obtain ⟨behind, -, hbehind⟩ := Item.readBehind_eq_ok_iff.mp hread
    have hpasses := hfront.trans hbehind
    exact endOutcome_of_close (hstops.past hpasses) (hpasses.size_eq.trans hsize) fun stop =>
      Bytes.endsBy_iff hin hkeyed.readKey (Key.finishBehind?_of_scalar hread)
  | skipped hsized _ hthere | captured hsized _ hthere =>
    obtain ⟨front, hfront⟩ := hsized.passes
    have hpasses := hfront.trans hthere
    refine endOutcome_of_close (hstops.past hpasses) (hpasses.size_eq.trans hsize) fun stop => ?_
    rw [Bytes.endsBy_iff hin hsized.readKey (Key.finishBehind?_of_sized hsized), ← hthere.position]
    rfl
  | @descended key inner c d state hsized _ hthere hinside =>
    obtain ⟨front, hpasses⟩ := hsized.passes
    have hlength := hpasses.size_eq.trans hsize
    have hfits : d.position + inner ≤ d.size := Nat.add_le_add_left hthere _
    have hall := hstops.le_of_innermostEnd? hinside
    have hends : ∀ stop, bytes.EndsBy walk.cursor.position stop ↔ d.position + inner ≤ stop :=
      fun _ => Bytes.endsBy_iff hin hsized.readKey (Key.finishBehind?_of_sized hsized)
    rw [close_opened (hstops.past hpasses) hall hfits (Nat.le_add_right ..)]
    refine .within ((hends _).mpr (hlength ▸ hfits)) fun stop hstop => ?_
    exact (hends stop).mpr (hall stop hstop)

/-- What is delivered about a field has been read to its end. -/
theorem endsBy_of_delivered (hin : walk.cursor.In bytes) (hsize : walk.cursor.size = bytes.length)
    {wireType : WireType} {number : UInt64} {value : Bytes} {path : FieldPath}
    (h : .delivered wireType number value path ∈ (walk.upcoming P key).calls) :
    bytes.EndsBy walk.cursor.position bytes.length := by
  have hcalls : ∀ events : List Event,
      (stateAfter (field P walk)).journal = walk.journal ++ events →
      .delivered wireType number value path ∈ events.filterMap Event.call? := by
    intro events hjournal
    rwa [← calls_upcoming_of_journal hjournal]
  have houtcome := fieldOutcome P walk
  generalize field P walk = result at houtcome hcalls
  cases houtcome with
  | badKey => cases hcalls [] (Array.ext' (by simp [stateAfter, movedTo]))
  | tooDeep | noValue | noLength => cases hcalls _ rfl
  | missing | outside => simpa [keyEvent, askedEvent, Event.call?] using hcalls _ rfl
  | skipped | descended =>
    simpa [keyEvent, askedEvent, Event.call?] using hcalls _ journal_close
  | scalar hkeyed hread =>
    obtain ⟨front, hfront⟩ := hkeyed.passes
    obtain ⟨behind, -, hbehind⟩ := Item.readBehind_eq_ok_iff.mp hread
    rw [Bytes.endsBy_iff hin hkeyed.readKey (Key.finishBehind?_of_scalar hread), ← hsize,
      ← (hfront.trans hbehind).size_eq]
    exact Nat.le_add_right ..
  | captured hsized _ hthere =>
    obtain ⟨front, hfront⟩ := hsized.passes
    rw [Bytes.endsBy_iff hin hsized.readKey (Key.finishBehind?_of_sized hsized), ← hthere.position,
      ← hsize, ← (hfront.trans hthere).size_eq]
    exact Nat.le_add_right ..

end Walk

/-- The ends of what a run is in at an offset: of the buffer and of the messages around it. -/
def Run.stopsAround {σ : Type} (run : Run σ) (bytes : Bytes) (offset : Nat) : List Nat :=
  bytes.length :: (run.messagesAt offset).map EnteredMessage.stop

/-- The run breaks off at a field, and that is the last one it visits. -/
def Run.BreaksOffAt {σ : Type} (run : Run σ) (field : VisitedField) (fault : Fault) : Prop :=
  run.fields.getLast? = some field ∧
    ∃ error, run.result = .error error ∧ error.offset = field.offset ∧ error.fault = fault

/-- The last call about a field is the delivery of its value, if there is one. -/
theorem CallsAbout.eq_nil_of_delivered {key : Key} {path own : FieldPath}
    {calls front back : List Call} {wireType : WireType} {number : UInt64} {value : Bytes}
    (h : CallsAbout key path calls)
    (hsplit : calls = front ++ .delivered wireType number value own :: back) : back = [] := by
  cases h with
  | none => cases front <;> cases hsplit
  | scalar _ _ =>
    rcases front with _ | ⟨_, front⟩
    · cases hsplit
      rfl
    · cases front <;> cases hsplit
  | asked _ _ =>
    rcases front with _ | ⟨_, front⟩
    · cases hsplit
    · cases front <;> cases hsplit
  | captured _ _ =>
    rcases front with _ | ⟨_, _ | ⟨_, front⟩⟩
    · cases hsplit
    · cases hsplit
      rfl
    · cases front <;> cases hsplit

/-- A call among those of a row of fields is one of those of a field in the row. -/
theorem exists_field_of_flatMap {fields : List VisitedField} {front back : List Call} {call : Call}
    (h : fields.flatMap (·.calls) = front ++ call :: back) :
    ∃ earlier field later before behind, fields = earlier ++ field :: later ∧
      field.calls = before ++ call :: behind ∧ back = behind ++ later.flatMap (·.calls) := by
  induction fields generalizing front with
  | nil => cases front <;> cases h
  | cons first fields ih =>
    have hmore : ∀ front, fields.flatMap (·.calls) = front ++ call :: back →
        ∃ earlier field later before behind, first :: fields = earlier ++ field :: later ∧
          field.calls = before ++ call :: behind ∧ back = behind ++ later.flatMap (·.calls) := by
      intro front h
      obtain ⟨earlier, field, later, before, behind, rfl, hcalls, hback⟩ := ih h
      exact ⟨first :: earlier, field, later, before, behind, rfl, hcalls, hback⟩
    rw [List.flatMap_cons, List.append_eq_append_iff] at h
    rcases h with ⟨more, -, hlater⟩ | ⟨_ | ⟨other, own⟩, hown, hlater⟩
    · exact hmore more hlater
    · exact hmore [] hlater.symm
    · obtain ⟨rfl, rfl⟩ := List.cons.inj hlater
      exact ⟨[], first, fields, front, own, rfl, hown, rfl⟩

/-- Behind the last of the fields of a run there is none. -/
theorem eq_nil_of_getLast? {fields earlier later : List VisitedField} {field : VisitedField}
    (hinOrder : fields.Pairwise (·.offset < ·.offset)) (hfields : fields = earlier ++ field :: later)
    (hlast : fields.getLast? = some field) : later = [] := by
  rcases List.eq_nil_or_concat later with rfl | ⟨init, last, rfl⟩
  · rfl
  · rw [List.concat_eq_append] at hfields
    rw [hfields, ← List.cons_append, ← List.append_assoc, List.getLast?_concat] at hlast
    cases hlast
    rw [hfields, List.pairwise_append] at hinOrder
    have hlt := (List.pairwise_cons.mp hinOrder.2.1).1 field (by simp)
    exact absurd hlt (Nat.lt_irrefl _)

section Scan

variable {σ : Type} {P : Policy σ} {bytes : Bytes} {state : σ} {limits : Limits} {walk rest : Walk σ}
  {key : Key} {c : Cursor} {fault : Fault}

theorem breaksOffAt_of_error (hexcess : (Scan.ofBytes bytes limits).excess? = none)
    (hvisits : Walk.Visits P (.fresh bytes state limits) walk) (hmore : walk.cursor.atEnd = false)
    (hkey : Cursor.readKey walk.cursor = .ok key c)
    (hfield : Walk.field P walk = .error fault rest) :
    (scan P bytes state limits).BreaksOffAt (walk.upcoming P key) fault := by
  refine ⟨getLast?_fields_of_error hexcess hvisits hmore hkey hfield, ?_⟩
  rw [scan_of_visits_error hexcess hvisits hmore hfield]
  exact ⟨_, rfl, rfl, rfl⟩

/-- What becomes of the fields of a scan is told by the ends that its run is in. -/
theorem endOutcome_scan (hexcess : (Scan.ofBytes bytes limits).excess? = none)
    (hvisits : Walk.Visits P (.fresh bytes state limits) walk) (hmore : walk.cursor.atEnd = false)
    (hkey : Cursor.readKey walk.cursor = .ok key c) (hroom : limits.maxDepth = none) :
    Walk.EndOutcome walk bytes ((scan P bytes state limits).stopsAround bytes walk.cursor.position)
      (Walk.field P walk) := by
  obtain ⟨stops, hstops, -, hsize⟩ :=
    Walk.ahead_of_visits (Walk.ahead_fresh bytes state limits) hvisits
  have hin : walk.cursor.In bytes := Walk.in_of_visits hvisits
  have hlimits : walk.limits.maxDepth = none := by
    rw [Walk.limits_of_visits hvisits]
    exact hroom
  have hlocated := Walk.located_of_visits hvisits
  have hmem : ∀ stop, stop ∈ (scan P bytes state limits).stopsAround bytes walk.cursor.position ↔
      stop = bytes.length ∨ stop ∈ stops := by
    intro stop
    rw [Run.stopsAround, List.mem_cons, List.mem_map, messagesAt_scan hexcess hvisits hmore,
      hlocated.mem_stops hstops]
  have houtcome := Walk.endOutcome (P := P) hin hstops hsize hlimits hkey
  generalize Walk.field P walk = result at houtcome
  cases houtcome with
  | cutOff h => exact .cutOff h
  | overrun h hstop hpast => exact .overrun h ((hmem _).mpr (.inr hstop)) hpast
  | within h hinside =>
    refine .within h fun stop hstop => ?_
    rcases (hmem stop).mp hstop with rfl | hstop
    · exact h
    · exact hinside stop hstop

/-- A field that ends behind something it is in ends the run. -/
theorem breaksOffAt_of_past (hroom : limits.maxDepth = none) {field : VisitedField} {stop : Nat}
    (hmem : field ∈ (scan P bytes state limits).fields)
    (hstop : stop ∈ (scan P bytes state limits).stopsAround bytes field.offset)
    (hpast : ¬ bytes.EndsBy field.offset stop) :
    (bytes.EndsBy field.offset bytes.length →
      (scan P bytes state limits).BreaksOffAt field .messageOverrun) ∧
    (¬ bytes.EndsBy field.offset bytes.length →
      (scan P bytes state limits).BreaksOffAt field .endOfStream) := by
  have hexcess := excess?_of_mem_fields hmem
  obtain ⟨walk, key, c, hvisits, hmore, hkey, rfl⟩ := exists_visits_of_mem_fields hmem
  have houtcome := endOutcome_scan hexcess hvisits hmore hkey hroom
  obtain ⟨result, hresult⟩ : ∃ result, Walk.field P walk = result := ⟨_, rfl⟩
  rw [hresult] at houtcome
  cases houtcome with
  | cutOff h =>
    refine ⟨fun hthere => absurd hthere h, fun _ => ?_⟩
    exact breaksOffAt_of_error hexcess hvisits hmore hkey hresult
  | overrun h _ _ =>
    refine ⟨fun _ => ?_, fun hcut => absurd h hcut⟩
    exact breaksOffAt_of_error hexcess hvisits hmore hkey hresult
  | within h hinside => exact absurd (hinside stop hstop) hpast

/-- A value is that of a field which ends in front of all that it is in, unless the run breaks off
there and makes no other call. -/
theorem endsBy_of_calls (hroom : limits.maxDepth = none) {front back : List Call}
    {wireType : WireType} {number : UInt64} {value : Bytes} {path : FieldPath}
    (hcalls : (scan P bytes state limits).calls =
      front ++ .delivered wireType number value path :: back) :
    ∃ field ∈ (scan P bytes state limits).fields,
      .delivered wireType number value path ∈ field.calls ∧
      ((∀ stop ∈ (scan P bytes state limits).stopsAround bytes field.offset,
        bytes.EndsBy field.offset stop) ∨
      back = [] ∧ (scan P bytes state limits).BreaksOffAt field .messageOverrun) := by
  -- The call is about one of the fields, and what becomes of that field tells all.
  rw [calls_scan_eq_flatMap] at hcalls
  obtain ⟨earlier, field, later, before, behind, hfields, hown, hback⟩ :=
    exists_field_of_flatMap hcalls
  have hmem : field ∈ (scan P bytes state limits).fields := by simp [hfields]
  have hcall : .delivered wireType number value path ∈ field.calls := by simp [hown]
  have hexcess := excess?_of_mem_fields hmem
  refine ⟨field, hmem, hcall, ?_⟩
  obtain ⟨walk, key, c, hvisits, hmore, hkey, rfl⟩ := exists_visits_of_mem_fields hmem
  have houtcome := endOutcome_scan hexcess hvisits hmore hkey hroom
  obtain ⟨result, hresult⟩ : ∃ result, Walk.field P walk = result := ⟨_, rfl⟩
  rw [hresult] at houtcome
  cases houtcome with
  | cutOff h =>
    obtain ⟨-, -, -, hsize⟩ := Walk.ahead_of_visits (Walk.ahead_fresh bytes state _) hvisits
    exact absurd (Walk.endsBy_of_delivered (Walk.in_of_visits hvisits) hsize hcall) h
  | overrun _ _ _ =>
    have hbreaks := breaksOffAt_of_error hexcess hvisits hmore hkey hresult
    obtain rfl : behind = [] := (Walk.calls_upcoming hkey).1.eq_nil_of_delivered hown
    obtain rfl : later = [] :=
      eq_nil_of_getLast? (inOrder_fields_scan P bytes state _) hfields hbreaks.1
    exact .inr ⟨hback, hbreaks⟩
  | within _ hinside => exact .inl hinside

end Scan

/-- **A field that runs past its message ends the run.**  If no depth limit is in the way, a field
that ends behind a message around it, or behind the buffer, is the last one that the run visits, and
the run breaks off at its key: for want of bytes if the buffer ends before the field does, and with
an overrun otherwise.  And each value that is delivered is that of a field which ends in front of all
ends around it, or it is the last call of a run that breaks off with an overrun there. -/
theorem scan_field_past_message {σ : Type} (P : Policy σ) (bytes : Bytes) (state : σ)
    (maxLength : Option Nat) :
    (∀ field ∈ (scan P bytes state { maxLength }).fields,
      ∀ stop ∈ (scan P bytes state { maxLength }).stopsAround bytes field.offset,
      ¬ bytes.EndsBy field.offset stop →
        (bytes.EndsBy field.offset bytes.length →
          (scan P bytes state { maxLength }).BreaksOffAt field .messageOverrun) ∧
        (¬ bytes.EndsBy field.offset bytes.length →
          (scan P bytes state { maxLength }).BreaksOffAt field .endOfStream)) ∧
    ∀ front wireType number value path back, (scan P bytes state { maxLength }).calls =
        front ++ .delivered wireType number value path :: back →
      ∃ field ∈ (scan P bytes state { maxLength }).fields,
        .delivered wireType number value path ∈ field.calls ∧
        ((∀ stop ∈ (scan P bytes state { maxLength }).stopsAround bytes field.offset,
          bytes.EndsBy field.offset stop) ∨
        back = [] ∧ (scan P bytes state { maxLength }).BreaksOffAt field .messageOverrun) := by
  refine ⟨?_, ?_⟩
  · intro field hmem stop hstop hpast
    exact breaksOffAt_of_past rfl hmem hstop hpast
  · intro front wireType number value path back hcalls
    exact endsBy_of_calls rfl hcalls

/-- A number that begins in its message and ends behind it is delivered, and then the run breaks
off. -/
theorem scan_field_past_message_number :
    (scan .countValues [0x0a, 0x02, 0x15, 0x96, 0x01, 0x00, 0x00] 0 {}).BreaksOffAt
      ⟨2, ⟨.fixed32, 2⟩, .ofList [1, 2], [.delivered .fixed32 2 [0x96, 0x01, 0x00, 0x00]
        (.ofList [1, 2])]⟩ .messageOverrun := by
  have hrun : (scan .countValues [0x0a, 0x02, 0x15, 0x96, 0x01, 0x00, 0x00] 0 {}).fields =
        [⟨0, ⟨.lengthDelimited, 1⟩, .ofList [1], [.asked 1 .root .descend]⟩,
          ⟨2, ⟨.fixed32, 2⟩, .ofList [1, 2], [.delivered .fixed32 2 [0x96, 0x01, 0x00, 0x00]
            (.ofList [1, 2])]⟩] ∧
      (scan .countValues [0x0a, 0x02, 0x15, 0x96, 0x01, 0x00, 0x00] 0 {}).messages =
        [⟨1, 2, 4⟩] := by
    rw [scan_of_toEnd rfl, Walk.toEnd_of_ok rfl rfl, Walk.toEnd_of_error rfl rfl]
    exact ⟨rfl, rfl⟩
  have hends : ∀ stop,
      Bytes.EndsBy [0x0a, 0x02, 0x15, 0x96, 0x01, 0x00, 0x00] 2 stop ↔ 7 ≤ stop := by
    have hend : Bytes.fieldEnd? [0x0a, 0x02, 0x15, 0x96, 0x01, 0x00, 0x00] 2 = some 7 := rfl
    intro stop
    rw [Bytes.EndsBy, hend]
    simp
  obtain ⟨hpast, -⟩ :=
    scan_field_past_message .countValues [0x0a, 0x02, 0x15, 0x96, 0x01, 0x00, 0x00] 0 none
  refine (hpast _ ?_ 4 ?_ ?_).1 ((hends 7).mpr (Nat.le_refl 7))
  · rw [hrun.1]
    exact List.mem_cons_of_mem _ List.mem_cons_self
  · rw [Run.stopsAround, Run.messagesAt, hrun.2]
    decide
  · exact mt (hends 4).mp (by decide)

end FieldSieve
