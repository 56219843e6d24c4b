import FieldSieve.Proofs.Calls
import FieldSieve.Proofs.VisitedFields

/-!
# The order of calls

A policy sees nothing but its calls, so it has to know from them where it is.  It can: the calls are
nested like the messages that they are about.  A call about a field inside a message comes behind
the question about that message, which was answered with `descend`, and between the two there are
only calls about fields inside the message (`Call.Entered`).

This is kept from field to field.  All calls about a field have the path of the open frames as their
parent, and the frames that are open behind it were open before, but for one that its own question
has opened (`Walk.path_of_field`).  A message that is empty or ends with others is left before the
next call is made.

What stands immediately behind a question is read off the fields: a payload is delivered only to the
answer `capture` (`callsAbout_of_mem_fields`).
-/
namespace FieldSieve

namespace FieldPath

variable {p q r : FieldPath} {n : UInt64}

theorem isAncestorOrSelf_refl (p : FieldPath) : p.isAncestorOrSelf p = true :=
  isAncestorOrSelf_iff.mpr (List.prefix_refl _)

theorem isAncestorOrSelf_trans (h : p.isAncestorOrSelf q = true) (hr : q.isAncestorOrSelf r = true) :
    p.isAncestorOrSelf r = true := by
  rw [isAncestorOrSelf_iff] at *
  exact h.trans hr

theorem child_inj {m : UInt64} : p.child n = q.child m ↔ p = q ∧ n = m := by
  cases p
  cases q
  simp [child, and_comm]

/-- Above a field there are the message around it, what is above that, and nothing else. -/
theorem isAncestorOrSelf_child :
    p.isAncestorOrSelf (q.child n) = true ↔ p.isAncestorOrSelf q = true ∨ p = q.child n := by
  rw [isAncestorOrSelf_iff, isAncestorOrSelf_iff, toList_child, List.prefix_concat_iff, or_comm,
    ← toList_child]
  exact or_congr Iff.rfl ⟨FieldPath.ext, congrArg toList⟩

theorem not_isAncestorOrSelf_of_child : (q.child n).isAncestorOrSelf q = false := by
  rw [← Bool.not_eq_true, isAncestorOrSelf_iff]
  intro hprefix
  have hlength := hprefix.length_le
  rw [toList_child, List.length_append, List.length_singleton] at hlength
  omega

end FieldPath

namespace Call

variable {calls more : List Call} {outer : FieldPath} {number : UInt64}

/-- A message has been entered, and it has not been left by the end of the calls: behind the last
question that entered it, all calls are about fields inside it. -/
def Entered (calls : List Call) (outer : FieldPath) (number : UInt64) : Prop :=
  ∃ earlier between, calls = earlier ++ .asked number outer .descend :: between ∧
    .asked number outer .descend ∉ between ∧
    ∀ call ∈ between, (outer.child number).isAncestorOrSelf call.path.parent = true

theorem entered_concat : Entered (calls ++ [.asked number outer .descend]) outer number :=
  ⟨calls, [], rfl, List.not_mem_nil, nofun⟩

/-- Calls about fields inside a message do not leave it. -/
theorem Entered.append (h : Entered calls outer number)
    (hmore : ∀ call ∈ more, (outer.child number).isAncestorOrSelf call.path.parent = true) :
    Entered (calls ++ more) outer number := by
  obtain ⟨earlier, between, rfl, hlast, hinside⟩ := h
  refine ⟨earlier, between ++ more, by simp, ?_, List.forall_mem_append.mpr ⟨hinside, hmore⟩⟩
  -- The question about the message is itself not about a field inside it.
  have hfresh : .asked number outer .descend ∉ more := by
    intro hmem
    have hself : (outer.child number).isAncestorOrSelf outer = true := hmore _ hmem
    cases FieldPath.not_isAncestorOrSelf_of_child.symm.trans hself
  rw [List.mem_append]
  exact not_or.mpr ⟨hlast, hfresh⟩

/-- Each call is about a field all of whose messages have been entered before and not been left. -/
def Nested (calls : List Call) : Prop :=
  ∀ front call back, calls = front ++ call :: back →
    ∀ outer number, (outer.child number).isAncestorOrSelf call.path.parent = true →
      Entered front outer number

/-- Calls about a field of the innermost message keep the nesting. -/
theorem Nested.append {parent : FieldPath} (h : Nested calls)
    (hentered : ∀ outer number, (outer.child number).isAncestorOrSelf parent = true →
      Entered calls outer number)
    (hmore : ∀ call ∈ more, call.path.parent = parent) : Nested (calls ++ more) := by
  intro front call back hsplit outer number hinside
  rcases List.append_eq_append_iff.mp hsplit with ⟨early, rfl, hlate⟩ | ⟨late, hfront, hback⟩
  · have hearly : ∀ call ∈ early, (outer.child number).isAncestorOrSelf call.path.parent = true := by
      intro other hother
      rw [hmore other (by simp [hlate, hother]), ← hmore call (by simp [hlate])]
      exact hinside
    refine (hentered outer number ?_).append hearly
    rw [← hmore call (by simp [hlate])]
    exact hinside
  · cases late with
    | nil =>
      rw [List.append_nil] at hfront
      rw [← hfront]
      refine hentered outer number ?_
      rw [List.nil_append] at hback
      rw [← hmore call (by simp [← hback])]
      exact hinside
    | cons first late =>
      cases hback
      exact h front call late hfront outer number hinside

/-- A payload is delivered only immediately behind the question about it, and only to the answer
`capture`. -/
def CapturedWhenAsked (calls : List Call) : Prop :=
  ∀ front number value path back,
    calls = front ++ .delivered .lengthDelimited number value path :: back →
    ∃ earlier, front = earlier ++ [.asked number path.parent .capture]

theorem CapturedWhenAsked.append (h : CapturedWhenAsked calls) (hmore : CapturedWhenAsked more) :
    CapturedWhenAsked (calls ++ more) := by
  intro front number value path back hsplit
  rcases List.append_eq_append_iff.mp hsplit with ⟨early, rfl, hlate⟩ | ⟨late, hfront, hback⟩
  · obtain ⟨earlier, rfl⟩ := hmore early number value path back hlate
    exact ⟨calls ++ earlier, (List.append_assoc ..).symm⟩
  · cases late with
    | nil =>
      obtain ⟨earlier, hnil⟩ := hmore [] number value path back hback.symm
      cases earlier <;> cases hnil
    | cons first late =>
      cases hback
      exact h front number value path late hfront

theorem capturedWhenAsked_flatMap {fields : List VisitedField}
    (h : ∀ field ∈ fields, CapturedWhenAsked field.calls) :
    CapturedWhenAsked (fields.flatMap (·.calls)) := by
  induction fields with
  | nil =>
    intro front number value path back hsplit
    cases front <;> cases hsplit
  | cons field fields ih =>
    rw [List.forall_mem_cons] at h
    rw [List.flatMap_cons]
    exact h.1.append (ih h.2)

end Call

section CallsAbout

variable {key : Key} {path : FieldPath} {calls : List Call} {call : Call}

/-- The calls about a field have its path. -/
theorem CallsAbout.path_eq (h : CallsAbout key path calls)
    (hpath : path = path.parent.child key.number) (hcall : call ∈ calls) : call.path = path := by
  cases h with
  | none => cases hcall
  | scalar value _ =>
    obtain rfl := List.mem_singleton.mp hcall
    rfl
  | asked answer _ =>
    obtain rfl := List.mem_singleton.mp hcall
    exact hpath.symm
  | captured value _ =>
    rcases List.mem_cons.mp hcall with rfl | hcall
    · exact hpath.symm
    · obtain rfl := List.mem_singleton.mp hcall
      rfl

/-- A value is delivered with the number and the path of its field. -/
theorem CallsAbout.of_delivered {wireType : WireType} {number : UInt64} {value : Bytes}
    {own : FieldPath} (h : CallsAbout key path calls)
    (hcall : .delivered wireType number value own ∈ calls) : number = key.number ∧ own = path := by
  cases h with
  | none | asked answer _ => simp at hcall
  | scalar value _ | captured value _ => simp_all

theorem CallsAbout.capturedWhenAsked (h : CallsAbout key path calls) :
    Call.CapturedWhenAsked calls := by
  intro front number value path back hsplit
  cases h with
  | none => cases front <;> cases hsplit
  | scalar value hscalar =>
    rcases front with _ | ⟨first, front⟩
    · obtain ⟨⟨htype, -⟩, -⟩ : (key.wireType = .lengthDelimited ∧ _) ∧ _ := by simpa using hsplit
      exact absurd htype hscalar
    · cases front <;> cases hsplit
  | asked answer _ =>
    rcases front with _ | ⟨first, front⟩
    · cases hsplit
    · cases front <;> cases hsplit
  | captured value _ =>
    rcases front with _ | ⟨first, _ | ⟨second, front⟩⟩
    · cases hsplit
    · obtain ⟨rfl, ⟨-, rfl, -, rfl⟩, -⟩ : _ ∧ (_ ∧ _ ∧ _ ∧ _) ∧ _ := by simpa using hsplit
      exact ⟨[], rfl⟩
    · cases front <;> cases hsplit

/-- About a payload that is not captured there is no call but the question. -/
theorem CallsAbout.eq_asked {number : UInt64} {parent : FieldPath} {answer : Decision}
    (h : CallsAbout key path calls) (hasked : .asked number parent answer ∈ calls)
    (hanswer : answer ≠ .capture) : calls = [.asked number parent answer] := by
  cases h with
  | none | scalar value _ => simp at hasked
  | asked told _ =>
    obtain ⟨rfl, rfl, rfl⟩ : _ ∧ _ ∧ _ := by simpa using hasked
    rfl
  | captured value _ =>
    obtain ⟨-, -, rfl⟩ : _ ∧ _ ∧ _ := by simpa using hasked
    exact absurd rfl hanswer

end CallsAbout

namespace Walk

variable {σ : Type} {P : Policy σ} {walk next : Walk σ} {key : Key} {c : Cursor}
  {bytes : Bytes} {state : σ} {limits : Limits}

theorem path_settle (walk : Walk σ) :
    walk.settle.nesting.path.isAncestorOrSelf walk.nesting.path = true :=
  List.isSuffixOf_iff_suffix.mpr (List.drop_suffix ..)

/-- Behind a field the frames from before it are open, or fewer, but for one that the field may have
opened by the answer to its question. -/
theorem path_of_field (hfield : field P walk = .ok () next) :
    next.nesting.path.isAncestorOrSelf walk.nesting.path = true ∨
    ∃ number, next.calls = walk.calls ++ [.asked number walk.nesting.path .descend] ∧
      next.nesting.path.isAncestorOrSelf (walk.nesting.path.child number) = true := by
  have houtcome := fieldOutcome P walk
  generalize field P walk = result at houtcome hfield
  cases houtcome with
  | badKey | tooDeep | noValue | noLength | missing | outside => cases hfield
  | scalar | skipped | captured =>
    obtain rfl := eq_settle_of_close hfield
    exact .inl (path_settle _)
  | @descended key length c d state hsized hanswer hthere hinside =>
    -- An empty message is closed at once, so its frame need not be open any more.
    obtain rfl := eq_settle_of_close hfield
    let closing := (walk.past d state 1 [walk.keyEvent key,
      walk.askedEvent key d.position length .descend]).opened key.number (d.position + length)
    have hjournal : closing.settle.journal = walk.journal ++ [walk.keyEvent key,
      walk.askedEvent key d.position length .descend] := rfl
    exact .inr ⟨key.number, calls_of_journal hjournal, path_settle closing⟩

theorem path_upcoming (hkey : Cursor.readKey walk.cursor = .ok key c) {call : Call}
    (hcall : call ∈ (walk.upcoming P key).calls) : call.path.parent = walk.nesting.path := by
  obtain ⟨habout, -⟩ := calls_upcoming (P := P) hkey
  rw [habout.path_eq rfl hcall, FieldPath.parent_child]

/-- The calls so far are nested, and the messages around the position are those that were entered
and not left. -/
structure InCalls (walk : Walk σ) : Prop where
  nested : Call.Nested walk.calls
  entered : ∀ outer number, (outer.child number).isAncestorOrSelf walk.nesting.path = true →
    Call.Entered walk.calls outer number

theorem InCalls.field (h : walk.InCalls) : Call.Nested (stateAfter (field P walk)).calls := by
  cases hkey : Cursor.readKey walk.cursor with
  | error fault c =>
    obtain ⟨hjournal, -⟩ := journal_of_badKey (P := P) hkey
    rw [Walk.calls, hjournal]
    exact h.nested
  | ok key c =>
    obtain ⟨-, hcalls⟩ := calls_upcoming (P := P) hkey
    rw [hcalls]
    exact h.nested.append h.entered fun call hcall => path_upcoming hkey hcall

theorem InCalls.of_field (h : walk.InCalls) (hfield : Walk.field P walk = .ok () next) :
    next.InCalls where
  nested := by
    have hnested := h.field (P := P)
    rwa [hfield] at hnested
  entered := by
    intro outer number hinside
    cases hkey : Cursor.readKey walk.cursor with
    | error fault c => cases hfield.symm.trans (field_badKey hkey)
    | ok key c =>
      -- A message that is open behind the field was open before it, or it is the field.
      rcases path_of_field hfield with hpath | ⟨own, hcalls, hpath⟩
      · obtain ⟨-, hcalls⟩ := calls_upcoming (P := P) hkey
        rw [hfield] at hcalls
        rw [show next.calls = _ from hcalls]
        have haround := FieldPath.isAncestorOrSelf_trans hinside hpath
        refine (h.entered outer number haround).append fun call hcall => ?_
        rw [path_upcoming hkey hcall]
        exact haround
      · rw [hcalls]
        rcases FieldPath.isAncestorOrSelf_child.mp
          (FieldPath.isAncestorOrSelf_trans hinside hpath) with haround | hown
        · refine (h.entered outer number haround).append fun call hcall => ?_
          obtain rfl := List.mem_singleton.mp hcall
          exact haround
        · obtain ⟨rfl, rfl⟩ := FieldPath.child_inj.mp hown
          exact Call.entered_concat

theorem inCalls_of_visits (h : Visits P (fresh bytes state limits) walk) : walk.InCalls := by
  induction h with
  | start =>
    constructor
    · intro front call back hsplit
      cases front <;> cases hsplit
    · intro outer number hinside
      rw [FieldPath.isAncestorOrSelf_iff, FieldPath.toList_child] at hinside
      exact absurd (List.prefix_nil.mp hinside) (by simp)
  | field _ _ hfield ih => exact ih.of_field hfield

end Walk

section Scan

variable {σ : Type} {P : Policy σ} {bytes : Bytes} {state : σ} {limits : Limits}

/-- What is known of the calls about a field that a run visits. -/
theorem callsAbout_of_mem_fields {field : VisitedField}
    (h : field ∈ (scan P bytes state limits).fields) :
    CallsAbout field.key field.path field.calls ∧
      field.path = field.path.parent.child field.key.number := by
  obtain ⟨walk, key, c, -, -, hkey, rfl⟩ := exists_visits_of_mem_fields h
  exact ⟨(Walk.calls_upcoming hkey).1, rfl⟩

/-- The calls of a scan are nested like the messages that they are about. -/
theorem nested_calls_scan (P : Policy σ) (bytes : Bytes) (state : σ) (limits : Limits) :
    Call.Nested (scan P bytes state limits).calls := by
  cases hexcess : (Scan.ofBytes bytes limits).excess? with
  | some fault =>
    rw [scan_of_excess hexcess]
    intro front call back hsplit
    cases front <;> cases hsplit
  | none =>
    rcases scan_cases P bytes state limits hexcess with
      ⟨last, hvisits, -, -, -, hscan⟩ | ⟨last, fault, rest, hvisits, -, hfield, hscan⟩
    · rw [hscan, calls_completed]
      exact (Walk.inCalls_of_visits hvisits).nested
    · have hnested := (Walk.inCalls_of_visits hvisits).field (P := P)
      rw [hfield] at hnested
      rw [hscan, calls_broken]
      exact hnested

end Scan

/-- **What a policy sees.**  Whatever the buffer and the limits, and whether the scan succeeds or
not, a value is delivered with the path of its own field.  A payload is delivered immediately behind
the question about it that was answered with `capture`, and where the answer is another one, no
other call is made about the field.  And calls are nested: a call about a field inside a message
comes behind the question that entered the message, and since that question all calls have been
about fields inside the message. -/
theorem scan_calls_nested {σ : Type} (P : Policy σ) (bytes : Bytes) (state : σ) (limits : Limits) :
    (∀ wireType number value path,
      .delivered wireType number value path ∈ (scan P bytes state limits).calls →
      path ≠ .root ∧ path.last? = some number) ∧
    (∀ front number value path back, (scan P bytes state limits).calls =
        front ++ .delivered .lengthDelimited number value path :: back →
      ∃ earlier, front = earlier ++ [.asked number path.parent .capture]) ∧
    ((scan P bytes state limits).calls = (scan P bytes state limits).fields.flatMap (·.calls) ∧
      ∀ field ∈ (scan P bytes state limits).fields, ∀ number parent answer,
        .asked number parent answer ∈ field.calls → answer ≠ .capture →
        field.calls = [.asked number parent answer]) ∧
    (∀ front call back, (scan P bytes state limits).calls = front ++ call :: back →
      ∀ outer number, (outer.child number).isAncestorOrSelf call.path.parent = true →
      ∃ earlier between, front = earlier ++ .asked number outer .descend :: between ∧
        .asked number outer .descend ∉ between ∧
        ∀ later ∈ between, (outer.child number).isAncestorOrSelf later.path.parent = true) := by
  have hflat := calls_scan_eq_flatMap P bytes state limits
  refine ⟨?_, ?_, ⟨hflat, ?_⟩, nested_calls_scan P bytes state limits⟩
  · intro wireType number value path hmem
    rw [hflat] at hmem
    obtain ⟨field, hfield, hcall⟩ := List.mem_flatMap.mp hmem
    obtain ⟨habout, hpath⟩ := callsAbout_of_mem_fields hfield
    obtain ⟨rfl, rfl⟩ := habout.of_delivered hcall
    rw [hpath]
    exact ⟨by simp [FieldPath.child, FieldPath.root], by simp⟩
  · rw [hflat]
    exact Call.capturedWhenAsked_flatMap fun field hfield =>
      (callsAbout_of_mem_fields hfield).1.capturedWhenAsked
  · intro field hfield number parent answer hasked hanswer
    exact (callsAbout_of_mem_fields hfield).1.eq_asked hasked hanswer

end FieldSieve
