import FieldSieve.Proofs.Journal

/-!
# The fields that a run visits

A journal tells of one field after another: a key, and then the calls about the field with that key,
up to the next key.  Read in this way (`Run.fields`) it says which field each call is about, and the
calls of the fields in a row are the calls of the run (`calls_scan_eq_flatMap`).

What becomes of a field depends on the policy and on the bytes, but the calls about it have one of
four shapes (`CallsAbout`): there is none, a scalar is delivered, a question is asked, or a question
is answered with `capture` and the payload is delivered.

Every field in the journal was read from a walk that the run visits
(`exists_visits_of_mem_fields`), no two of them at the same offset (`inOrder_fields_scan`), and the
count of visited fields counts them (`visited_scan_eq_length`).
-/
namespace FieldSieve

/-- A field whose key was read: the offset of the key, the key, the field's path and the calls made
about it. -/
structure VisitedField where
  offset : Nat
  key : Key
  path : FieldPath
  calls : List Call
  deriving DecidableEq, Repr

/-- The calls that can be made about a field with a key and a path. -/
inductive CallsAbout (key : Key) (path : FieldPath) : List Call → Prop
  | none : CallsAbout key path []
  | scalar (value : Bytes) (h : key.wireType ≠ .lengthDelimited) :
    CallsAbout key path [.delivered key.wireType key.number value path]
  | asked (answer : Decision) (h : key.wireType = .lengthDelimited) :
    CallsAbout key path [.asked key.number path.parent answer]
  | captured (value : Bytes) (h : key.wireType = .lengthDelimited) :
    CallsAbout key path
      [.asked key.number path.parent .capture, .delivered key.wireType key.number value path]

namespace Event

/-- The event is that a key was read. -/
def isKey : Event → Bool
  | keyRead _ _ _ => true
  | _ => false

/-- The calls in front of the first key. -/
def leadingCalls (events : List Event) : List Call :=
  (events.takeWhile (!·.isKey)).filterMap call?

/-- The fields whose keys were read, each with the calls up to the next key. -/
def fields : List Event → List VisitedField
  | [] => []
  | keyRead offset key path :: events => ⟨offset, key, path, leadingCalls events⟩ :: fields events
  | _ :: events => fields events

variable {events front back : List Event} {offset : Nat} {key : Key} {path : FieldPath}

theorem leadingCalls_cons {event : Event} (h : event.isKey = false) :
    leadingCalls (event :: events) = event.call?.toList ++ leadingCalls events := by
  rw [leadingCalls, List.takeWhile_cons_of_pos (by simp [h]), List.filterMap_cons]
  cases event.call? <;> rfl

theorem fields_cons {event : Event} (h : event.isKey = false) :
    fields (event :: events) = fields events := by
  cases event with
  | keyRead => cases h
  | asked | delivered | failed | completed => rfl

/-- A key ends what is said about the field before it. -/
theorem leadingCalls_append_key :
    leadingCalls (front ++ keyRead offset key path :: back) = leadingCalls front := by
  induction front with
  | nil => rfl
  | cons event front ih =>
    rw [List.cons_append]
    cases hkey : event.isKey with
    | true => simp [leadingCalls, hkey]
    | false => rw [leadingCalls_cons hkey, leadingCalls_cons hkey, ih]

theorem fields_append_key :
    fields (front ++ keyRead offset key path :: back) =
      fields front ++ ⟨offset, key, path, leadingCalls back⟩ :: fields back := by
  induction front with
  | nil => rfl
  | cons event front ih =>
    rw [List.cons_append]
    cases event with
    | keyRead => rw [fields, fields, ih, leadingCalls_append_key, List.cons_append]
    | asked | delivered | failed | completed => exact ih

/-- Without a key all calls are leading ones, and there is no field. -/
theorem leadingCalls_of_no_key (h : ∀ event ∈ events, event.isKey = false) :
    leadingCalls events = events.filterMap call? := by
  have hall : events.takeWhile (!·.isKey) = events := by
    have happend : (events ++ []).takeWhile (!·.isKey) = events ++ [].takeWhile (!·.isKey) :=
      List.takeWhile_append_of_pos fun event hevent => by simp [h event hevent]
    rwa [List.takeWhile_nil, List.append_nil] at happend
  rw [leadingCalls, hall]

theorem fields_of_no_key (h : ∀ event ∈ events, event.isKey = false) : fields events = [] := by
  induction events with
  | nil => rfl
  | cons event events ih =>
    rw [List.forall_mem_cons] at h
    rw [fields_cons h.1, ih h.2]

/-- An event that is neither a key nor a call changes nothing behind others. -/
theorem fields_append_silent {event : Event} (hkey : event.isKey = false)
    (hcall : event.call? = none) : fields (front ++ [event]) = fields front := by
  have hleading : ∀ front : List Event, leadingCalls (front ++ [event]) = leadingCalls front := by
    intro front
    induction front with
    | nil => simp [leadingCalls, hkey, hcall]
    | cons first front ih =>
      rw [List.cons_append]
      cases hfirst : first.isKey with
      | true => simp [leadingCalls, hfirst]
      | false => rw [leadingCalls_cons hfirst, leadingCalls_cons hfirst, ih]
  induction front with
  | nil => exact fields_cons hkey
  | cons first front ih =>
    rw [List.cons_append]
    cases first with
    | keyRead => rw [fields, fields, ih, hleading]
    | asked | delivered | failed | completed => exact ih

end Event

/-- The fields that the run visited, in the order of their keys. -/
def Run.fields {σ : Type} (run : Run σ) : List VisitedField := Event.fields run.events

namespace Walk

variable {σ : Type} {P : Policy σ} {walk next start rest : Walk σ} {key : Key} {c d : Cursor}
  {bytes : Bytes} {state : σ} {limits : Limits}

/-- The fields visited so far. -/
def fields (walk : Walk σ) : List VisitedField := Event.fields walk.journal.toList

theorem fields_record {event : Event} (hkey : event.isKey = false) (hcall : event.call? = none) :
    (walk.record event).fields = walk.fields := by
  rw [fields, record, Array.toList_push, Event.fields_append_silent hkey hcall]
  rfl

/-- The field that comes next, if its key can be read: with the calls that will be made about it. -/
def upcoming (P : Policy σ) (walk : Walk σ) (key : Key) : VisitedField where
  offset := walk.cursor.position
  key := key
  path := walk.nesting.path.child key.number
  calls := (stateAfter (field P walk)).calls.drop walk.calls.length

theorem visited_of_readKey (hkey : Cursor.readKey walk.cursor = .ok key c) :
    (stateAfter (field P walk)).visited = walk.visited + 1 := by
  have hclose : ∀ {closing : Walk σ}, (stateAfter (close closing)).visited = closing.visited := by
    intro closing
    rw [close_eq]
    split <;> rfl
  have houtcome := fieldOutcome P walk
  generalize field P walk = result at houtcome
  cases houtcome with
  | badKey hbad => cases hkey.symm.trans hbad
  | tooDeep | noValue | noLength | missing | outside => rfl
  | scalar | skipped | captured | descended => exact hclose

/-- Whatever becomes of a field, its key is written down, and then calls about it. -/
theorem exists_events_of_readKey (P : Policy σ) (hkey : Cursor.readKey walk.cursor = .ok key c) :
    ∃ events, (stateAfter (field P walk)).journal = walk.journal ++ (walk.keyEvent key :: events) ∧
      (∀ event ∈ events, event.isKey = false) ∧
      CallsAbout key (walk.nesting.path.child key.number) (events.filterMap Event.call?) := by
  obtain ⟨events, hjournal, hevents⟩ := exists_fieldEvents P walk
  cases hevents with
  | badKey hbad => cases hkey.symm.trans hbad
  | unread h =>
    cases hkey.symm.trans h
    exact ⟨[], hjournal, nofun, .none⟩
  | scalar value h hscalar =>
    cases hkey.symm.trans h
    exact ⟨_, hjournal, by simp [deliveryEvent, Event.isKey], .scalar value hscalar⟩
  | asked answer h =>
    cases hkey.symm.trans h.readKey
    exact ⟨_, hjournal, by simp [askedEvent, Event.isKey], .asked answer h.wireType⟩
  | captured value h =>
    cases hkey.symm.trans h.readKey
    exact ⟨_, hjournal, by simp [askedEvent, deliveryEvent, Event.isKey],
      .captured value h.wireType⟩

/-- A key that cannot be read leaves nothing behind. -/
theorem journal_of_badKey {fault : Fault} (hkey : Cursor.readKey walk.cursor = .error fault c) :
    (stateAfter (field P walk)).journal = walk.journal ∧
      (stateAfter (field P walk)).visited = walk.visited := by
  rw [field_badKey hkey]
  exact ⟨rfl, rfl⟩

/-- What is written down about a field is a field more in the journal. -/
theorem fields_of_journal {events : List Event}
    (hjournal : next.journal = walk.journal ++ (walk.keyEvent key :: events))
    (hevents : ∀ event ∈ events, event.isKey = false) :
    next.calls = walk.calls ++ events.filterMap Event.call? ∧
      next.fields = walk.fields ++ [⟨walk.cursor.position, key,
        walk.nesting.path.child key.number, events.filterMap Event.call?⟩] := by
  have hcalls : next.calls =
      walk.calls ++ (walk.keyEvent key :: events).filterMap Event.call? := calls_of_journal hjournal
  refine ⟨hcalls, ?_⟩
  rw [fields, hjournal, Array.toList_appendList, keyEvent, Event.fields_append_key,
    Event.leadingCalls_of_no_key hevents, Event.fields_of_no_key hevents]
  rfl

theorem calls_upcoming_of_journal {events : List Event}
    (hjournal : (stateAfter (field P walk)).journal = walk.journal ++ events) :
    (walk.upcoming P key).calls = events.filterMap Event.call? := by
  rw [upcoming, calls_of_journal hjournal, List.drop_left]

theorem calls_upcoming (hkey : Cursor.readKey walk.cursor = .ok key c) :
    CallsAbout key (walk.nesting.path.child key.number) (walk.upcoming P key).calls ∧
      (stateAfter (field P walk)).calls = walk.calls ++ (walk.upcoming P key).calls := by
  obtain ⟨events, hjournal, hevents, habout⟩ := exists_events_of_readKey P hkey
  obtain ⟨hcalls, -⟩ := fields_of_journal hjournal hevents
  have hupcoming : (walk.upcoming P key).calls = events.filterMap Event.call? := by
    rw [calls_upcoming_of_journal hjournal]
    rfl
  rw [hupcoming]
  exact ⟨habout, hcalls⟩

/-- A field whose key can be read is the next one in the journal. -/
theorem fields_of_readKey (hkey : Cursor.readKey walk.cursor = .ok key c) :
    (stateAfter (field P walk)).fields = walk.fields ++ [walk.upcoming P key] := by
  obtain ⟨events, hjournal, hevents, -⟩ := exists_events_of_readKey P hkey
  obtain ⟨hcalls, hfields⟩ := fields_of_journal hjournal hevents
  rw [hfields, upcoming, hcalls, List.drop_left]

/-- The fields in the journal of a walk came next at walks that a run visits, one behind the other,
all calls are about them, and they have been counted. -/
structure Recounts (P : Policy σ) (start walk : Walk σ) : Prop where
  fields : ∀ field ∈ walk.fields, ∃ earlier key c, Visits P start earlier ∧
    earlier.cursor.atEnd = false ∧ Cursor.readKey earlier.cursor = .ok key c ∧
    field = earlier.upcoming P key
  inOrder : walk.fields.Pairwise (·.offset < ·.offset)
  calls : walk.calls = walk.fields.flatMap (·.calls)
  visited : walk.visited = walk.fields.length

theorem recounts_fresh : Recounts P (fresh bytes state limits) (fresh bytes state limits) :=
  ⟨nofun, .nil, rfl, rfl⟩

theorem Recounts.field (h : Recounts P start walk) (hvisits : Visits P start walk)
    (hbehind : ∀ field ∈ walk.fields, field.offset < walk.cursor.position)
    (hmore : walk.cursor.atEnd = false) : Recounts P start (stateAfter (field P walk)) := by
  cases hkey : Cursor.readKey walk.cursor with
  | error fault c =>
    obtain ⟨hjournal, hvisited⟩ := journal_of_badKey (P := P) hkey
    have hcalls : (stateAfter (Walk.field P walk)).calls = walk.calls := by
      rw [Walk.calls, hjournal, Walk.calls]
    have hfields : (stateAfter (Walk.field P walk)).fields = walk.fields := by
      rw [Walk.fields, hjournal, Walk.fields]
    constructor
    · rw [hfields]
      exact h.fields
    · rw [hfields]
      exact h.inOrder
    · rw [hcalls, hfields]
      exact h.calls
    · rw [hvisited, hfields]
      exact h.visited
  | ok key c =>
    obtain ⟨-, hcalls⟩ := calls_upcoming (P := P) hkey
    have hvisited := visited_of_readKey (P := P) hkey
    have hfields := fields_of_readKey (P := P) hkey
    constructor
    · -- The field is new, and it came next here.
      rw [hfields]
      refine List.forall_mem_append.mpr ⟨h.fields, List.forall_mem_singleton.mpr ?_⟩
      exact ⟨walk, key, c, hvisits, hmore, hkey, rfl⟩
    · rw [hfields]
      refine List.pairwise_append.mpr ⟨h.inOrder, List.pairwise_singleton .., ?_⟩
      intro field hfield last hlast
      rw [List.mem_singleton.mp hlast]
      exact hbehind field hfield
    · rw [hcalls, hfields, List.flatMap_append, h.calls, List.flatMap_singleton]
    · rw [hvisited, hfields, List.length_append, h.visited, List.length_singleton]

/-- The fields visited so far lie in front of the position. -/
theorem offset_lt_of_visits (h : Visits P (fresh bytes state limits) walk) :
    ∀ field ∈ walk.fields, field.offset < walk.cursor.position := by
  induction h with
  | start => exact nofun
  | @field walk next _ _ hfield ih =>
    have hlt := position_lt_of_field hfield
    cases hkey : Cursor.readKey walk.cursor with
    | error fault c => cases (field_badKey hkey).symm.trans hfield
    | ok key c =>
      have hfields := fields_of_readKey (P := P) hkey
      rw [hfield] at hfields
      rw [show next.fields = _ from hfields]
      refine List.forall_mem_append.mpr ⟨fun field hmem => ?_, List.forall_mem_singleton.mpr hlt⟩
      exact Nat.lt_trans (ih field hmem) hlt

theorem recounts_of_visits (h : Visits P (fresh bytes state limits) walk) :
    Recounts P (fresh bytes state limits) walk := by
  induction h with
  | start => exact recounts_fresh
  | field hvisits hmore hfield ih =>
    have hnext := ih.field hvisits (offset_lt_of_visits hvisits) hmore
    rwa [hfield] at hnext

end Walk

section Scan

variable {σ : Type} {P : Policy σ} {bytes : Bytes} {state : σ} {limits : Limits} {walk : Walk σ}

theorem fields_completed {length visited : Nat} :
    (Run.ofResult (.ok () (walk.record (.completed length visited)))).fields = walk.fields :=
  Walk.fields_record rfl rfl

theorem fields_broken {offset : Nat} {fault : Fault} :
    (Run.ofResult (Walk.broken offset fault walk)).fields = walk.fields :=
  Walk.fields_record rfl rfl

/-- The journal of a run is that of a walk that recounts the run. -/
theorem exists_recounts (P : Policy σ) (state : σ)
    (hexcess : (Scan.ofBytes bytes limits).excess? = none) :
    ∃ last : Walk σ, Walk.Recounts P (.fresh bytes state limits) last ∧
      (scan P bytes state limits).fields = last.fields ∧
      (scan P bytes state limits).calls = last.calls ∧
      (scan P bytes state limits).visited = last.visited := by
  rcases scan_cases P bytes state limits hexcess with
    ⟨last, hvisits, -, -, -, hscan⟩ | ⟨last, fault, rest, hvisits, hmore, hfield, hscan⟩
  · refine ⟨last, Walk.recounts_of_visits hvisits, ?_⟩
    rw [hscan]
    exact ⟨fields_completed, calls_completed, rfl⟩
  · have hrest := (Walk.recounts_of_visits hvisits).field hvisits
      (Walk.offset_lt_of_visits hvisits) hmore
    rw [hfield] at hrest
    refine ⟨rest, hrest, ?_⟩
    rw [hscan]
    exact ⟨fields_broken, calls_broken, rfl⟩

theorem excess?_of_mem_fields {field : VisitedField}
    (h : field ∈ (scan P bytes state limits).fields) : (Scan.ofBytes bytes limits).excess? = none := by
  cases hexcess : (Scan.ofBytes bytes limits).excess? with
  | none => rfl
  | some fault =>
    rw [scan_of_excess hexcess] at h
    cases h

/-- A field that a run visits came next at a walk that it visits. -/
theorem exists_visits_of_mem_fields {field : VisitedField}
    (h : field ∈ (scan P bytes state limits).fields) :
    ∃ walk key c, Walk.Visits P (.fresh bytes state limits) walk ∧ walk.cursor.atEnd = false ∧
      Cursor.readKey walk.cursor = .ok key c ∧ field = walk.upcoming P key := by
  obtain ⟨last, hlast, hfields, -, -⟩ := exists_recounts P state (excess?_of_mem_fields h)
  rw [hfields] at h
  exact hlast.fields field h

/-- No two fields of a run have the same place. -/
theorem inOrder_fields_scan (P : Policy σ) (bytes : Bytes) (state : σ) (limits : Limits) :
    (scan P bytes state limits).fields.Pairwise (·.offset < ·.offset) := by
  cases hexcess : (Scan.ofBytes bytes limits).excess? with
  | some fault =>
    rw [scan_of_excess hexcess]
    exact .nil
  | none =>
    obtain ⟨last, hlast, hfields, -, -⟩ := exists_recounts P state hexcess
    rw [hfields]
    exact hlast.inOrder

/-- Each call of a run is about one of the fields that it visits, and the calls come field by
field. -/
theorem calls_scan_eq_flatMap (P : Policy σ) (bytes : Bytes) (state : σ) (limits : Limits) :
    (scan P bytes state limits).calls = (scan P bytes state limits).fields.flatMap (·.calls) := by
  cases hexcess : (Scan.ofBytes bytes limits).excess? with
  | some fault =>
    rw [scan_of_excess hexcess]
    rfl
  | none =>
    obtain ⟨last, hlast, hfields, hcalls, -⟩ := exists_recounts P state hexcess
    rw [hcalls, hfields]
    exact hlast.calls

/-- The count of a run is that of the fields that it visits. -/
theorem visited_scan_eq_length (P : Policy σ) (bytes : Bytes) (state : σ) (limits : Limits) :
    (scan P bytes state limits).visited = (scan P bytes state limits).fields.length := by
  cases hexcess : (Scan.ofBytes bytes limits).excess? with
  | some fault =>
    rw [scan_of_excess hexcess]
    rfl
  | none =>
    obtain ⟨last, hlast, hfields, -, hvisited⟩ := exists_recounts P state hexcess
    rw [hvisited, hfields]
    exact hlast.visited

/-- The last field of a run that breaks off is the one at which it does. -/
theorem getLast?_fields_of_error {rest : Walk σ} {fault : Fault} {key : Key} {c : Cursor}
    (hexcess : (Scan.ofBytes bytes limits).excess? = none)
    (hvisits : Walk.Visits P (.fresh bytes state limits) walk) (hmore : walk.cursor.atEnd = false)
    (hkey : Cursor.readKey walk.cursor = .ok key c)
    (hfield : Walk.field P walk = .error fault rest) :
    (scan P bytes state limits).fields.getLast? = some (walk.upcoming P key) := by
  have hfields := Walk.fields_of_readKey (P := P) hkey
  rw [hfield] at hfields
  rw [scan_of_visits_error hexcess hvisits hmore hfield, fields_broken,
    show rest.fields = _ from hfields, List.getLast?_concat]

end Scan
end FieldSieve
