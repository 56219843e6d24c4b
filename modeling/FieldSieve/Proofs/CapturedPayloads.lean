import FieldSieve.Proofs.Calls
import FieldSieve.Proofs.Journal

/-!
# Payloads that are captured

Whether a payload is captured or passed over decides who gets to see its bytes and nothing else.
Two policies that decide by path and enter the same messages are led through the same walks, in
failing runs too, though one captures what the other passes over: either way the payload has to be
there, and its frame is closed behind it (`Walk.field_passed`).

The two runs are compared with the captures taken out of their calls (`Call.uncaptured?`).  At each
step they stand at the same scan with the same calls (`Walk.Alike`), so they visit alike walks and
break off with the same fault.
-/
namespace FieldSieve

namespace Call

variable {number : UInt64} {parent : FieldPath} {answer told : Decision}

/-- The call as it is where nothing is captured: the payload is passed over, and nothing of it is
delivered. -/
def uncaptured? : Call → Option Call
  | asked number parent .capture => some (asked number parent .skip)
  | delivered .lengthDelimited _ _ _ => none
  | call => some call

/-- Two answers are told apart only if one of them is to enter. -/
theorem uncaptured?_asked (h : answer = .descend ↔ told = .descend) :
    (asked number parent answer).uncaptured? = (asked number parent told).uncaptured? := by
  cases answer <;> cases told <;> simp_all [uncaptured?]

theorem filterMap_question? (calls : List Call) :
    (calls.filterMap uncaptured?).filterMap question? = calls.filterMap question? := by
  rw [List.filterMap_filterMap]
  congr 1
  funext call
  cases call with
  | asked number parent answer => cases answer <;> rfl
  | delivered wireType number value path => cases wireType <;> rfl

theorem filter_isScalar (calls : List Call) :
    (calls.filterMap uncaptured?).filter isScalar = calls.filter isScalar := by
  rw [List.filter_filterMap, ← List.filterMap_eq_filter]
  congr 1
  funext call
  cases call with
  | asked number parent answer => cases answer <;> rfl
  | delivered wireType number value path => cases wireType <;> rfl

end Call

namespace Walk

variable {σ τ : Type} {P : Policy σ} {Q : Policy τ} {walk next : Walk σ} {other : Walk τ}
  {key : Key} {c d e : Cursor} {bytes : Bytes} {length : Nat} {state : σ} {last : τ}
  {answer told : Decision} {events others : List Event} {rule otherRule : FieldPath → Decision}

/-- The same scan under another policy, with the same calls up to captures. -/
structure Alike (walk : Walk σ) (other : Walk τ) : Prop where
  cursor : other.cursor = walk.cursor
  nesting : other.nesting = walk.nesting
  visited : other.visited = walk.visited
  limits : other.limits = walk.limits
  calls : other.calls.filterMap Call.uncaptured? = walk.calls.filterMap Call.uncaptured?

/-- Both results are values or the same fault, and the walks that they leave are alike. -/
inductive AlikeResults :
    EStateM.Result Fault (Walk σ) Unit → EStateM.Result Fault (Walk τ) Unit → Prop
  | ok {next : Walk σ} {other : Walk τ} (h : next.Alike other) :
    AlikeResults (.ok () next) (.ok () other)
  | error {fault : Fault} {rest : Walk σ} {other : Walk τ} (h : rest.Alike other) :
    AlikeResults (.error fault rest) (.error fault other)

theorem AlikeResults.of_ok {result : EStateM.Result Fault (Walk τ) Unit}
    (h : AlikeResults (.ok () next) result) :
    ∃ image, result = .ok () image ∧ next.Alike image := by
  cases h with
  | ok halike => exact ⟨_, rfl, halike⟩

theorem AlikeResults.of_error {fault : Fault} {result : EStateM.Result Fault (Walk τ) Unit}
    (h : AlikeResults (.error fault next) result) :
    ∃ image, result = .error fault image ∧ next.Alike image := by
  cases h with
  | error halike => exact ⟨_, rfl, halike⟩

/-- The events give rise to the same calls up to captures. -/
def SameCalls (events others : List Event) : Prop :=
  (others.filterMap Event.call?).filterMap Call.uncaptured? =
    (events.filterMap Event.call?).filterMap Call.uncaptured?

theorem Alike.calls_append (h : walk.Alike other) (hevents : SameCalls events others)
    {later : Walk τ} (hnext : next.journal = walk.journal ++ events)
    (hlater : later.journal = other.journal ++ others) :
    later.calls.filterMap Call.uncaptured? = next.calls.filterMap Call.uncaptured? := by
  rw [calls_of_journal hnext, calls_of_journal hlater, List.filterMap_append,
    List.filterMap_append, h.calls, hevents]

theorem Alike.inside (h : walk.Alike other) (hevents : SameCalls events others) :
    (walk.inside key c state events).Alike (other.inside key c last others) where
  cursor := rfl
  nesting := congrArg (·.push key.number none) h.nesting
  visited := congrArg (· + 1) h.visited
  limits := h.limits
  calls := h.calls_append hevents rfl rfl

theorem Alike.past {count : Nat} (h : walk.Alike other) (hevents : SameCalls events others) :
    (walk.past c state count events).Alike (other.past c last count others) where
  cursor := rfl
  nesting := h.nesting
  visited := congrArg (· + count) h.visited
  limits := h.limits
  calls := h.calls_append hevents rfl rfl

theorem Alike.movedTo (h : walk.Alike other) : (walk.movedTo c).Alike (other.movedTo c) :=
  { h with cursor := rfl }

theorem Alike.opened {number : UInt64} {finish : Nat} (h : walk.Alike other) :
    (walk.opened number finish).Alike (other.opened number finish) where
  cursor := h.cursor
  nesting := congrArg (·.push number (some finish)) h.nesting
  visited := h.visited
  limits := h.limits
  calls := h.calls

theorem Alike.close (h : walk.Alike other) : AlikeResults (close walk) (close other) := by
  have hsettle : walk.settle.Alike other.settle :=
    { h with nesting := by simp only [settle, h.nesting, h.cursor] }
  rw [close_eq, close_eq, hsettle.nesting, h.cursor]
  split
  · exact .error hsettle
  · exact .ok hsettle

theorem Keyed.of_alike (hkeyed : walk.Keyed key c) (h : walk.Alike other) : other.Keyed key c where
  readKey := h.cursor ▸ hkeyed.readKey
  room := by
    rw [h.limits, h.nesting]
    exact hkeyed.room

theorem Sized.of_alike (hsized : walk.Sized key length c d) (h : walk.Alike other) :
    other.Sized key length c d :=
  { hsized.toKeyed.of_alike h with wireType := hsized.wireType, readLength := hsized.readLength }

/-- A payload that is not entered is passed, whoever gets to see it. -/
theorem field_passed (h : walk.Sized key bytes.length c d)
    (hanswer : P.answer key.number walk.nesting.path walk.state = (answer, state))
    (hpassed : answer ≠ .descend) (hthere : d.Passes bytes e) :
    ∃ last events, field P walk = Walk.close (walk.past e last 1 events) ∧
      SameCalls [walk.keyEvent key, walk.askedEvent key d.position bytes.length .skip] events := by
  cases answer with
  | descend => exact absurd rfl hpassed
  | skip => exact ⟨_, _, field_skipped h hanswer hthere, rfl⟩
  | capture =>
    refine ⟨_, _, field_captured h hanswer hthere, ?_⟩
    rw [deliveryEvent, h.wireType]
    rfl

theorem Alike.sameCalls_asked {start : Nat} (h : walk.Alike other)
    (hanswers : answer = .descend ↔ told = .descend) :
    SameCalls [walk.keyEvent key, walk.askedEvent key start length answer]
      [other.keyEvent key, other.askedEvent key start length told] := by
  show [Call.asked _ _ _].filterMap _ = [Call.asked _ _ _].filterMap _
  simp only [List.filterMap_cons, List.filterMap_nil, h.nesting,
    Call.uncaptured?_asked hanswers]

/-- Where the same messages are entered, a field comes to the same from walks that are alike. -/
theorem Alike.field (hP : P.DecidesBy rule) (hQ : Q.DecidesBy otherRule)
    (hsame : ∀ path, rule path = .descend ↔ otherRule path = .descend) (h : walk.Alike other) :
    AlikeResults (field P walk) (field Q other) := by
  have hasked : ∀ {key : Key} {answer : Decision} {state : σ},
      P.answer key.number walk.nesting.path walk.state = (answer, state) →
      ∃ told last, Q.answer key.number other.nesting.path other.state = (told, last) ∧
        (answer = .descend ↔ told = .descend) := by
    intro key answer state hanswer
    obtain ⟨last, htold⟩ := hQ.answer_eq key.number other.nesting.path other.state
    have hrule := hP key.number walk.nesting.path walk.state
    rw [hanswer] at hrule
    refine ⟨_, last, htold, ?_⟩
    rw [h.nesting, show answer = rule _ from hrule]
    exact hsame _
  have houtcome := fieldOutcome P walk
  generalize Walk.field P walk = result at houtcome
  cases houtcome with
  | badKey hbad =>
    rw [field_badKey (h.cursor ▸ hbad)]
    exact .error h.movedTo
  | tooDeep hkey hlimit hdeep =>
    rw [field_tooDeep (h.cursor ▸ hkey) (h.limits ▸ hlimit) (h.nesting ▸ hdeep)]
    exact .error (h.inside rfl)
  | noValue hkeyed hscalar hread =>
    rw [field_noValue (hkeyed.of_alike h) hscalar hread]
    exact .error (h.inside rfl)
  | noLength hkeyed hpayload hread =>
    rw [field_noLength (hkeyed.of_alike h) hpayload hread]
    exact .error (h.inside rfl)
  | missing hsized hanswer hmissing =>
    obtain ⟨told, last, htold, hanswers⟩ := hasked hanswer
    rw [field_missing (hsized.of_alike h) htold hmissing]
    exact .error (h.inside (h.sameCalls_asked hanswers))
  | outside hsized hanswer hthere hstop houtside =>
    obtain ⟨told, last, htold, hanswers⟩ := hasked hanswer
    obtain rfl := hanswers.mp rfl
    rw [field_outside (hsized.of_alike h) htold hthere (h.nesting ▸ hstop) houtside]
    exact .error (h.inside (h.sameCalls_asked hanswers))
  | scalar hkeyed hread =>
    rw [field_scalar (hkeyed.of_alike h) hread]
    refine (h.past ?_).close
    rw [deliveryEvent, deliveryEvent, h.nesting]
    rfl
  | skipped hsized hanswer hthere =>
    obtain ⟨told, last, htold, hanswers⟩ := hasked hanswer
    obtain ⟨after, events, hfield, hevents⟩ := field_passed (hsized.of_alike h) htold
      (fun hdescend => nomatch hanswers.mpr hdescend) hthere
    rw [hfield]
    exact (h.past (hevents.trans (h.sameCalls_asked Iff.rfl))).close
  | captured hsized hanswer hthere =>
    obtain ⟨told, last, htold, hanswers⟩ := hasked hanswer
    obtain ⟨after, events, hfield, hevents⟩ := field_passed (hsized.of_alike h) htold
      (fun hdescend => nomatch hanswers.mpr hdescend) hthere
    rw [hfield]
    refine (h.past (hevents.trans ((h.sameCalls_asked Iff.rfl).trans ?_))).close
    rw [deliveryEvent, hsized.wireType]
    rfl
  | descended hsized hanswer hthere hinside =>
    obtain ⟨told, last, htold, hanswers⟩ := hasked hanswer
    obtain rfl := hanswers.mp rfl
    rw [field_descended (hsized.of_alike h) htold hthere (h.nesting ▸ hinside)]
    exact (h.past (h.sameCalls_asked hanswers)).opened.close

/-- Runs that start alike visit alike walks. -/
theorem Alike.of_visits (hP : P.DecidesBy rule) (hQ : Q.DecidesBy otherRule)
    (hsame : ∀ path, rule path = .descend ↔ otherRule path = .descend) {start : Walk σ}
    {image : Walk τ} (hstart : start.Alike image) (h : Visits P start walk) :
    ∃ other, Visits Q image other ∧ walk.Alike other := by
  induction h with
  | start => exact ⟨image, .start, hstart⟩
  | field _ hmore hfield ih =>
    obtain ⟨other, hother, halike⟩ := ih
    have hresults := halike.field hP hQ hsame
    rw [hfield] at hresults
    obtain ⟨after, hafter, hnext⟩ := hresults.of_ok
    exact ⟨after, .field hother (halike.cursor ▸ hmore) hafter, hnext⟩

end Walk

section Scan

variable {σ τ : Type} {P : Policy σ} {Q : Policy τ} {rule otherRule : FieldPath → Decision}

/-- Where the same messages are entered, scans come to the same end with the same calls up to
captures. -/
theorem scan_alike (hP : P.DecidesBy rule) (hQ : Q.DecidesBy otherRule)
    (hsame : ∀ path, rule path = .descend ↔ otherRule path = .descend)
    (bytes : Bytes) (state : σ) (other : τ) (limits : Limits) :
    (scan Q bytes other limits).result = (scan P bytes state limits).result ∧
    (scan Q bytes other limits).visited = (scan P bytes state limits).visited ∧
    (scan Q bytes other limits).calls.filterMap Call.uncaptured? =
      (scan P bytes state limits).calls.filterMap Call.uncaptured? := by
  cases hexcess : (Scan.ofBytes bytes limits).excess? with
  | some fault =>
    rw [scan_of_excess hexcess, scan_of_excess hexcess]
    exact ⟨rfl, rfl, rfl⟩
  | none =>
    have hstart : (Walk.fresh bytes state limits).Alike (.fresh bytes other limits) :=
      ⟨rfl, rfl, rfl, rfl, rfl⟩
    rcases scan_cases P bytes state limits hexcess with
      ⟨last, hvisits, hend, -, hempty, hscan⟩ | ⟨last, fault, rest, hvisits, hmore, hfield, hscan⟩
    · obtain ⟨image, himage, halike⟩ := hstart.of_visits hP hQ hsame hvisits
      rw [hscan, scan_of_visits_atEnd hexcess himage (halike.cursor ▸ hend)
        (halike.nesting ▸ hempty), calls_completed, calls_completed]
      exact ⟨rfl, halike.visited, halike.calls⟩
    · obtain ⟨image, himage, halike⟩ := hstart.of_visits hP hQ hsame hvisits
      have hresults := halike.field hP hQ hsame
      rw [hfield] at hresults
      obtain ⟨left, hleft, hrest⟩ := hresults.of_error
      rw [hscan, scan_of_visits_error hexcess himage (halike.cursor ▸ hmore) hleft, calls_broken,
        calls_broken]
      refine ⟨?_, hrest.visited, hrest.calls⟩
      show Except.error (fault.located image.cursor.position left.nesting.path.text) = _
      rw [halike.cursor, hrest.nesting]
      rfl

/-- **Passing over agrees with capturing.**  Take two policies that decide by path and enter the
same messages.  Whatever the buffer and the limits, they are asked the same questions and are given
the same scalars, they visit as many fields, and they come to the same end, an error included.  Only
the payloads that one of them captures make a difference between their calls. -/
theorem scan_of_same_descents (hP : P.DecidesBy rule) (hQ : Q.DecidesBy otherRule)
    (hsame : ∀ path, rule path = .descend ↔ otherRule path = .descend)
    (bytes : Bytes) (state : σ) (other : τ) (limits : Limits) :
    (scan Q bytes other limits).calls.filterMap Call.question? =
      (scan P bytes state limits).calls.filterMap Call.question? ∧
    (scan Q bytes other limits).calls.filter Call.isScalar =
      (scan P bytes state limits).calls.filter Call.isScalar ∧
    (scan Q bytes other limits).visited = (scan P bytes state limits).visited ∧
    (scan Q bytes other limits).result = (scan P bytes state limits).result ∧
    (scan Q bytes other limits).calls.filterMap Call.uncaptured? =
      (scan P bytes state limits).calls.filterMap Call.uncaptured? := by
  obtain ⟨hresult, hvisited, hcalls⟩ := scan_alike hP hQ hsame bytes state other limits
  refine ⟨?_, ?_, hvisited, hresult, hcalls⟩
  · rw [← Call.filterMap_question?, hcalls, Call.filterMap_question?]
  · rw [← Call.filter_isScalar, hcalls, Call.filter_isScalar]

/-- A payload is captured that runs out of the message around it, and passing over it fails in the
same way. -/
theorem scan_of_same_descents_overrun :
    (scan (.ofRules [(.ofList [1], .descend)] .capture) [0x0a, 0x03, 0x12, 0x02, 0x61, 0x62] ()
      {}).result = .error (Fault.messageOverrun.located 2 "1") := by
  have hsame : ∀ path : FieldPath,
      Policy.ruling [(.ofList [1], .descend)] .skip path = .descend ↔
        Policy.ruling [(.ofList [1], .descend)] .capture path = .descend := by
    intro path
    by_cases h : FieldPath.ofList [1] = path <;> simp [Policy.ruling, h]
  obtain ⟨-, -, -, hresult, -⟩ := scan_of_same_descents (Policy.decidesBy_ofRules _ .skip)
    (Policy.decidesBy_ofRules _ .capture) hsame [0x0a, 0x03, 0x12, 0x02, 0x61, 0x62] () () {}
  rw [hresult, scan_of_toEnd rfl, Walk.toEnd_of_ok rfl rfl, Walk.toEnd_of_error rfl rfl]
  rfl

end Scan
end FieldSieve
