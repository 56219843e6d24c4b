import FieldSieve.Fee
import FieldSieve.Proofs.CollectedFields
import FieldSieve.Proofs.GivenNumbers
import FieldSieve.Proofs.Replays

/-!
# The fee is that of the last coin

An extractor goes through one buffer after the other and keeps its draft.  A buffer may list several
fees with several coins each, a coin may lack one half, and a scan may break off in the middle of a
coin or before its first field.  None of this can bring the halves of two coins together: the draft
holds what was last given inside the last coin that the extractor was asked about.

The calls of all the scans, put one behind the other, are still nested
(`Call.Nested.append_nested`), and the draft is a matter of the calls alone.  So one argument over a
list of calls does for all buffers and all ways to fail.  Where a single scan succeeds, the calls are
those of a walk over a tree, and the last coin is the last one in that tree.

The gas limit does not depend on coins.  It is the last number given at its path, and that is the
number that stands in the buffer, however it was handed over.
-/
namespace FieldSieve

open CapturedField (valuesAt)

/-- Scans of whole buffers one after the other, under one policy that keeps its state, and the state
behind them. -/
def scanEach {σ : Type} (P : Policy σ) : List (Bytes × Limits) → σ → List (Run σ) × σ
  | [], state => ([], state)
  | (bytes, limits) :: buffers, state =>
    let run := scan P bytes state limits
    let (runs, last) := scanEach P buffers run.state
    (run :: runs, last)

namespace Call

variable {calls more : List Call} {outer : FieldPath} {number : UInt64}

theorem Entered.behind (h : Entered more outer number) : Entered (calls ++ more) outer number := by
  obtain ⟨earlier, between, rfl, hlast, hinside⟩ := h
  exact ⟨calls ++ earlier, between, (List.append_assoc ..).symm, hlast, hinside⟩

/-- Nested calls behind nested calls are nested: each finds its messages among its own. -/
theorem Nested.append_nested (h : Nested calls) (hmore : Nested more) : Nested (calls ++ more) := by
  intro front call back hsplit outer number hinside
  rcases List.append_eq_append_iff.mp hsplit with ⟨early, rfl, hlate⟩ | ⟨late, rfl, hback⟩
  · exact (hmore early call back hlate outer number hinside).behind
  · cases late with
    | nil =>
      rw [List.nil_append] at hback
      have hentered : Entered (front ++ []) outer number :=
        (hmore [] call back hback.symm outer number hinside).behind
      rwa [List.append_nil] at hentered
    | cons first late =>
      cases hback
      exact h front call late rfl outer number hinside

end Call

/-- The numbers that several scans give as varints at a path, as they stand in the buffers. -/
def varintsEach {σ : Type} (path : FieldPath) (buffers : List (Bytes × Limits))
    (runs : List (Run σ)) : List Nat :=
  (buffers.zipWith (fun buffer run => buffer.1.varintsAt path 0 run.events) runs).flatten

section ScanEach

variable {σ : Type}

/-- The state behind several scans is the one that their calls lead to. -/
theorem replay_scanEach (P : Policy σ) (buffers : List (Bytes × Limits)) (state : σ) :
    P.replay ((scanEach P buffers state).1.flatMap Run.calls) state =
      some (scanEach P buffers state).2 := by
  induction buffers generalizing state with
  | nil => rfl
  | cons buffer buffers ih =>
    exact Policy.replay_append_eq_some_iff.mpr
      ⟨_, replay_calls_run P (.ofBytes buffer.1 buffer.2) state, ih _⟩

theorem nested_scanEach (P : Policy σ) (buffers : List (Bytes × Limits)) (state : σ) :
    Call.Nested ((scanEach P buffers state).1.flatMap Run.calls) := by
  induction buffers generalizing state with
  | nil =>
    intro front call back hsplit
    cases front <;> cases hsplit
  | cons buffer buffers ih =>
    exact (nested_calls_scan P buffer.1 state buffer.2).append_nested (ih _)

/-- The numbers given as varints make up the words that they stand for in the buffers. -/
theorem varintsEach_scanEach (P : Policy σ) (path : FieldPath) (buffers : List (Bytes × Limits))
    (state : σ) : varintsEach path buffers (scanEach P buffers state).1 =
      (valuesAt .varint path (((scanEach P buffers state).1.flatMap Run.calls).filterMap
        Call.received?)).map (·.word.toNat) := by
  induction buffers generalizing state with
  | nil => rfl
  | cons buffer buffers ih =>
    have hscan := Bytes.varintsAt_scan P buffer.1 state buffer.2 path
    rw [scanEach, List.flatMap_cons, List.filterMap_append, CapturedField.valuesAt_append,
      List.map_append, ← hscan, ← ih]
    rfl

end ScanEach

namespace Fee

/-- The draft that holds these bytes. -/
def Draft.holding (denom amount gasLimit : Option Bytes) : Draft :=
  ⟨denom.map Text.Utf8.decodeLossy, amount.map Text.Utf8.decodeLossy, gasLimit.map Bytes.word⟩

variable {denom amount gasLimit : Option Bytes}

theorem deliver_holding (wireType : WireType) (number : UInt64) (value : Bytes) (path : FieldPath) :
    (Draft.holding denom amount gasLimit).deliver wireType value path =
      .holding (Call.hold coinPath denomPath denom (.delivered wireType number value path))
        (Call.hold coinPath amountPath amount (.delivered wireType number value path))
        (Call.latest .varint gasLimitPath gasLimit (.delivered wireType number value path)) := by
  have hhold : ∀ {own : FieldPath} {held : Option Bytes},
      Call.hold coinPath own held (.delivered wireType number value path) =
        (if wireType = .lengthDelimited ∧ path = own then some value else none).or held := rfl
  have hlatest : Call.latest .varint gasLimitPath gasLimit (.delivered wireType number value path) =
      (if wireType = .varint ∧ path = gasLimitPath then some value else none).or gasLimit := rfl
  have hne : denomPath ≠ amountPath := by decide
  rw [hhold, hhold, hlatest]
  cases wireType with
  | lengthDelimited =>
    by_cases hdenom : path = denomPath
    · simp [Draft.deliver, Draft.holding, hdenom, hne]
    · by_cases hamount : path = amountPath
      · simp [Draft.deliver, Draft.holding, hamount, hne.symm]
      · simp [Draft.deliver, Draft.holding, hdenom, hamount]
  | varint =>
    by_cases hgas : path = gasLimitPath <;> simp [Draft.deliver, Draft.holding, hgas]
  | fixed64 | fixed32 | startGroup | endGroup => simp [Draft.deliver, Draft.holding]

/-- What a draft holds is moved by each call. -/
theorem replay_extractor {calls : List Call} {last : Draft}
    (h : extractor.replay calls (.holding denom amount gasLimit) = some last) :
    last = .holding (calls.foldl (Call.hold coinPath denomPath) denom)
      (calls.foldl (Call.hold coinPath amountPath) amount)
      (calls.foldl (Call.latest .varint gasLimitPath) gasLimit) := by
  induction calls generalizing denom amount gasLimit with
  | nil => exact (Option.some.inj h).symm
  | cons call calls ih =>
    cases call with
    | asked number parent answer =>
      obtain ⟨next, hanswer, hrest⟩ := Policy.replay_asked_eq_some_iff.mp h
      have hnext : next = .holding
          (Call.hold coinPath denomPath denom (.asked number parent answer))
          (Call.hold coinPath amountPath amount (.asked number parent answer))
          (Call.latest .varint gasLimitPath gasLimit (.asked number parent answer)) := by
        cases hanswer
        by_cases hcoin : parent.child number = coinPath <;>
          simp [Draft.holding, Call.hold, Call.latest, Call.asksAbout, Call.valueAt?,
            Call.received?, hcoin]
      rw [hnext] at hrest
      exact ih hrest
    | delivered wireType number value path =>
      have hstep : extractor.replay calls
          ((Draft.holding denom amount gasLimit).deliver wireType value path) = some last := h
      rw [deliver_holding wireType number value path] at hstep
      exact ih hstep

theorem decidesBy_extractor : extractor.DecidesBy selection.decision :=
  fun number parent _ => selection.answer_eq_decision number parent

theorem isTarget_denomPath : selection.isTarget denomPath = true := by decide

theorem isTarget_amountPath : selection.isTarget amountPath = true := by decide

theorem isTarget_gasLimitPath : selection.isTarget gasLimitPath = true := by decide

theorem decision_coinPath : selection.decision coinPath = .descend := by decide

/-- After nested calls the draft is of the last coin. -/
theorem holding_of_nested {calls : List Call} {last : Draft} (hnested : Call.Nested calls)
    (h : extractor.replay calls {} = some last) :
    last = .holding (Call.lastPayload? coinPath denomPath calls)
      (Call.lastPayload? coinPath amountPath calls)
      (valuesAt .varint gasLimitPath (calls.filterMap Call.received?)).getLast? := by
  have hdraft := replay_extractor (show extractor.replay calls (.holding none none none) = _ from h)
  have hdenom : calls.foldl (Call.hold coinPath denomPath) none = _ :=
    Call.foldl_hold_of_nested hnested
  have hamount : calls.foldl (Call.hold coinPath amountPath) none = _ :=
    Call.foldl_hold_of_nested hnested
  rw [hdraft, hdenom, hamount, Call.foldl_latest, Option.or_none]
  rfl

/-- After a walk over a tree the draft is of the last coin in it. -/
theorem holding_of_answered {fields : List Node} {last : Draft}
    (hanswered : ∀ call ∈ Node.callsAll .root fields, call.AnsweredBy selection.decision)
    (h : extractor.replay (Node.callsAll .root fields) {} = some last) :
    last = .holding (Node.lastPayload? coinPath denomPath .root fields)
      (Node.lastPayload? coinPath amountPath .root fields)
      (valuesAt .varint gasLimitPath (Node.leavesAll .root fields)).getLast? := by
  have hdraft := replay_extractor
    (show extractor.replay (Node.callsAll .root fields) (.holding none none none) = _ from h)
  have hdenom : (Node.callsAll .root fields).foldl (Call.hold coinPath denomPath) none = _ :=
    Node.foldl_hold_eq_lastPayload? decision_coinPath
      (Selection.decision_ne_skip isTarget_denomPath) rfl hanswered
  have hamount : (Node.callsAll .root fields).foldl (Call.hold coinPath amountPath) none = _ :=
    Node.foldl_hold_eq_lastPayload? decision_coinPath
      (Selection.decision_ne_skip isTarget_amountPath) rfl hanswered
  have hgas := Selection.decision_ne_skip isTarget_gasLimitPath
  rw [hdraft, hdenom, hamount, Call.foldl_latest, Option.or_none,
    Node.valuesAt_callsAll hgas .root fields hanswered]
  rfl

theorem Draft.fee?_eq_some_iff {draft : Draft} {fee : Fee} : draft.fee? = some fee ↔
    ∃ denom amount, draft.denom = some denom ∧ draft.amount = some amount ∧
      fee = ⟨denom, amount, draft.gasLimit⟩ := by
  obtain ⟨denom, amount, gasLimit⟩ := draft
  cases denom <;> cases amount <;> simp [Draft.fee?, eq_comm]

/-- A draft of the last message at a path is a fee if both halves are in that message. -/
theorem fee?_eq_some_iff_lastInside? {calls : List Call} {message denomPath amountPath : FieldPath}
    {draft : Draft} {fee : Fee}
    (hdenom : draft.denom =
      (Call.lastPayload? message denomPath calls).map Text.Utf8.decodeLossy)
    (hamount : draft.amount =
      (Call.lastPayload? message amountPath calls).map Text.Utf8.decodeLossy) :
    draft.fee? = some fee ↔ ∃ inside denom amount,
      Call.lastInside? message calls = some inside ∧
      (valuesAt .lengthDelimited denomPath (inside.filterMap Call.received?)).getLast? =
        some denom ∧
      (valuesAt .lengthDelimited amountPath (inside.filterMap Call.received?)).getLast? =
        some amount ∧
      fee = ⟨Text.Utf8.decodeLossy denom, Text.Utf8.decodeLossy amount, draft.gasLimit⟩ := by
  rw [Draft.fee?_eq_some_iff, hdenom, hamount, Call.lastPayload?, Call.lastPayload?]
  cases Call.lastInside? message calls <;> simp

end Fee

/-- **The fee is that of the last coin.**  Take any row of buffers and scan each with any limits,
whether it succeeds or not, under one extractor that starts with an empty draft.  Afterwards the
draft holds the last denomination and the last amount given inside the last coin that the extractor
was asked about.  The gas limit is the last number given as a varint at its path, as it stands in its
buffer.  So there is a fee only if both halves were given inside that coin.  Where there is one
buffer and its scan succeeds, the coin and the gas limit are the last ones in the tree of the
buffer. -/
theorem draft_of_last_coin (buffers : List (Bytes × Limits)) :
    let coin : FieldPath := .ofList [2, 2, 1]
    let gas : FieldPath := .ofList [2, 2, 2]
    let runs := (scanEach Fee.extractor buffers {}).1
    let calls := runs.flatMap Run.calls
    let draft := (scanEach Fee.extractor buffers {}).2
    draft.denom = (Call.lastPayload? coin (coin.child 1) calls).map Text.Utf8.decodeLossy ∧
    draft.amount = (Call.lastPayload? coin (coin.child 2) calls).map Text.Utf8.decodeLossy ∧
    draft.gasLimit.map UInt64.toNat = (varintsEach gas buffers runs).getLast? ∧
    (∀ fee, draft.fee? = some fee ↔ ∃ inside denom amount,
      Call.lastInside? coin calls = some inside ∧
      (valuesAt .lengthDelimited (coin.child 1) (inside.filterMap Call.received?)).getLast? =
        some denom ∧
      (valuesAt .lengthDelimited (coin.child 2) (inside.filterMap Call.received?)).getLast? =
        some amount ∧
      fee = ⟨Text.Utf8.decodeLossy denom, Text.Utf8.decodeLossy amount, draft.gasLimit⟩) ∧
    ∀ bytes limits, buffers = [(bytes, limits)] →
      (scan Fee.extractor bytes {} limits).result = .ok () →
      ∃ fields, Node.decodeAll
          (.opening fun path => [coin.child 1, coin.child 2, gas].any path.isAncestor) .root
          bytes () = some (fields, ()) ∧
        draft.denom =
          (Node.lastPayload? coin (coin.child 1) .root fields).map Text.Utf8.decodeLossy ∧
        draft.amount =
          (Node.lastPayload? coin (coin.child 2) .root fields).map Text.Utf8.decodeLossy ∧
        draft.gasLimit = (Node.varintsAtAll gas .root fields).getLast? := by
  intro coin gas runs calls draft
  have hdraft : draft = _ := Fee.holding_of_nested (nested_scanEach Fee.extractor buffers {})
    (replay_scanEach Fee.extractor buffers {})
  have hdenom : draft.denom = _ := congrArg Fee.Draft.denom hdraft
  have hamount : draft.amount = _ := congrArg Fee.Draft.amount hdraft
  refine ⟨hdenom, hamount, ?gas, fun _ => Fee.fee?_eq_some_iff_lastInside? hdenom hamount, ?tree⟩
  case gas =>
    rw [varintsEach_scanEach, hdraft, Fee.Draft.holding, Option.map_map, List.getLast?_map]
    rfl
  case tree =>
    rintro bytes limits rfl hok
    obtain ⟨fields, hdecode, hanswered, hcalls, hreplay⟩ := exists_opened_of_scan
      Fee.decidesBy_extractor (fun _ => Selection.decision_eq_descend_iff.trans
        (by rw [Fee.selection, Selection.any_isAncestor_ofList])) hok
    have hdraft : draft = _ := Fee.holding_of_answered hanswered hreplay
    refine ⟨_, hdecode, ?_, ?_, ?_⟩
    · rw [Node.lastPayload?_undeliveredAll, hdraft]
      rfl
    · rw [Node.lastPayload?_undeliveredAll, hdraft]
      rfl
    · rw [← Node.words_leavesAll, Node.leavesAll_undeliveredAll, List.getLast?_map, hdraft]
      rfl

/-- Two coins, of which the second lacks the amount, and a gas limit between them: the limit and the
second denomination are held, and no amount.  In the row the second coin breaks off behind its
denomination, and the next buffer has a payload in place of the gas limit.  In the single buffer the
denomination ends in a byte that is no text. -/
theorem draft_of_last_coin_incomplete :
    let coin : FieldPath := .ofList [2, 2, 1]
    let gas : FieldPath := .ofList [2, 2, 2]
    let whole : Bytes := [0x12, 0x14, 0x12, 0x12, 0x0a, 0x06, 0x0a, 0x01, 0x61, 0x12, 0x01, 0x35,
      0x10, 0xc0, 0x9a, 0x0c, 0x0a, 0x04, 0x0a, 0x02, 0x62, 0xff]
    let broken : Bytes := [0x12, 0x14, 0x12, 0x12, 0x0a, 0x06, 0x0a, 0x01, 0x61, 0x12, 0x01, 0x35,
      0x10, 0xc0, 0x9a, 0x0c, 0x0a, 0x04, 0x0a, 0x01, 0x62, 0x0b]
    let row : List (Bytes × Limits) := [(broken, {}), ([0x12, 0x04, 0x12, 0x02, 0x12, 0x00], {})]
    let runs := (scanEach Fee.extractor row {}).1
    ((Call.lastPayload? coin (coin.child 1) (runs.flatMap Run.calls)).map Text.Utf8.decodeLossy =
        some "b" ∧
      (Call.lastPayload? coin (coin.child 2) (runs.flatMap Run.calls)).map Text.Utf8.decodeLossy =
        none ∧
      (varintsEach gas row runs).getLast? = some 200000) ∧
    ∃ fields, Node.decodeAll
        (.opening fun path => [coin.child 1, coin.child 2, gas].any path.isAncestor) .root
        whole () = some (fields, ()) ∧
      (Node.lastPayload? coin (coin.child 1) .root fields).map Text.Utf8.decodeLossy =
        some "b\uFFFD" ∧
      (Node.lastPayload? coin (coin.child 2) .root fields).map Text.Utf8.decodeLossy = none ∧
      (Node.varintsAtAll gas .root fields).getLast? = some 200000 := by
  intro coin gas whole broken row runs
  obtain ⟨hdenom, hamount, hgas, -, -⟩ := draft_of_last_coin row
  obtain ⟨-, -, -, -, htree⟩ := draft_of_last_coin [(whole, {})]
  obtain ⟨fields, hdecode, hlastDenom, hlastAmount, hlastGas⟩ := htree whole {} rfl (by decide +kernel)
  exact ⟨⟨hdenom.symm.trans (by decide +kernel), hamount.symm.trans (by decide +kernel), hgas.symm.trans (by decide +kernel)⟩,
    fields, hdecode, hlastDenom.symm.trans (by decide +kernel), hlastAmount.symm.trans (by decide +kernel),
    hlastGas.symm.trans (by decide +kernel)⟩

end FieldSieve
