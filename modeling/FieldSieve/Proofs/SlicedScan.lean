import FieldSieve.Proofs.Crossing

/-!
# Scanning and slicing agree

Two ways to read a message under a policy: the scan, which walks the whole buffer with ends on a
list, and the reading of each message from its own bytes (`Node.decodeAll`), which compares no
position with any end.  They accept the same buffers, and where they do, they make the same calls on
the policy and leave it in the same state.

Neither is compared with the other.  Both accept what the grammar allows and the policy agrees to
(`Node.Spells`), and the calls stand in the tree.
-/
namespace FieldSieve

namespace Walk

variable {σ : Type} {bytes : Bytes} {state : σ} {limits : Limits}

theorem within_fresh : (fresh bytes state limits).Within bytes [] [] where
  ends := rfl
  sorted := .nil
  inBuffer := by simp
  unread := by
    rw [List.append_nil]
    exact Cursor.unread_ofBytes bytes
  finish := .inl ⟨rfl, rfl⟩

theorem settle_fresh : (fresh bytes state limits).settle = fresh bytes state limits :=
  settle_of_lt within_fresh.toStops (by simp)

end Walk

open Node

variable {σ : Type} {P : Policy σ} {bytes : Bytes} {state last : σ} {limits : Limits}
  {fields : List Node} {events : List Event}

/-- A scan of fields as they stand succeeds, if the policy gives the answers that made them these
and nothing exceeds a limit. -/
theorem scan_of_spells (h : Spells 0 .root fields bytes events)
    (hlength : (Scan.ofBytes bytes limits).excess? = none)
    (hroom : (Walk.fresh bytes state limits).Allows (heightAll fields))
    (hreplay : P.replay (callsAll .root fields) state = some last) :
    ∃ cursor, cursor.atEnd = true ∧ scan P bytes state limits =
      ⟨.ok (), ⟨cursor, .empty, countAll fields, limits⟩, last,
        events ++ [.completed bytes.length (countAll fields)]⟩ := by
  have hcrosses : (Walk.fresh bytes state limits).Crosses P bytes last (countAll fields) events :=
    Walk.crosses_of_spells h Walk.within_fresh rfl rfl hroom hreplay
  obtain ⟨d, hpasses, hrun⟩ := hcrosses
  have hend : d.atEnd = true := by
    rw [Cursor.atEnd_iff]
    exact List.append_cancel_left (hpasses.unread.symm.trans (List.append_nil bytes).symm)
  have hbehind :
      Walk.toEnd P ((Walk.fresh bytes state limits).past d last (countAll fields) events).settle =
        .ok () ((Walk.fresh bytes state limits).past d last (countAll fields) events) := by
    rw [Walk.settle_of_lt (Walk.within_fresh.toStops.past hpasses) (by simp)]
    exact Walk.toEnd_of_atEnd hend
  have hsize : d.size = bytes.length := hpasses.size_eq.trans (Cursor.size_ofBytes bytes)
  refine ⟨d, hend, ?_⟩
  rw [Walk.settle_fresh, hbehind] at hrun
  rw [scan_of_toEnd hlength, hrun]
  refine (congrArg Run.ofResult (if_pos rfl)).trans ?_
  simp [Run.ofResult, Walk.record, Walk.past, Walk.fresh, Scan.ofBytes, hsize]

/-- A scan that succeeds has gone over fields as they stand, to which the policy agreed. -/
theorem spelled_of_scan (h : (scan P bytes state limits).result = .ok ()) :
    (Scan.ofBytes bytes limits).excess? = none ∧
      (Walk.fresh bytes state limits).Spelled P bytes := by
  cases hexcess : (Scan.ofBytes bytes limits).excess? with
  | some fault =>
    rw [scan_of_excess hexcess] at h
    cases h
  | none =>
    rw [scan_of_toEnd hexcess] at h
    refine ⟨rfl, ?_⟩
    cases hrun : Walk.toEnd P (.fresh bytes state limits) with
    | error error rest =>
      rw [hrun] at h
      cases h
    | ok done final =>
      rw [← Walk.settle_fresh] at hrun
      exact Walk.spelled_of_toEnd Walk.within_fresh (fun _ _ => Nat.zero_le _) hrun

/-- Such a scan visits the fields of the tree, makes the calls of a walk over it, and leaves the
policy where they lead. -/
theorem scan_eq_of_spells (h : Spells 0 .root fields bytes events)
    (hlength : (Scan.ofBytes bytes limits).excess? = none)
    (hroom : (Walk.fresh bytes state limits).Allows (heightAll fields))
    (hreplay : P.replay (callsAll .root fields) state = some last) :
    (scan P bytes state limits).result = .ok () ∧ (scan P bytes state limits).state = last ∧
      (scan P bytes state limits).calls = callsAll .root fields ∧
      (scan P bytes state limits).visited = countAll fields := by
  obtain ⟨cursor, -, hrun⟩ := scan_of_spells h hlength hroom hreplay
  rw [hrun]
  refine ⟨rfl, rfl, ?_, rfl⟩
  rw [Run.calls, List.filterMap_append, h.calls]
  exact List.append_nil _

/-- What can be read message by message can be scanned, with the calls of a walk over the tree. -/
theorem scan_of_decodeAll (h : decodeAll P .root bytes state = some (fields, last)) :
    (scan P bytes state).result = .ok () ∧ (scan P bytes state).state = last ∧
      (scan P bytes state).calls = callsAll .root fields ∧
      (scan P bytes state).visited = countAll fields := by
  obtain ⟨events, hspells, hreplay⟩ := spells_of_decodeAll h 0
  have hroom : (Walk.fresh bytes state {}).Allows (heightAll fields) := by
    rintro limit ⟨⟩
  exact scan_eq_of_spells hspells rfl hroom hreplay

/-- A recorded policy reads the same tree, and keeps the calls of a walk over it. -/
theorem decodeAll_recorded {path : FieldPath} {log : Array Call} :
    decodeAll P.recorded path bytes (state, log) = (decodeAll P path bytes state).map
      fun result => (result.1, result.2, log ++ callsAll path result.1) := by
  cases hdecode : decodeAll P path bytes state with
  | some result =>
    obtain ⟨fields, last⟩ := result
    obtain ⟨events, hspells, hreplay⟩ := spells_of_decodeAll hdecode 0
    apply decodeAll_of_spells hspells
    rw [Policy.replay_recorded, hreplay]
    rfl
  | none =>
    cases hrecorded : decodeAll P.recorded path bytes (state, log) with
    | none => rfl
    | some result =>
      -- What the recorded policy agreed to, the policy itself would have agreed to.
      obtain ⟨fields, last⟩ := result
      obtain ⟨events, hspells, hreplay⟩ := spells_of_decodeAll hrecorded 0
      rw [Policy.replay_recorded] at hreplay
      obtain ⟨last, hreplay, -⟩ := Option.map_eq_some_iff.mp hreplay
      cases hdecode.symm.trans (decodeAll_of_spells hspells hreplay)

/-- The calls of that walk are the ones that the policy receives, from either side. -/
theorem recorded_of_decodeAll (h : decodeAll P .root bytes state = some (fields, last)) :
    decodeAll P.recorded .root bytes (state, #[]) =
        some (fields, last, (callsAll .root fields).toArray) ∧
      (scan P.recorded bytes (state, #[])).state = (last, (callsAll .root fields).toArray) := by
  have hrecorded : decodeAll P.recorded .root bytes (state, #[]) =
      some (fields, last, (callsAll .root fields).toArray) := by
    rw [decodeAll_recorded, h]
    simp
  exact ⟨hrecorded, (scan_of_decodeAll hrecorded).2.1⟩

/-- **Scanning a buffer is reading it message by message.**  A scan without limits succeeds exactly
where every message can be read from its own bytes.  Then the two make the same calls, in the order
of a walk over the tree, and leave the policy in the same state. -/
theorem scan_eq_decodeAll {σ : Type} (P : Policy σ) (bytes : Bytes) (state : σ) :
    ((scan P bytes state).result = .ok () ↔ (decodeAll P .root bytes state).isSome = true) ∧
    ∀ fields last, decodeAll P .root bytes state = some (fields, last) →
      (scan P bytes state).state = last ∧
      (scan P bytes state).calls = callsAll .root fields ∧
      (scan P.recorded bytes (state, #[])).state = (last, (callsAll .root fields).toArray) ∧
      decodeAll P.recorded .root bytes (state, #[]) =
        some (fields, last, (callsAll .root fields).toArray) := by
  refine ⟨⟨?_, ?_⟩, ?_⟩
  · intro hok
    obtain ⟨-, fields, events, last, hspells, hreplay, -⟩ := spelled_of_scan hok
    have hdecode : decodeAll P .root bytes state = some (fields, last) :=
      decodeAll_of_spells hspells hreplay
    rw [hdecode]
    rfl
  · intro hsome
    obtain ⟨⟨fields, last⟩, hdecode⟩ := Option.isSome_iff_exists.mp hsome
    exact (scan_of_decodeAll hdecode).1
  · intro fields last hdecode
    obtain ⟨-, hstate, hcalls, -⟩ := scan_of_decodeAll hdecode
    obtain ⟨hrecorded, hscan⟩ := recorded_of_decodeAll hdecode
    exact ⟨hstate, hcalls, hscan, hrecorded⟩

end FieldSieve
