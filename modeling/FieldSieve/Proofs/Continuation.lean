import FieldSieve.Proofs.Journal
import FieldSieve.Proofs.Placement

/-!
# Scanning on

What a scan has done is not changed by bytes that come later.  A buffer that is followed by more
bytes is the same buffer in surroundings, so the longer run goes through the same walks
(`Walk.toEnd_followed`), as far as the shorter run comes.  From there it is one of three things:

* the shorter run has used up its buffer.  No frame is open there, nothing but the position, the
  count and the journal tells that anything was read, and the rest is scanned like a buffer of its
  own (`Walk.toEnd_behind`);
* it has broken off for another reason than the end of the buffer: so does the longer run;
* it has missed some bytes.  Then the longer run may go on, but the calls stay
  (`Walk.calls_prefix_of_field`).
-/
namespace FieldSieve

namespace Surroundings

/-- More bytes behind, and nothing in front. -/
def followedBy (rest : Bytes) : Surroundings := ⟨0, rest, 0, #[]⟩

/-- What a walk has behind it. -/
def after {σ : Type} (walk : Walk σ) : Surroundings :=
  ⟨walk.cursor.position, [], walk.visited, walk.journal⟩

end Surroundings

namespace Walk

variable {σ : Type} {P : Policy σ} {walk start last rest : Walk σ} {s : Surroundings} {key : Key}
  {c d : Cursor} {length : Nat} {front behind : Bytes} {state : σ} {limits : Limits} {fault : Fault}

theorem calls_placed :
    (walk.placed s).calls = s.journal.toList.filterMap Event.call? ++ walk.calls := by
  have hsame : Event.call? ∘ Event.shifted s.before = Event.call? :=
    funext fun event => Event.call?_shifted s.before event
  show (s.journal ++ walk.journal.map (Event.shifted s.before)).toList.filterMap Event.call? = _
  rw [Array.toList_append, Array.toList_map, List.filterMap_append, List.filterMap_map, hsame]
  rfl

theorem Sized.placed (s : Surroundings) (h : walk.Sized key length c d) :
    (walk.placed s).Sized key length (c.placed s) (d.placed s) where
  readKey := (Cursor.carries_readKey s).ok h.readKey
  room := h.room
  wireType := h.wireType
  readLength := by
    obtain ⟨word, hword, hlength⟩ := h.readLength
    exact ⟨word, (Cursor.carries_readVarint s).ok hword, hlength⟩

theorem eq_of_parts {a b : Walk σ} (hcursor : a.cursor = b.cursor)
    (hnesting : a.nesting = b.nesting) (hvisited : a.visited = b.visited)
    (hlimits : a.limits = b.limits) (hstate : a.state = b.state)
    (hjournal : a.journal = b.journal) : a = b := by
  obtain ⟨⟨_, _, _, _⟩, _, _⟩ := a
  obtain ⟨⟨_, _, _, _⟩, _, _⟩ := b
  cases hcursor
  cases hnesting
  cases hvisited
  cases hlimits
  cases hstate
  cases hjournal
  rfl

/-- A whole buffer that is followed by more bytes is a longer buffer. -/
theorem placed_fresh : (fresh front state limits).placed (.followedBy behind) =
    fresh (front ++ behind) state limits := by
  apply eq_of_parts
  · exact Cursor.ext rfl rfl
  · rfl
  · rfl
  · rfl
  · rfl
  · show #[] ++ Array.map _ #[] = #[]
    simp

/-- Behind a whole buffer a scan stands as at the start of another one. -/
theorem placed_at_end (hend : walk.cursor.atEnd = true) (hempty : walk.nesting.isEmpty = true) :
    walk.placed (.followedBy behind) =
      (fresh behind walk.state walk.limits).placed (.after walk) := by
  apply eq_of_parts
  · apply Cursor.ext
    · exact (Nat.zero_add _).symm
    · show walk.cursor.unread ++ behind = behind ++ []
      rw [Cursor.atEnd_iff.mp hend, List.append_nil]
      rfl
  · show walk.nesting.shifted 0 = Nesting.empty.shifted _
    have hnone : walk.nesting = .empty := Nesting.ext (Nesting.isEmpty_iff.mp hempty)
    rw [hnone]
    rfl
  · exact Nat.zero_add _
  · rfl
  · rfl
  · show #[] ++ walk.journal.map (Event.shifted 0) = walk.journal ++ Array.map _ #[]
    have hsame : Event.shifted 0 = id := funext Event.shifted_zero
    simp [hsame]

theorem limits_of_field {next : Walk σ} (h : field P walk = .ok () next) :
    next.limits = walk.limits := by
  have houtcome := fieldOutcome P walk
  generalize field P walk = result at houtcome h
  cases houtcome with
  | badKey | tooDeep | noValue | noLength | missing | outside => cases h
  | scalar | skipped | captured | descended =>
    obtain rfl := eq_settle_of_close h
    rfl

theorem limits_of_visits (h : Visits P start walk) : walk.limits = start.limits := by
  induction h with
  | start => rfl
  | field _ _ hfield ih => exact (limits_of_field hfield).trans ih

/-- A run over a longer buffer goes through the walks of the shorter run. -/
theorem toEnd_followed (h : Visits P (fresh front state limits) walk) :
    toEnd P (fresh (front ++ behind) state limits) =
      toEnd P (walk.placed (.followedBy behind)) := by
  rw [← placed_fresh]
  exact (placement P (.followedBy behind)).toEnd_image h

/-- At the end of the shorter buffer it goes on like a run over the bytes behind. -/
theorem toEnd_behind (behind : Bytes) (h : Visits P (fresh front state limits) walk)
    (hend : walk.cursor.atEnd = true) (hempty : walk.nesting.isEmpty = true) :
    toEnd P (fresh (front ++ behind) state limits) =
      toEnd P ((fresh behind walk.state limits).placed (.after walk)) := by
  rw [toEnd_followed h, ← show walk.limits = limits from limits_of_visits h]
  exact congrArg (toEnd P) (placed_at_end hend hempty)

/-- A run that missed some bytes has made no call that the longer run does not make. -/
theorem calls_prefix_of_field (hmore : walk.cursor.atEnd = false)
    (hfield : field P walk = .error .endOfStream rest) :
    rest.calls <+: (stateAfter (toEnd P (walk.placed (.followedBy behind)))).calls := by
  have hkept : walk.calls <+: (stateAfter (toEnd P (walk.placed (.followedBy behind)))).calls := by
    have hprefix := (adds_toEnd P (walk.placed (.followedBy behind))).isPrefix_calls
    rwa [calls_placed] at hprefix
  have houtcome := fieldOutcome P walk
  generalize field P walk = result at houtcome hfield
  cases houtcome with
  | badKey =>
    cases hfield
    exact hkept
  | tooDeep | outside => cases hfield
  | noValue | noLength =>
    cases hfield
    rw [calls_inside]
    exact (List.append_nil walk.calls).symm ▸ hkept
  | missing hsized hanswer =>
    cases hfield
    -- The longer run reads the same length and asks as well, whatever it does with the payload.
    have hasked := calls_prefix_of_sized (hsized.placed (.followedBy behind)) hanswer
    rw [calls_placed] at hasked
    rw [calls_inside]
    exact List.IsPrefix.trans hasked (calls_prefix_toEnd (Cursor.atEnd_placed hmore))
  | scalar | skipped | captured | descended =>
    rw [close_eq] at hfield
    split at hfield <;> cases hfield

end Walk

section Scan

variable {σ : Type} {P : Policy σ} {bytes whole : Bytes} {state between : σ} {limits : Limits}
  {s : Surroundings}

/-- A scan whose run goes on like another scan behind what came before has the calls of that scan
behind those that came before, and fails where that scan fails. -/
theorem scan_of_placed (hwhole : (Scan.ofBytes whole limits).excess? = none)
    (hbytes : (Scan.ofBytes bytes limits).excess? = none) (hbehind : s.behind = [])
    (hrun : Walk.toEnd P (.fresh whole state limits) =
      Walk.toEnd P ((Walk.fresh bytes between limits).placed s)) :
    (scan P whole state limits).calls =
      s.journal.toList.filterMap Event.call? ++ (scan P bytes between limits).calls ∧
    (scan P whole state limits).state = (scan P bytes between limits).state ∧
    (scan P whole state limits).visited = s.visited + (scan P bytes between limits).visited ∧
    (scan P whole state limits).result =
      (scan P bytes between limits).result.mapError (DecodeError.shifted s.before) := by
  rcases scan_cases P bytes between limits hbytes with
    ⟨last, hvisits, hend, -, hempty, hscan⟩ | ⟨last, fault, rest, hvisits, hmore, hfield, hscan⟩
  · have hlast : Walk.toEnd P (.fresh whole state limits) = .ok () (last.placed s) := by
      rw [hrun]
      exact ((Walk.placement P s).toEnd_image hvisits).trans
        (Walk.toEnd_of_atEnd (Cursor.atEnd_placed_of_nil hbehind hend))
    rw [hscan, scan_of_toEnd_ok hwhole hlast hempty]
    refine ⟨?_, rfl, rfl, rfl⟩
    rw [calls_completed, calls_completed]
    exact Walk.calls_placed
  · have hbroken : Walk.toEnd P (.fresh whole state limits) =
        Walk.broken (last.cursor.position + s.before) fault (rest.placed s) := by
      rw [hrun]
      exact (Walk.placement P s).toEnd_image_of_error hvisits hmore hfield fun h => h.2 hbehind
    rw [hscan, scan_of_toEnd_broken hwhole hbroken]
    refine ⟨?_, rfl, rfl, rfl⟩
    rw [calls_broken, calls_broken]
    exact Walk.calls_placed

/-- A buffer that can be scanned leaves a walk behind, from which a scan of more bytes goes on like
a scan of these alone. -/
theorem exists_toEnd_append {maxDepth : Option Nat}
    (hok : (scan P bytes state { maxDepth }).result = .ok ()) :
    ∃ last : Walk σ, (scan P bytes state { maxDepth }).calls = last.calls ∧
      (scan P bytes state { maxDepth }).state = last.state ∧
      (scan P bytes state { maxDepth }).visited = last.visited ∧
      last.cursor.position = bytes.length ∧
      ∀ behind, Walk.toEnd P (.fresh (bytes ++ behind) state { maxDepth }) =
        Walk.toEnd P ((Walk.fresh behind last.state { maxDepth }).placed (.after last)) := by
  rcases scan_cases P bytes state { maxDepth } rfl with
    ⟨last, hvisits, hend, hposition, hempty, hscan⟩ | ⟨last, fault, rest, -, -, -, hscan⟩
  · refine ⟨last, ?_, ?_, ?_, hposition, fun behind => Walk.toEnd_behind behind hvisits hend hempty⟩
    · rw [hscan, calls_completed]
    · rw [hscan]
      rfl
    · rw [hscan]
      rfl
  · rw [hscan] at hok
    cases hok

end Scan

variable {σ : Type}

/-- **Two buffers in a row are scanned one after the other.**  If the first buffer can be scanned, a
scan of both makes the calls of the first scan and then those of a scan of the second buffer that
starts in the state left by the first.  It ends as that scan does, and an error of it lies further
on by the length of the first buffer. -/
theorem scan_append (P : Policy σ) (front behind : Bytes) (state between : σ)
    (maxDepth : Option Nat) (hok : (scan P front state { maxDepth }).result = .ok ())
    (hbetween : (scan P front state { maxDepth }).state = between) :
    (scan P (front ++ behind) state { maxDepth }).calls =
      (scan P front state { maxDepth }).calls ++ (scan P behind between { maxDepth }).calls ∧
    (scan P (front ++ behind) state { maxDepth }).state =
      (scan P behind between { maxDepth }).state ∧
    (scan P (front ++ behind) state { maxDepth }).visited =
      (scan P front state { maxDepth }).visited + (scan P behind between { maxDepth }).visited ∧
    (scan P (front ++ behind) state { maxDepth }).result =
      (scan P behind between { maxDepth }).result.mapError fun error =>
        { error with offset := error.offset + front.length } := by
  obtain ⟨last, hcalls, hstate, hvisited, hposition, hrun⟩ := exists_toEnd_append hok
  obtain rfl : last.state = between := hstate.symm.trans hbetween
  rw [hcalls, hvisited, ← hposition]
  exact scan_of_placed rfl rfl rfl (hrun behind)

/-- A message that can be scanned, and behind it one that a number runs out of. -/
theorem scan_append_overrun :
    (scan .countValues [0x0a, 0x02, 0x10, 0x05, 0x0a, 0x02, 0x10, 0x96, 0x01] 0
      { maxDepth := some 2 }).result = .error (Fault.messageOverrun.located 6 "1") ∧
    (scan .countValues [0x0a, 0x02, 0x10, 0x05, 0x0a, 0x02, 0x10, 0x96, 0x01] 0
      { maxDepth := some 2 }).visited = 4 := by
  have hfront : (scan .countValues [0x0a, 0x02, 0x10, 0x05] 0 { maxDepth := some 2 }).result =
        .ok () ∧
      (scan .countValues [0x0a, 0x02, 0x10, 0x05] 0 { maxDepth := some 2 }).state = 1 ∧
      (scan .countValues [0x0a, 0x02, 0x10, 0x05] 0 { maxDepth := some 2 }).visited = 2 := by
    rw [scan_of_toEnd rfl, Walk.toEnd_of_ok rfl rfl, Walk.toEnd_of_ok rfl rfl,
      Walk.toEnd_of_atEnd rfl]
    exact ⟨rfl, rfl, rfl⟩
  have hbehind : (scan .countValues [0x0a, 0x02, 0x10, 0x96, 0x01] 1
        { maxDepth := some 2 }).result = .error (Fault.messageOverrun.located 2 "1") ∧
      (scan .countValues [0x0a, 0x02, 0x10, 0x96, 0x01] 1 { maxDepth := some 2 }).visited = 2 := by
    rw [scan_of_toEnd rfl, Walk.toEnd_of_ok rfl rfl, Walk.toEnd_of_error rfl rfl]
    exact ⟨rfl, rfl⟩
  obtain ⟨-, -, hvisited, hresult⟩ := scan_append .countValues [0x0a, 0x02, 0x10, 0x05]
    [0x0a, 0x02, 0x10, 0x96, 0x01] 0 1 (some 2) hfront.1 hfront.2.1
  rw [hbehind.1] at hresult
  rw [hfront.2.2, hbehind.2] at hvisited
  exact ⟨hresult, hvisited⟩

/-- **Only missing bytes can be made good by more bytes.**  If a scan fails for any other reason, it
fails with the same error and after the same calls whatever stands behind its buffer.  If it fails
for want of bytes, a scan of the longer buffer begins with the calls that it made. -/
theorem scan_append_of_failed (P : Policy σ) (front behind : Bytes) (state : σ)
    (maxDepth : Option Nat) (error : DecodeError)
    (hfailed : (scan P front state { maxDepth }).result = .error error) :
    (error.fault ≠ .endOfStream →
      (scan P (front ++ behind) state { maxDepth }).result = .error error ∧
      (scan P (front ++ behind) state { maxDepth }).calls =
        (scan P front state { maxDepth }).calls) ∧
    (error.fault = .endOfStream →
      (scan P front state { maxDepth }).calls <+:
        (scan P (front ++ behind) state { maxDepth }).calls) := by
  rcases scan_cases P front state { maxDepth } rfl with
    ⟨last, -, -, -, -, hfront⟩ | ⟨last, fault, rest, hvisits, hmore, hfield, hfront⟩
  · rw [hfront] at hfailed
    cases hfailed
  · have hcalls : (scan P front state { maxDepth }).calls = rest.calls := by
      rw [hfront]
      exact Walk.calls_record rfl
    rw [hcalls]
    rw [hfront] at hfailed
    cases hfailed
    refine ⟨?_, ?_⟩
    · intro hfault
      have hbroken : Walk.toEnd P (.fresh (front ++ behind) state { maxDepth }) =
          Walk.broken last.cursor.position fault (rest.placed (.followedBy behind)) := by
        rw [← Walk.placed_fresh]
        exact (Walk.placement P (.followedBy behind)).toEnd_image_of_error hvisits hmore hfield
          fun h => hfault h.1
      rw [scan_of_toEnd_error rfl hbroken]
      refine ⟨rfl, ?_⟩
      show Walk.calls (Walk.record _ _) = _
      rw [Walk.calls_record rfl, Walk.calls_placed]
      rfl
    · intro hfault
      obtain rfl : fault = .endOfStream := hfault
      rw [calls_scan rfl, Walk.toEnd_followed hvisits]
      exact Walk.calls_prefix_of_field hmore hfield

/-- A number that runs out of its message stays an error.  A message of which a byte is missing is
read when the byte comes, and the question about it stays. -/
theorem scan_append_of_failed_overrun_missing :
    (scan .countValues [0x0a, 0x02, 0x10, 0x96, 0x01, 0x08] 0).result =
      .error (Fault.messageOverrun.located 2 "1") ∧
    [.delivered .fixed32 1 [0x01, 0x00, 0x00, 0x00] (.ofList [1]), .asked 1 .root .descend] <+:
      (scan .countValues [0x0d, 0x01, 0x00, 0x00, 0x00, 0x0a, 0x02, 0x10, 0x05] 0).calls := by
  have hoverrun : (scan .countValues [0x0a, 0x02, 0x10, 0x96, 0x01] 0).result =
      .error (Fault.messageOverrun.located 2 "1") := by
    rw [scan_of_toEnd rfl, Walk.toEnd_of_ok rfl rfl, Walk.toEnd_of_error rfl rfl]
    rfl
  have hmissing : (scan .countValues [0x0d, 0x01, 0x00, 0x00, 0x00, 0x0a, 0x02, 0x10] 0).result =
        .error (Fault.endOfStream.located 5 "1") ∧
      (scan .countValues [0x0d, 0x01, 0x00, 0x00, 0x00, 0x0a, 0x02, 0x10] 0).calls =
        [.delivered .fixed32 1 [0x01, 0x00, 0x00, 0x00] (.ofList [1]),
          .asked 1 .root .descend] := by
    rw [scan_of_toEnd rfl, Walk.toEnd_of_ok rfl rfl, Walk.toEnd_of_error rfl rfl]
    exact ⟨rfl, rfl⟩
  have hlonger := scan_append_of_failed .countValues _ [0x05] 0 none _ hmissing.1
  rw [← hmissing.2]
  exact ⟨((scan_append_of_failed .countValues _ [0x08] 0 none _ hoverrun).1 (by decide)).1,
    hlonger.2 rfl⟩

end FieldSieve
