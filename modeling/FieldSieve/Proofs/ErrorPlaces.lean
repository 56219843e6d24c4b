import FieldSieve.Proofs.Overruns

/-!
# Where an error strikes

An error is given a place when it leaves the scan: the offset at which the field began, and the path
of the frames that are open by then.  That the offset is the field's key is clear from the loop.
The path takes more: which frames are open depends on how far the reading of the field has come.

Before the field all messages around the key are open, and no other frame is
(`Walk.Located.path_eq`).  A key that cannot be read leaves it at that.  Behind the key the field's
own frame is open too, and it stays open for a payload that cannot be entered.  Otherwise it is
closed when the field has been read, so a field that is found to end behind its message is no longer
named in the path: the path ends with the message (`Walk.ErrorOutcome`).  What is in the path can be
read back from its text (`FieldPath.read_text`).
-/
namespace FieldSieve

/-- The run breaks off with an overrun at a field that was not to be entered, and so was read to its
end. -/
def Run.ReadsPast {σ : Type} (run : Run σ) : Prop :=
  ∃ field, run.BreaksOffAt field .messageOverrun ∧
    ∀ number parent, .asked number parent .descend ∉ field.calls

namespace Walk

variable {σ : Type} {P : Policy σ} {walk rest closing : Walk σ} {key : Key} {c : Cursor}
  {fault : Fault} {stops : List Nat} {events : List Event}

/-- How far the reading of a field comes that cannot be read, and which path is open there. -/
inductive ErrorOutcome (P : Policy σ) (walk : Walk σ) (fault : Fault) (path : FieldPath) : Prop
  | atKey {c : Cursor} (h : Cursor.readKey walk.cursor = .error fault c)
      (hpath : path = walk.nesting.path)
  | inField {key : Key} {c : Cursor} (h : Cursor.readKey walk.cursor = .ok key c)
      (hpath : path = walk.nesting.path.child key.number)
      (hentered : fault = .messageOverrun →
        .asked key.number walk.nesting.path .descend ∈ (walk.upcoming P key).calls)
  | behindField {key : Key} {c : Cursor} (h : Cursor.readKey walk.cursor = .ok key c)
      (hpath : path = walk.nesting.path) (hfault : fault = .messageOverrun)
      (hentered : ∀ number parent,
        .asked number parent .descend ∉ (walk.upcoming P key).calls)

/-- A field that was read and cannot be closed has no frame of its own. -/
theorem errorOutcome_of_close (hkey : Cursor.readKey walk.cursor = .ok key c)
    (hfield : field P walk = close closing) (hstops : closing.Stops stops)
    (hpath : closing.nesting.path = walk.nesting.path)
    (hjournal : closing.journal = walk.journal ++ events)
    (hentered : ∀ number parent, .asked number parent .descend ∉ events.filterMap Event.call?)
    (hclose : close closing = .error fault rest) :
    ErrorOutcome P walk fault rest.nesting.path := by
  obtain ⟨rfl, rfl⟩ := eq_of_close_error hstops hclose
  have hevents : (stateAfter (field P walk)).journal = walk.journal ++ events := by
    rw [hfield, journal_close, hjournal]
  refine .behindField hkey hpath rfl ?_
  rw [calls_upcoming_of_journal hevents]
  exact hentered

theorem errorOutcome (hstops : walk.Stops stops) (hfield : field P walk = .error fault rest) :
    ErrorOutcome P walk fault rest.nesting.path := by
  have houtcome := fieldOutcome P walk
  obtain ⟨result, hresult⟩ : ∃ result, field P walk = result := ⟨_, rfl⟩
  rw [hresult] at houtcome hfield
  cases houtcome with
  | badKey hbad =>
    cases hfield
    exact .atKey hbad rfl
  | tooDeep hkey =>
    cases hfield
    exact .inField hkey rfl nofun
  | noValue hkeyed | noLength hkeyed =>
    cases hfield
    exact .inField hkeyed.readKey rfl nofun
  | missing hsized =>
    cases hfield
    exact .inField hsized.readKey rfl nofun
  | outside hsized =>
    cases hfield
    refine .inField hsized.readKey rfl fun _ => ?_
    rw [calls_upcoming_of_journal (congrArg (fun result => (stateAfter result).journal) hresult)]
    simp [keyEvent, askedEvent, Event.call?]
  | scalar hkeyed hread =>
    obtain ⟨front, hfront⟩ := hkeyed.passes
    obtain ⟨behind, -, hbehind⟩ := Item.readBehind_eq_ok_iff.mp hread
    exact errorOutcome_of_close hkeyed.readKey hresult (hstops.past (hfront.trans hbehind)) rfl rfl
      (by simp [keyEvent, deliveryEvent, Event.call?]) hfield
  | skipped hsized _ hthere =>
    obtain ⟨front, hfront⟩ := hsized.passes
    exact errorOutcome_of_close hsized.readKey hresult (hstops.past (hfront.trans hthere)) rfl rfl
      (by simp [keyEvent, askedEvent, Event.call?]) hfield
  | captured hsized _ hthere =>
    obtain ⟨front, hfront⟩ := hsized.passes
    exact errorOutcome_of_close hsized.readKey hresult (hstops.past (hfront.trans hthere)) rfl rfl
      (by simp [keyEvent, askedEvent, deliveryEvent, Event.call?]) hfield
  | descended hsized _ hthere hinside =>
    obtain ⟨front, hpasses⟩ := hsized.passes
    cases (close_opened (hstops.past hpasses) (hstops.le_of_innermostEnd? hinside)
      (Nat.add_le_add_left hthere _) (Nat.le_add_right ..)).symm.trans hfield

end Walk

/-- **Errors are where they say.**  If a scan fails, and not because its buffer is too long, then the
error's offset is in the buffer and is that of the key of the field that could not be read.  The
error's path text stands for the numbers of the messages that hold the offset, outermost first, and
behind them for the number in the key at the offset.  Where no key can be read there, or where the
field was read and found to end behind its message, the text stands for the messages alone. -/
theorem scan_error_located {σ : Type} (P : Policy σ) (bytes : Bytes) (state : σ)
    (maxDepth : Option Nat) {error : DecodeError}
    (h : (scan P bytes state { maxDepth }).result = .error error) :
    error.offset < bytes.length ∧
    (∃ walk rest, Walk.Visits P (.fresh bytes state { maxDepth }) walk ∧
      walk.cursor.position = error.offset ∧ Walk.field P walk = .error error.fault rest) ∧
    ((scan P bytes state { maxDepth }).messagesAt error.offset).Pairwise (fun outer inner =>
      outer.start < inner.start ∧ inner.stop ≤ outer.stop) ∧
    (∀ key, bytes.keyAt? error.offset = some key → ¬ (scan P bytes state { maxDepth }).ReadsPast →
      FieldPath.read error.path = .ok (.ofList
        (((scan P bytes state { maxDepth }).messagesAt error.offset).map (·.number) ++
          [key.number]))) ∧
    (bytes.keyAt? error.offset = none ∨ (scan P bytes state { maxDepth }).ReadsPast →
      FieldPath.read error.path = .ok (.ofList
        (((scan P bytes state { maxDepth }).messagesAt error.offset).map (·.number)))) := by
  rcases scan_cases P bytes state { maxDepth } rfl with
    ⟨last, -, -, -, -, hscan⟩ | ⟨last, fault, rest, hvisits, hmore, hfield, hscan⟩
  · rw [hscan] at h
    cases h
  · have herror : error = fault.located last.cursor.position rest.nesting.path.text := by
      rw [hscan] at h
      cases h
      rfl
    subst herror
    obtain ⟨stops, hstops, -, hsize⟩ :=
      Walk.ahead_of_visits (Walk.ahead_fresh bytes state _) hvisits
    have hin : last.cursor.In bytes := Walk.in_of_visits hvisits
    have hlocated := Walk.located_of_visits hvisits
    have hmessages := messagesAt_scan rfl hvisits hmore
    -- When the field begins, the frames are the messages around its key.
    have hnumbers : .ofList (((scan P bytes state { maxDepth }).messagesAt last.cursor.position).map
        (·.number)) = last.nesting.path := by
      rw [hmessages, ← hlocated.path_eq, FieldPath.ofList_toList]
    have hown : ∀ number, .ofList
        (((scan P bytes state { maxDepth }).messagesAt last.cursor.position).map (·.number) ++
          [number]) = last.nesting.path.child number := by
      intro number
      apply FieldPath.ext
      rw [FieldPath.toList_child, ← hnumbers, FieldPath.toList_ofList, FieldPath.toList_ofList]
    have hbreaks : ∀ {key : Key} {c : Cursor}, Cursor.readKey last.cursor = .ok key c →
        (scan P bytes state { maxDepth }).BreaksOffAt (last.upcoming P key) fault :=
      fun hkey => breaksOffAt_of_error rfl hvisits hmore hkey hfield
    have houtcome := Walk.errorOutcome hstops hfield
    refine ⟨?_, ⟨last, rest, hvisits, rfl, hfield⟩, hmessages ▸ hlocated.nested hstops, ?_, ?_⟩
    · have hleft : last.cursor.remaining ≠ 0 := by simpa [Cursor.atEnd] using hmore
      show last.cursor.position < bytes.length
      rw [← hsize, Cursor.size]
      omega
    · intro key hkey hnot
      show FieldPath.read rest.nesting.path.text = _
      rw [FieldPath.read_text]
      cases houtcome with
      | atKey hbad => cases hkey.symm.trans (Bytes.keyAt?_of_error hin hbad)
      | inField hread hpath =>
        cases hkey.symm.trans (Bytes.keyAt?_of_readKey hin hread)
        rw [hpath]
        exact congrArg _ (hown key.number).symm
      | behindField hread _ hfault hentered =>
        exact absurd ⟨_, hfault ▸ hbreaks hread, hentered⟩ hnot
    · intro hnone
      show FieldPath.read rest.nesting.path.text = _
      rw [FieldPath.read_text]
      cases houtcome with
      | atKey _ hpath | behindField _ hpath =>
        rw [hpath]
        exact congrArg _ hnumbers.symm
      | inField hread _ hentered =>
        rcases hnone with hnone | ⟨field, ⟨hlast, error, hresult, -, hfault⟩, hnot⟩
        · cases hnone.symm.trans (Bytes.keyAt?_of_readKey hin hread)
        · cases (hbreaks hread).1.symm.trans hlast
          cases hresult.symm.trans h
          exact absurd (hentered hfault) (hnot _ _)

/-- A payload that is cut off inside a message. -/
theorem scan_error_located_in_message :
    (scan .countValues [0x0a, 0x03, 0x12, 0x05, 0x00] 0 { maxDepth := some 2 }).result =
      .error (Fault.endOfStream.located 2 "1:2") ∧
    FieldPath.read "1:2" = .ok (.ofList [1, 2]) := by
  have hresult : (scan .countValues [0x0a, 0x03, 0x12, 0x05, 0x00] 0 { maxDepth := some 2 }).result =
      .error (Fault.endOfStream.located 2 "1:2") := by
    rw [scan_of_toEnd rfl, Walk.toEnd_of_ok rfl rfl, Walk.toEnd_of_error rfl rfl]
    rfl
  have hmessages : (scan .countValues [0x0a, 0x03, 0x12, 0x05, 0x00] 0
      { maxDepth := some 2 }).messages = [⟨1, 2, 5⟩, ⟨2, 4, 9⟩] := by
    rw [scan_of_toEnd rfl, Walk.toEnd_of_ok rfl rfl, Walk.toEnd_of_error rfl rfl]
    rfl
  obtain ⟨-, -, -, hpath, -⟩ := scan_error_located .countValues [0x0a, 0x03, 0x12, 0x05, 0x00] 0
    (some 2) hresult
  refine ⟨hresult, (hpath ⟨.lengthDelimited, 2⟩ rfl ?_).trans ?_⟩
  · rintro ⟨field, ⟨-, error, herror, -, hfault⟩, -⟩
    cases hresult.symm.trans herror
    cases hfault
  · rw [Run.messagesAt, hmessages]
    rfl

end FieldSieve
