import FieldSieve.Proofs.Framing

/-!
# Messages in messages

A message can be wrapped, as the payload of a single field of another message.  To enter that field
is to scan the message itself: the same calls, one level deeper, and the same end, further on by the
field's key and length.

That takes two steps.  Reading the one field opens a frame that ends with the buffer
(`Walk.toEnd_payload`), and in such a frame a message is read as on its own (`Walk.visits_below`).
It stands behind its key and length as in surroundings (`Walk.placed`).
-/
namespace FieldSieve

/-- The key and the length in front of a payload. -/
def Message.head (number : UInt64) (length : Nat) : Bytes :=
  Key.encode 2 number ++ Varint.encode (UInt64.ofNat length)

theorem Message.payload_eq_head (number : UInt64) (value : Bytes) :
    payload number value = head number value.length ++ value := rfl

namespace FieldPath

/-- Path text with a number in front. -/
def textBelow (number : UInt64) (text : String) : String :=
  if text = "" then number.toNat.repr
  else number.toNat.repr ++ String.singleton separator ++ text

theorem text_below (number : UInt64) (path : FieldPath) :
    (path.below number).text = textBelow number path.text := by
  rw [textBelow, text, toList_below, List.map_cons]
  by_cases hpath : path.toList = []
  · have hroot : path.text = "" := by
      rw [text, hpath]
      rfl
    rw [if_pos hroot, hpath, List.map_nil, String.intercalate_singleton]
  · rw [if_neg (text_ne_empty hpath), String.intercalate_cons_of_ne_nil (by simpa using hpath)]
    rfl

end FieldPath

/-- The same error inside the message with a number. -/
def DecodeError.below (number : UInt64) (error : DecodeError) : DecodeError :=
  error.fault.deeper.located error.offset (FieldPath.textBelow number error.path)

/-- What stands in front of a payload whose field comes first and is entered. -/
def Surroundings.head (number : UInt64) (length : Nat) : Surroundings where
  before := (Message.head number length).length
  behind := []
  visited := 1
  journal := #[.keyRead 0 ⟨.lengthDelimited, number⟩ (FieldPath.root.child number),
    .asked number .root (Message.head number length).length length .descend]

namespace Walk

variable {σ : Type} {P : Policy σ} {number : UInt64} {inner : Bytes} {state next : σ}
  {limits : Limits}

/-- Behind the key and the length of a field that comes first, its message lies ahead as on its
own, in a frame that ends with the buffer. -/
theorem opened_eq_placed {d : Cursor}
    (hposition : d.position = (Message.head number inner.length).length)
    (hrest : d.unread = inner) :
    ((fresh (Message.payload number inner) state limits.deeper).past d next 1
      [.keyRead 0 ⟨.lengthDelimited, number⟩ (FieldPath.root.child number),
        .asked number .root d.position inner.length .descend]).opened number
        (d.position + inner.length) =
      ((fresh inner next limits).below number inner.length).placed (.head number inner.length) := by
  apply eq_of_parts
  · apply Cursor.ext
    · exact hposition.trans (Nat.zero_add _).symm
    · exact hrest.trans (List.append_nil inner).symm
  · rw [hposition, Nat.add_comm]
    rfl
  · rfl
  · rfl
  · rfl
  · rw [hposition]
    exact Array.ext' (by simp [opened, past, placed, below, fresh, Surroundings.head])

/-- The question about the field is the first call, and then come those about what is in it. -/
theorem calls_wrapped (walk : Walk σ) (length : Nat) :
    ((walk.below number length).placed (.head number length)).calls =
      .asked number .root .descend :: walk.calls.map (Call.below number) := by
  rw [calls_placed, calls_below]
  rfl

/-- To enter a field that comes first is to stand in a frame that ends with the buffer. -/
theorem toEnd_payload (limits : Limits) (hnumber : number.toNat < 2 ^ 61)
    (hlength : inner.length < 2 ^ 64)
    (hanswer : P.answer number .root state = (.descend, next)) :
    toEnd P (fresh (Message.payload number inner) state limits.deeper) =
      toEnd P (((fresh inner next limits).below number inner.length).settle.placed
        (.head number inner.length)) := by
  have hwritten := Item.written_payload hnumber hlength
  obtain ⟨d, hpasses, hrest⟩ := Cursor.exists_passes
    (show (fresh (Message.payload number inner) state limits.deeper).cursor.unread =
      Message.head number inner.length ++ inner from Message.payload_eq_head ..)
  have hroom : (fresh (Message.payload number inner) state limits.deeper).Allows 1 := by
    intro limit hlimit
    obtain ⟨outer, -, rfl⟩ := Option.map_eq_some_iff.mp hlimit
    exact Nat.add_le_add_right (Nat.zero_le outer) 1
  obtain ⟨c, hsized⟩ := sized_of_written hwritten hpasses hroom
  have hthere : inner.length ≤ d.remaining :=
    Nat.le_of_eq ((congrArg List.length hrest).symm.trans d.unread_length)
  have hposition : d.position = (Message.head number inner.length).length :=
    hpasses.position.trans (Nat.zero_add _)
  have hfield := field_descended hsized hanswer hthere nofun
  have hstops : (fresh (Message.payload number inner) state limits.deeper).Stops [] :=
    ⟨rfl, .nil, nofun⟩
  have hmore : (fresh (Message.payload number inner) state limits.deeper).cursor.atEnd = false := by
    rw [← Bool.not_eq_true, Cursor.atEnd_iff]
    exact Message.payload_ne_nil number inner
  have hopened := hfield.trans (close_of_le
    ((hstops.past hpasses).opened nofun (Nat.add_le_add_left hthere _))
    (List.forall_mem_singleton.mpr (Nat.le_add_right ..)))
  rw [toEnd_of_ok hmore hopened, ← settle_placed, ← opened_eq_placed hposition hrest]
  rfl

/-- What the message is scanned through on its own, the scan of the field goes through in there. -/
theorem toEnd_payload_of_visits {last : Walk σ} (hnumber : number.toNat < 2 ^ 61)
    (hlength : inner.length < 2 ^ 64) (hanswer : P.answer number .root state = (.descend, next))
    (hvisits : Visits (P.below number) (fresh inner next limits) last) :
    toEnd P (fresh (Message.payload number inner) state limits.deeper) =
      toEnd P ((last.below number inner.length).settle.placed (.head number inner.length)) :=
  (toEnd_payload limits hnumber hlength hanswer).trans
    ((placement P (.head number inner.length)).toEnd_image
      (visits_below (ahead_fresh inner next limits) hvisits))

end Walk

/-- **To enter a message is to scan it.**  Take a buffer that is one field with a message in it, and
a policy that enters the message.  The scan asks about the field, and then makes the calls of a scan
of the message alone, with the field's number in front of every path.  It comes to the same end, one
field more visited: an error lies further on by the field's key and length, and has the number in
front of its path.  A limit on the depth counts one level more. -/
theorem scan_payload {σ : Type} (P : Policy σ) (number : UInt64) (inner : Bytes) (state next : σ)
    (maxDepth : Option Nat) (hnumber : number.toNat < 2 ^ 61)
    (hlength : (Message.payload number inner).length < 2 ^ 64)
    (hanswer : P.answer number .root state = (.descend, next)) :
    (scan P (Message.payload number inner) state { maxDepth := maxDepth.map (· + 1) }).calls =
      .asked number .root .descend ::
        (scan (P.below number) inner next { maxDepth }).calls.map (Call.below number) ∧
    (scan P (Message.payload number inner) state { maxDepth := maxDepth.map (· + 1) }).state =
      (scan (P.below number) inner next { maxDepth }).state ∧
    (scan P (Message.payload number inner) state { maxDepth := maxDepth.map (· + 1) }).visited =
      (scan (P.below number) inner next { maxDepth }).visited + 1 ∧
    (scan P (Message.payload number inner) state { maxDepth := maxDepth.map (· + 1) }).result =
      (scan (P.below number) inner next { maxDepth }).result.mapError fun error =>
        (error.below number).shifted (Message.head number inner.length).length := by
  have hinner : inner.length < 2 ^ 64 := by
    rw [Message.payload, List.length_append] at hlength
    omega
  rw [show ({ maxDepth := maxDepth.map (· + 1) } : Limits) = Limits.deeper { maxDepth } from rfl]
  rcases scan_cases (P.below number) inner next { maxDepth } rfl with
    ⟨last, hvisits, hend, -, -, hscan⟩ | ⟨last, fault, rest, hvisits, hmore, hfield, hscan⟩
  · have hahead := Walk.ahead_of_visits (Walk.ahead_fresh inner next { maxDepth }) hvisits
    have hrun := Walk.toEnd_payload_of_visits hnumber hinner hanswer hvisits
    have hlast := hrun.trans (Walk.toEnd_of_atEnd (Cursor.atEnd_placed_of_nil rfl hend))
    rw [hscan, scan_of_toEnd_ok rfl hlast (Walk.isEmpty_settle_below hahead hend)]
    refine ⟨?_, rfl, Nat.add_comm .., rfl⟩
    rw [calls_completed, calls_completed]
    exact last.calls_wrapped inner.length
  · have hahead := Walk.ahead_of_visits (Walk.ahead_fresh inner next { maxDepth }) hvisits
    have hrun := Walk.toEnd_payload_of_visits hnumber hinner hanswer hvisits
    rw [Walk.settle_below_of_more hahead hmore] at hrun
    have hbelow : Walk.field P (last.below number inner.length) =
        .error fault.deeper (rest.below number inner.length) := by
      rw [Walk.field_below P hahead, hfield]
      rfl
    -- Nothing stands behind the message, so no fault is mended.
    have hplaced := (Walk.placement P (.head number inner.length)).field.error hbelow
      fun h => h.2 rfl
    have hbroken := hrun.trans (Walk.toEnd_of_error (Cursor.atEnd_placed hmore) hplaced)
    rw [hscan, scan_of_toEnd_broken rfl hbroken]
    refine ⟨?_, rfl, Nat.add_comm .., ?_⟩
    · rw [calls_broken, calls_broken]
      exact rest.calls_wrapped inner.length
    · show Except.error (fault.deeper.located _ (rest.nesting.path.below number).text) = _
      rw [FieldPath.text_below]
      rfl

/-- A key that is one level too deep is so in a message around it too, where one level more is
allowed. -/
theorem scan_payload_too_deep :
    (scan .countValues (Message.payload 3 [0x08, 0x01, 0x0a, 0x02, 0x10, 0x05]) 0
      { maxDepth := some 2 }).result =
      .error ((Fault.depthLimitExceeded 2).located 6 "3:1:2") := by
  have hinner : (scan (Policy.countValues.below 3) [0x08, 0x01, 0x0a, 0x02, 0x10, 0x05] 0
      { maxDepth := some 1 }).result =
      .error ((Fault.depthLimitExceeded 1).located 4 "1:2") := by
    rw [scan_of_toEnd rfl, Walk.toEnd_of_ok rfl rfl, Walk.toEnd_of_ok rfl rfl,
      Walk.toEnd_of_error rfl rfl]
    rfl
  obtain ⟨-, -, -, hresult⟩ := scan_payload .countValues 3 [0x08, 0x01, 0x0a, 0x02, 0x10, 0x05]
    0 0 (some 1) (by decide) (by decide +kernel) rfl
  rw [hinner] at hresult
  exact hresult.trans (congrArg Except.error (by decide +kernel))

end FieldSieve
