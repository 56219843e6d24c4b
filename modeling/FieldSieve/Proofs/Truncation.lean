import FieldSieve.Proofs.Continuation
import FieldSieve.Proofs.SlicedScan

/-!
# Scanning a buffer that was cut off

The fields of a message can be told apart without a policy: each is as long as its key and its
length say (`Item.pieces`).  If a buffer was scanned and is then cut between two of them, a scan of
what is left succeeds and makes the calls of the fields in front of the cut (`scan_of_spells_take`).

If the cut falls into a field, the scan breaks off at the key of that field, whatever is nested in
it: the length of a message is compared with the bytes that are left before its first field is read.
All that the policy can have noticed of the field is the question what to do with it
(`field_of_cut`).
-/
namespace FieldSieve

namespace Item

/-- The bytes of the fields at the front of a row, field by field. -/
def pieces (bytes : Bytes) : List Bytes :=
  match _split : split? bytes with
  | none => []
  | some (_, rest) => bytes.take (bytes.length - rest.length) :: pieces rest
termination_by bytes.length
decreasing_by
  have := length_lt_of_split? _split
  omega

/-- The offset behind the first `k` fields. -/
def boundary (bytes : Bytes) (k : Nat) : Nat :=
  ((pieces bytes).take k).flatten.length

variable {item other : Item} {key : Key} {written rest front cut bytes piece : Bytes} {c d : Cursor}
  {k n : Nat}

theorem pieces_nil : pieces [] = [] := by
  rw [pieces]
  split
  · rfl
  · next hsplit =>
    obtain ⟨written, hwritten, hnil⟩ := split?_eq_some_iff.mp hsplit
    exact absurd (List.append_eq_nil_iff.mp hnil.symm).1 hwritten.ne_nil

theorem pieces_of_split? (h : split? bytes = some (item, rest)) :
    pieces bytes = bytes.take (bytes.length - rest.length) :: pieces rest := by
  rw [pieces]
  split
  · next hnone => cases h.symm.trans hnone
  · next hsome =>
    cases h.symm.trans hsome
    rfl

theorem pieces_append (h : Written item written) :
    pieces (written ++ rest) = written :: pieces rest := by
  have hsplit : split? (written ++ rest) = some (item, rest) :=
    split?_eq_some_iff.mpr ⟨written, h, rfl⟩
  rw [pieces_of_split? hsplit, List.length_append, Nat.add_sub_cancel, List.take_left]

theorem eq_payload_of_readBehind (hkey : key.wireType = .lengthDelimited)
    (h : readBehind key c = .ok item d) : ∃ value, item = payload key.number value := by
  obtain ⟨type, number⟩ := key
  cases hkey
  obtain ⟨length, between, -, h⟩ := bind_eq_ok.mp h
  obtain ⟨value, after, -, h⟩ := bind_eq_ok.mp h
  cases h
  exact ⟨value, rfl⟩

/-- No field is read off the front of a field that was cut off. -/
theorem read_ne_ok_of_cut (h : Written item (front ++ cut)) (hcut : cut ≠ []) :
    read (.ofBytes front) ≠ .ok other d := by
  intro hread
  obtain ⟨written, hwritten, hpasses⟩ := read_eq_ok_iff.mp hread
  have hfront : front = written ++ d.unread := hpasses.unread
  have hother : split? (front ++ cut) = some (other, d.unread ++ cut) :=
    split?_eq_some_iff.mpr ⟨written, hwritten, by rw [hfront, List.append_assoc]⟩
  have hitem : split? (front ++ cut) = some (item, []) :=
    split?_eq_some_iff.mpr ⟨_, h, (List.append_nil _).symm⟩
  have hnil : d.unread ++ cut = [] :=
    congrArg Prod.snd (Option.some.inj (hother.symm.trans hitem))
  exact hcut (List.append_eq_nil_iff.mp hnil).2

theorem boundary_succ (h : (pieces bytes)[k]? = some piece) :
    boundary bytes (k + 1) = boundary bytes k + piece.length := by
  rw [boundary, boundary, List.take_add_one, h]
  simp

/-- Where the fields make up the row, it can be cut behind each of them. -/
theorem take_boundary (h : (pieces bytes).flatten = bytes) (k : Nat) :
    bytes.take (boundary bytes k) = ((pieces bytes).take k).flatten := by
  have hparts : ((pieces bytes).take k).flatten ++ ((pieces bytes).drop k).flatten = bytes := by
    rw [← List.flatten_append, List.take_append_drop, h]
  calc bytes.take (boundary bytes k)
      = (((pieces bytes).take k).flatten ++ ((pieces bytes).drop k).flatten).take
          (boundary bytes k) := by rw [hparts]
    _ = ((pieces bytes).take k).flatten := List.take_left

/-- Cut inside a field, the row keeps the fields in front of it and the front of its piece. -/
theorem take_inside (h : (pieces bytes).flatten = bytes) (hpiece : (pieces bytes)[k]? = some piece)
    (hlow : boundary bytes k ≤ n) (hhigh : n ≤ boundary bytes (k + 1)) :
    bytes.take n = ((pieces bytes).take k).flatten ++ piece.take (n - boundary bytes k) := by
  have hfront : bytes.take (boundary bytes (k + 1)) = ((pieces bytes).take k).flatten ++ piece := by
    rw [take_boundary h, List.take_add_one, hpiece]
    simp
  calc bytes.take n
      = (bytes.take (boundary bytes (k + 1))).take n := by
        rw [List.take_take, Nat.min_eq_left hhigh]
    _ = (((pieces bytes).take k).flatten ++ piece).take n := by rw [hfront]
    _ = ((pieces bytes).take k).flatten ++ piece.take (n - boundary bytes k) := by
        rw [List.take_append, List.take_of_length_le hlow]
        rfl

/-- An offset in the row stands between two fields or falls into one. -/
theorem exists_boundary_lt (hn : n ≤ boundary bytes k) (hbetween : ∀ j, boundary bytes j ≠ n) :
    ∃ j < k, boundary bytes j < n ∧ n < boundary bytes (j + 1) := by
  induction k with
  | zero => exact absurd (Nat.le_zero.mp hn).symm (hbetween 0)
  | succ k ih =>
    by_cases hk : n ≤ boundary bytes k
    · obtain ⟨j, hj, hlt⟩ := ih hk
      exact ⟨j, Nat.lt_succ_of_lt hj, hlt⟩
    · have hne := hbetween (k + 1)
      exact ⟨k, Nat.lt_succ_self k, by omega, by omega⟩

end Item

namespace Node

variable {offset : Nat} {path : FieldPath} {fields rest : List Node} {bytes : Bytes}
  {events : List Event} {field : Node} {k : Nat}

theorem heightAll_append :
    heightAll (fields ++ rest) = max (heightAll fields) (heightAll rest) := by
  induction fields with
  | nil => simp [heightAll]
  | cons node fields ih => rw [List.cons_append, heightAll, heightAll, ih, Nat.max_assoc]

theorem one_le_heightAll (h : fields ≠ []) : 1 ≤ heightAll fields := by
  cases fields with
  | nil => exact absurd rfl h
  | cons node rest =>
    have hnode : 1 ≤ node.height := by cases node <;> simp [height]
    exact Nat.le_trans hnode (Nat.le_max_left ..)

/-- The fields of a message are its pieces. -/
theorem pieces_of_spells (h : Spells offset path fields bytes events) :
    (Item.pieces bytes).flatten = bytes ∧ (Item.pieces bytes).length = fields.length := by
  induction h with
  | nil => exact ⟨by rw [Item.pieces_nil]; rfl, by rw [Item.pieces_nil]; rfl⟩
  | scalar hwritten _ ih | payload hwritten _ ih | message hwritten _ _ _ ih =>
    rw [Item.pieces_append hwritten, List.flatten_cons, ih.1, List.length_cons, ih.2]
    exact ⟨rfl, rfl⟩

/-- The first fields stand in the first pieces. -/
theorem spells_take (h : Spells offset path fields bytes events) (k : Nat) :
    ∃ taken, Spells offset path (fields.take k) ((Item.pieces bytes).take k).flatten taken := by
  induction h generalizing k with
  | nil =>
    rw [Item.pieces_nil, List.take_nil, List.take_nil]
    exact ⟨[], .nil⟩
  | scalar hwritten _ ih =>
    cases k with
    | zero => exact ⟨[], .nil⟩
    | succ k =>
      obtain ⟨taken, htaken⟩ := ih k
      rw [Item.pieces_append hwritten]
      exact ⟨_, .scalar hwritten htaken⟩
  | payload hwritten _ ih =>
    cases k with
    | zero => exact ⟨[], .nil⟩
    | succ k =>
      obtain ⟨taken, htaken⟩ := ih k
      rw [Item.pieces_append hwritten]
      exact ⟨_, .payload hwritten htaken⟩
  | message hwritten hinner _ _ ih =>
    cases k with
    | zero => exact ⟨[], .nil⟩
    | succ k =>
      obtain ⟨taken, htaken⟩ := ih k
      rw [Item.pieces_append hwritten]
      exact ⟨_, .message hwritten hinner htaken⟩

/-- Each field stands in its piece, and a payload begins with a question. -/
theorem written_of_spells (h : Spells offset path fields bytes events)
    (hfield : fields[k]? = some field) : ∃ piece item, (Item.pieces bytes)[k]? = some piece ∧
      Item.Written item piece ∧ ∀ number value, item = .payload number value → ∀ parent,
        ∃ answer more, field.calls parent = .asked number parent answer :: more := by
  induction h generalizing k with
  | nil => cases hfield
  | scalar hwritten _ ih =>
    rw [Item.pieces_append hwritten]
    cases k with
    | zero =>
      cases hfield
      exact ⟨_, _, rfl, hwritten, nofun⟩
    | succ k => exact ih hfield
  | @payload _ _ _ _ delivered _ _ _ _ hwritten _ ih =>
    rw [Item.pieces_append hwritten]
    cases k with
    | zero =>
      cases hfield
      refine ⟨_, _, rfl, hwritten, ?_⟩
      rintro number value ⟨⟩ parent
      cases delivered with
      | false => exact ⟨.skip, [], rfl⟩
      | true => exact ⟨.capture, _, rfl⟩
    | succ k => exact ih hfield
  | message hwritten _ _ _ ih =>
    rw [Item.pieces_append hwritten]
    cases k with
    | zero =>
      cases hfield
      refine ⟨_, _, rfl, hwritten, ?_⟩
      rintro number value ⟨⟩ parent
      exact ⟨.descend, _, rfl⟩
    | succ k => exact ih hfield

end Node

section Cut

variable {σ : Type} {P : Policy σ} {item : Item} {front cut : Bytes} {state : σ}
  {maxDepth : Option Nat}

/-- At a field that was cut off some bytes are missing, and the policy was asked at most what to do
with the field. -/
theorem field_of_cut (hwritten : Item.Written item (front ++ cut)) (hcut : cut ≠ [])
    (hroom : (Walk.fresh front state { maxDepth }).Allows 1) :
    ∃ rest, Walk.field P (.fresh front state { maxDepth }) = .error .endOfStream rest ∧
      (rest.calls = [] ∨ ∃ number value answer next, item = .payload number value ∧
        P.answer number .root state = (answer, next) ∧
        rest.calls = [.asked number .root answer]) := by
  have hnone : ∀ other d, Item.read (Walk.fresh front state { maxDepth }).cursor ≠ .ok other d :=
    fun other d => Item.read_ne_ok_of_cut hwritten hcut
  -- The whole field can be read, so its key can.
  obtain ⟨key, afterKey, hkey, hbehind⟩ : ∃ key afterKey,
      Cursor.readKey (.ofBytes (front ++ cut)) = .ok key afterKey ∧
        ∃ d, Item.readBehind key afterKey = .ok item d := by
    obtain ⟨d, hpasses, -⟩ := Cursor.exists_passes
      (show (Cursor.ofBytes (front ++ cut)).unread = front ++ cut ++ [] by simp)
    obtain ⟨key, afterKey, hkey, hbehind⟩ :=
      bind_eq_ok.mp (Item.read_eq_ok_iff.mpr ⟨_, hwritten, hpasses⟩)
    exact ⟨key, afterKey, hkey, d, hbehind⟩
  have hplaced : (Cursor.ofBytes front).placed (.followedBy cut) = .ofBytes (front ++ cut) :=
    Cursor.ext rfl rfl
  have houtcome := Walk.fieldOutcome P (.fresh front state { maxDepth })
  generalize Walk.field P (.fresh front state { maxDepth }) = result at houtcome
  cases houtcome with
  | @badKey fault c hbad =>
    rcases Cursor.fault_of_readKey hbad with rfl | ⟨id, rfl⟩
    · exact ⟨_, rfl, .inl rfl⟩
    · have hrefused := (Cursor.carries_readKey (.followedBy cut)).error hbad (by rintro ⟨⟨⟩, -⟩)
      rw [show (Walk.fresh front state { maxDepth }).cursor = .ofBytes front from rfl, hplaced,
        hkey] at hrefused
      cases hrefused
  | tooDeep _ hlimit hdeep =>
    exact absurd (Nat.le_trans (hroom _ hlimit) hdeep) (Nat.not_succ_le_self _)
  | noValue | noLength => exact ⟨_, rfl, .inl rfl⟩
  | @missing asked length c d answer next hsized hanswer =>
    have hsame := (Cursor.carries_readKey (.followedBy cut)).ok hsized.readKey
    rw [show (Walk.fresh front state { maxDepth }).cursor = .ofBytes front from rfl, hplaced,
      hkey] at hsame
    cases hsame
    obtain ⟨_, hbehind⟩ := hbehind
    obtain ⟨value, hitem⟩ := Item.eq_payload_of_readBehind hsized.wireType hbehind
    exact ⟨_, rfl, .inr ⟨_, value, answer, next, hitem, hanswer, rfl⟩⟩
  | outside _ _ _ hstop => cases hstop
  | scalar hkeyed hread => exact absurd (bind_eq_ok.mpr ⟨_, _, hkeyed.readKey, hread⟩) (hnone _ _)
  | skipped hsized _ hthere | captured hsized _ hthere =>
    obtain ⟨head, number, -, hpayload, hhead⟩ := Walk.written_of_sized hsized
    exact absurd (Item.read_eq_ok_iff.mpr ⟨_, hpayload, hhead.trans hthere⟩) (hnone _ _)
  | descended hsized _ hthere =>
    obtain ⟨value, e, hvalue, rfl⟩ := Cursor.exists_passes_of_le hthere
    obtain ⟨head, number, -, hpayload, hhead⟩ := Walk.written_of_sized hsized
    exact absurd (Item.read_eq_ok_iff.mpr ⟨_, hpayload, hhead.trans hvalue⟩) (hnone _ _)

/-- So a scan of a field that was cut off fails at its key. -/
theorem scan_of_cut (P : Policy σ) (state : σ) (hwritten : Item.Written item (front ++ cut))
    (hfront : front ≠ []) (hcut : cut ≠ [])
    (hroom : (Walk.fresh front state { maxDepth }).Allows 1) :
    ∃ error, (scan P front state { maxDepth }).result = .error error ∧
      error.fault = .endOfStream ∧ error.offset = 0 ∧
      ((scan P front state { maxDepth }).calls = [] ∨
        ∃ number value answer next, item = .payload number value ∧
          P.answer number .root state = (answer, next) ∧
          (scan P front state { maxDepth }).calls = [.asked number .root answer]) := by
  obtain ⟨rest, hfield, hcalls⟩ := field_of_cut (P := P) hwritten hcut hroom
  have hmore : (Walk.fresh front state { maxDepth }).cursor.atEnd = false := by
    rw [← Bool.not_eq_true, Cursor.atEnd_iff]
    exact hfront
  have hscan := scan_of_toEnd_error rfl (Walk.toEnd_of_error hmore hfield)
  have hrest : (scan P front state { maxDepth }).calls = rest.calls := by
    rw [hscan]
    exact Walk.calls_record rfl
  rw [hrest, hscan]
  exact ⟨_, rfl, rfl, rfl, hcalls⟩

end Cut

open Node

variable {σ : Type} {P : Policy σ} {bytes : Bytes} {state last : σ} {maxDepth : Option Nat}
  {fields : List Node} {events : List Event}

/-- The first fields are scanned like the whole. -/
theorem scan_of_spells_take (h : Spells 0 .root fields bytes events)
    (hroom : (Walk.fresh bytes state { maxDepth }).Allows (heightAll fields))
    (hreplay : P.replay (callsAll .root fields) state = some last) (k : Nat) :
    ∃ between, P.replay (callsAll .root (fields.take k)) state = some between ∧
      P.replay (callsAll .root (fields.drop k)) between = some last ∧
      (scan P ((Item.pieces bytes).take k).flatten state { maxDepth }).result = .ok () ∧
      (scan P ((Item.pieces bytes).take k).flatten state { maxDepth }).state = between ∧
      (scan P ((Item.pieces bytes).take k).flatten state { maxDepth }).calls =
        callsAll .root (fields.take k) := by
  obtain ⟨taken, htaken⟩ := spells_take h k
  rw [← List.take_append_drop k fields, callsAll_append] at hreplay
  obtain ⟨between, hfirst, hrest⟩ := Policy.replay_append_eq_some_iff.mp hreplay
  have hheight : heightAll (fields.take k) ≤ heightAll fields := by
    calc heightAll (fields.take k)
        ≤ max (heightAll (fields.take k)) (heightAll (fields.drop k)) := Nat.le_max_left ..
      _ = heightAll fields := by rw [← heightAll_append, List.take_append_drop]
  obtain ⟨cursor, -, hscan⟩ := scan_of_spells htaken rfl (Walk.Allows.mono hroom hheight) hfirst
  refine ⟨between, hfirst, hrest, ?_⟩
  rw [hscan]
  refine ⟨rfl, rfl, ?_⟩
  rw [Run.calls, List.filterMap_append, htaken.calls]
  exact List.append_nil _

/-- A policy that is asked what to do with a field in the state that the fields in front of it leave
gives the answer that it gave when the field was whole. -/
theorem calls_eq_asked_of_replay {field : Node} {number : UInt64} {told answer : Decision}
    {more : List Call} {next : σ} {k : Nat} (hfield : fields[k]? = some field)
    (hreplay : P.replay (callsAll .root (fields.drop k)) state = some last)
    (hcalls : field.calls .root = .asked number .root told :: more)
    (hanswer : P.answer number .root state = (answer, next)) :
    field.calls .root = .asked number .root answer :: more := by
  obtain ⟨hk, hnode⟩ := List.getElem?_eq_some_iff.mp hfield
  rw [List.drop_eq_getElem_cons hk, hnode, callsAll, hcalls] at hreplay
  obtain ⟨_, hgiven, -⟩ := Policy.replay_asked_eq_some_iff.mp hreplay
  obtain rfl : told = answer := congrArg Prod.fst (hgiven.symm.trans hanswer)
  exact hcalls

/-- Cut inside a field, the buffer is scanned up to that field. -/
theorem scan_take_inside {field : Node} {k n : Nat} (h : Spells 0 .root fields bytes events)
    (hroom : (Walk.fresh bytes state { maxDepth }).Allows (heightAll fields))
    (hreplay : P.replay (callsAll .root fields) state = some last)
    (hfield : fields[k]? = some field) (hlow : Item.boundary bytes k < n)
    (hhigh : n < Item.boundary bytes (k + 1)) :
    ∃ error asked, (scan P (bytes.take n) state { maxDepth }).result = .error error ∧
      error.fault = .endOfStream ∧ error.offset = Item.boundary bytes k ∧
      (scan P (bytes.take n) state { maxDepth }).calls =
        callsAll .root (fields.take k) ++ asked ∧
      (asked = [] ∨ ∃ number answer more, asked = [.asked number .root answer] ∧
        field.calls .root = .asked number .root answer :: more) := by
  obtain ⟨hflatten, -⟩ := pieces_of_spells h
  obtain ⟨piece, item, hpiece, hwritten, hasks⟩ := written_of_spells h hfield
  obtain ⟨between, -, hrest, hresult, hstate, hbefore⟩ := scan_of_spells_take h hroom hreplay k
  rw [Item.take_inside hflatten hpiece (Nat.le_of_lt hlow) (Nat.le_of_lt hhigh)]
  rw [Item.boundary_succ hpiece] at hhigh
  -- The piece falls into a part that is left and a part that is missing.
  obtain ⟨hfront, hcut⟩ : piece.take (n - Item.boundary bytes k) ≠ [] ∧
      piece.drop (n - Item.boundary bytes k) ≠ [] := by
    rw [← List.length_pos_iff, ← List.length_pos_iff, List.length_take, List.length_drop]
    omega
  rw [← List.take_append_drop (n - Item.boundary bytes k) piece] at hwritten
  generalize piece.take (n - Item.boundary bytes k) = front at hwritten hfront ⊢
  have hopen : (Walk.fresh front between { maxDepth }).Allows 1 :=
    Walk.Allows.mono hroom (one_le_heightAll (List.ne_nil_of_mem (List.mem_of_getElem? hfield)))
  obtain ⟨error, herror, hfault, hoffset, hasked⟩ :=
    scan_of_cut P between hwritten hfront hcut hopen
  obtain ⟨walk, htold, hleft, -, hposition, hrun⟩ := exists_toEnd_append hresult
  obtain rfl : walk.state = between := hleft.symm.trans hstate
  obtain ⟨hcalls, -, -, hfailed⟩ := scan_of_placed rfl rfl rfl (hrun front)
  refine ⟨error.shifted walk.cursor.position, (scan P front walk.state { maxDepth }).calls, ?_,
    hfault, ?_, ?_, ?_⟩
  · rw [hfailed, herror]
    rfl
  · show error.offset + walk.cursor.position = Item.boundary bytes k
    rw [hoffset, Nat.zero_add]
    exact hposition
  · rw [hcalls, ← hbefore, htold]
    rfl
  · rcases hasked with hnone | ⟨number, value, answer, next, hitem, hanswer, hone⟩
    · exact .inl hnone
    · obtain ⟨told, more, hfirst⟩ := hasks number value hitem .root
      exact .inr ⟨number, answer, more, hone, calls_eq_asked_of_replay hfield hrest hfirst hanswer⟩

/-- **A buffer that was cut off is scanned up to the field that the cut falls into.**  The fields of
a scanned buffer are told apart by their own lengths.  Cut between two of them, the buffer is
scanned with the calls of the fields in front of the cut.  Cut inside one of them, it fails at the
key of that field for want of bytes, with those calls and at most the question what to do with the
field. -/
theorem scan_take (P : Policy σ) (bytes : Bytes) (state : σ) (maxDepth : Option Nat) (n : Nat)
    (hn : n ≤ bytes.length) (hok : (scan P bytes state { maxDepth }).result = .ok ()) :
    ∃ fields last, decodeAll P .root bytes state = some (fields, last) ∧
      (scan P bytes state { maxDepth }).calls = callsAll .root fields ∧
      (Item.pieces bytes).flatten = bytes ∧ (Item.pieces bytes).length = fields.length ∧
      (∀ k, Item.boundary bytes k = n →
        (scan P (bytes.take n) state { maxDepth }).result = .ok () ∧
        (scan P (bytes.take n) state { maxDepth }).calls = callsAll .root (fields.take k)) ∧
      ((∀ k, Item.boundary bytes k ≠ n) → ∃ k field error asked, fields[k]? = some field ∧
        Item.boundary bytes k < n ∧ n < Item.boundary bytes (k + 1) ∧
        (scan P (bytes.take n) state { maxDepth }).result = .error error ∧
        error.fault = .endOfStream ∧ error.offset = Item.boundary bytes k ∧
        (scan P (bytes.take n) state { maxDepth }).calls =
          callsAll .root (fields.take k) ++ asked ∧
        (asked = [] ∨ ∃ number answer more, asked = [.asked number .root answer] ∧
          field.calls .root = .asked number .root answer :: more)) := by
  obtain ⟨-, fields, events, last, hspells, hreplay, hroom⟩ := spelled_of_scan hok
  obtain ⟨hflatten, hlength⟩ := pieces_of_spells hspells
  obtain ⟨_, -, hwhole⟩ := scan_of_spells hspells rfl hroom hreplay
  have hcalls : (scan P bytes state { maxDepth }).calls = callsAll .root fields := by
    rw [hwhole, Run.calls, List.filterMap_append, hspells.calls]
    exact List.append_nil _
  refine ⟨fields, last, decodeAll_of_spells hspells hreplay, hcalls, hflatten, hlength, ?_, ?_⟩
  · rintro k rfl
    obtain ⟨between, -, -, hresult, -, hfirst⟩ := scan_of_spells_take hspells hroom hreplay k
    rw [Item.take_boundary hflatten]
    exact ⟨hresult, hfirst⟩
  · intro hbetween
    have hend : n ≤ Item.boundary bytes fields.length := by
      rw [Item.boundary, ← hlength, List.take_length, hflatten]
      exact hn
    obtain ⟨k, hk, hlow, hhigh⟩ := Item.exists_boundary_lt hend hbetween
    have hfield : fields[k]? = some fields[k] := List.getElem?_eq_getElem hk
    obtain ⟨error, asked, hcut⟩ := scan_take_inside hspells hroom hreplay hfield hlow hhigh
    exact ⟨k, fields[k], error, asked, hfield, hlow, hhigh, hcut⟩

/-- Cut inside a nested message, a scan fails at the key of the message in the root. -/
theorem scan_take_in_message : ∃ error,
    (scan .countValues [0x08, 0x01, 0x0a, 0x02, 0x10] 0).result = .error error ∧
    error.fault = .endOfStream ∧ error.offset = 2 := by
  have hscan : (scan .countValues [0x08, 0x01, 0x0a, 0x02, 0x10, 0x05] 0).result = .ok () := by
    rw [scan_of_toEnd rfl, Walk.toEnd_of_ok rfl rfl, Walk.toEnd_of_ok rfl rfl,
      Walk.toEnd_of_ok rfl rfl, Walk.toEnd_of_atEnd rfl]
    rfl
  have hpieces : Item.pieces [0x08, 0x01, 0x0a, 0x02, 0x10, 0x05] =
      [[0x08, 0x01], [0x0a, 0x02, 0x10, 0x05]] := by
    have hfirst : Item.split? [0x08, 0x01, 0x0a, 0x02, 0x10, 0x05] =
        some (.scalar 1 (.varint 1), [0x0a, 0x02, 0x10, 0x05]) := rfl
    have hsecond : Item.split? [0x0a, 0x02, 0x10, 0x05] =
        some (.payload 1 [0x10, 0x05], []) := rfl
    rw [Item.pieces_of_split? hfirst, Item.pieces_of_split? hsecond, Item.pieces_nil]
    rfl
  have hboundary : ∀ k, Item.boundary [0x08, 0x01, 0x0a, 0x02, 0x10, 0x05] k =
      if k = 0 then 0 else if k = 1 then 2 else 6 := by
    rintro (_ | _ | k) <;> simp [Item.boundary, hpieces]
  obtain ⟨fields, last, -, -, -, -, -, hinside⟩ :=
    scan_take .countValues _ 0 none 5 (by decide) hscan
  obtain ⟨k, field, error, asked, -, hlow, hhigh, hresult, hfault, hoffset, -⟩ := hinside (by
    intro k
    rw [hboundary]
    split
    · decide
    · split <;> decide)
  refine ⟨error, hresult, hfault, ?_⟩
  rcases k with _ | _ | k
  · exact absurd hhigh (by rw [hboundary]; decide)
  · rw [hoffset, hboundary]
    rfl
  · exact absurd hlow (by rw [hboundary]; simp)

end FieldSieve
