import FieldSieve.Proofs.Journal

/-!
# Bytes that are passed over

A payload that the policy does not want is passed over: its length is read and its bytes are not.
So they may be replaced by any others, and the run stays the same (`scan_onto`).

The two runs go side by side.  At each step the second one stands where the first one does, in the
other buffer (`Walk.onto`).  A field is the same in both if the buffers agree on the bytes that it
may depend on (`Walk.MayRead`): those up to the position behind it, or all that follow if it cannot
be read, less those that it passes over.  Fields that come later begin behind these bytes, so none
of them is passed over there.
-/
namespace FieldSieve

namespace Bytes

/-- Two buffers have the same bytes from one offset up to another. -/
def Agree (bytes other : Bytes) (low high : Nat) : Prop :=
  ∀ i, low ≤ i → i < high → other[i]? = bytes[i]?

variable {bytes other front : Bytes} {low high first last : Nat}

theorem Agree.mono (h : Agree bytes other low high) (hlow : low ≤ first) (hhigh : last ≤ high) :
    Agree bytes other first last := by
  intro i hfirst hlast
  exact h i (Nat.le_trans hlow hfirst) (Nat.lt_of_lt_of_le hlast hhigh)

theorem Agree.drop_eq (h : Agree bytes other low (low + front.length))
    (hfront : bytes.drop low = front ++ bytes.drop (low + front.length)) :
    other.drop low = front ++ other.drop (low + front.length) := by
  apply List.ext_getElem?
  intro i
  have hi : (bytes.drop low)[i]? = (front ++ bytes.drop (low + front.length))[i]? := by rw [hfront]
  by_cases hinside : i < front.length
  · rw [List.getElem?_append_left hinside] at hi ⊢
    rw [← hi, List.getElem?_drop, List.getElem?_drop]
    exact h (low + i) (by omega) (by omega)
  · rw [List.getElem?_append_right (by omega), List.getElem?_drop, List.getElem?_drop]
    congr 1
    omega

end Bytes

namespace Cursor

/-- The cursor stands in a buffer. -/
def In (c : Cursor) (bytes : Bytes) : Prop := c.unread = bytes.drop c.position

/-- The cursor at the same position of another buffer. -/
def onto (other : Bytes) (c : Cursor) : Cursor where
  position := c.position
  remaining := (other.drop c.position).length
  unread := other.drop c.position
  unread_length := rfl

variable {bytes other front : Bytes} {c d : Cursor}

theorem In.leadsTo (h : c.In bytes) (hd : c.LeadsTo d) : d.In bytes := by
  obtain ⟨n, fits, rfl⟩ := hd
  show c.unread.drop n = bytes.drop (c.position + n)
  rw [h, List.drop_drop]

theorem In.passes (h : c.In bytes) (hd : c.Passes front d) : d.In bytes := by
  obtain ⟨fits, rfl⟩ := hd.eq_advance
  exact h.leadsTo (leadsTo_advance fits)

theorem remaining_onto (hlength : other.length = bytes.length) (h : c.In bytes) :
    (c.onto other).remaining = c.remaining := by
  show (other.drop c.position).length = c.remaining
  rw [← c.unread_length, h, List.length_drop, List.length_drop, hlength]

theorem size_onto (hlength : other.length = bytes.length) (h : c.In bytes) :
    (c.onto other).size = c.size :=
  congrArg (c.position + ·) (remaining_onto hlength h)

/-- Where the buffers agree, the same bytes are passed. -/
theorem Passes.onto (h : c.Passes front d) (hin : c.In bytes)
    (hsame : Bytes.Agree bytes other c.position d.position) :
    (c.onto other).Passes front (d.onto other) where
  unread := by
    show other.drop c.position = front ++ other.drop d.position
    have hfront : bytes.drop c.position = front ++ bytes.drop d.position := by
      rw [← hin, ← hin.passes h, h.unread]
    rw [h.position] at hfront hsame ⊢
    exact hsame.drop_eq hfront
  position := h.position

/-- Where they do not, as many bytes are passed. -/
theorem Passes.onto_length (h : c.Passes front d) (hin : c.In bytes)
    (hlength : other.length = bytes.length) :
    ∃ back, back.length = front.length ∧ (c.onto other).Passes back (d.onto other) := by
  have hfits : front.length ≤ (c.onto other).remaining := by
    rw [remaining_onto hlength hin, h.remaining_eq]
    exact Nat.le_add_right ..
  obtain ⟨back, e, hpasses, hback⟩ := exists_passes_of_le hfits
  have he : e = d.onto other := by
    apply Cursor.ext
    · rw [hpasses.position, hback]
      exact h.position.symm
    · obtain ⟨fits, rfl⟩ := hpasses.eq_advance
      show (other.drop c.position).drop back.length = other.drop d.position
      rw [List.drop_drop, hback, h.position]
  exact ⟨back, hback, he ▸ hpasses⟩

/-- Where the buffers agree to the end, nothing tells them apart. -/
theorem onto_eq_self (hin : c.In bytes) (hsame : ∀ i, c.position ≤ i → other[i]? = bytes[i]?) :
    c.onto other = c := by
  apply Cursor.ext
  · rfl
  · show other.drop c.position = c.unread
    rw [hin]
    apply List.ext_getElem?
    intro i
    rw [List.getElem?_drop, List.getElem?_drop]
    exact hsame _ (Nat.le_add_right ..)

end Cursor

namespace Event

/-- The event is that the byte at an offset is passed over. -/
def Skips (i : Nat) : Event → Prop
  | asked _ _ start length .skip => start ≤ i ∧ i < start + length
  | _ => False

/-- Bytes in front of a position are not passed over from there. -/
theorem From.not_skips {event : Event} {position i : Nat} (h : event.From position)
    (hi : i < position) : ¬ event.Skips i := by
  intro hskips
  cases event with
  | asked number parent start length answer =>
    have hstart : position ≤ start := h start rfl
    cases answer with
    | skip => exact absurd (Nat.le_trans hstart hskips.1) (Nat.not_le.mpr hi)
    | capture | descend => exact hskips
  | keyRead | delivered | failed | completed => exact hskips

end Event

theorem Item.readBehind_onto {bytes other : Bytes} {key : Key} {item : Item} {c d : Cursor}
    (h : readBehind key c = .ok item d) (hin : c.In bytes)
    (hsame : Bytes.Agree bytes other c.position d.position) :
    readBehind key (c.onto other) = .ok item (d.onto other) := by
  obtain ⟨behind, hbehind, hpasses⟩ := readBehind_eq_ok_iff.mp h
  exact readBehind_eq_ok_iff.mpr ⟨behind, hbehind, hpasses.onto hin hsame⟩

namespace Walk

variable {σ : Type} {P : Policy σ} {walk next : Walk σ} {bytes other : Bytes} {key : Key}
  {c d : Cursor} {events : List Event} {length i : Nat}

/-- The walk at the same position of another buffer. -/
def onto (other : Bytes) (walk : Walk σ) : Walk σ := walk.movedTo (walk.cursor.onto other)

/-- Between the two walks the byte at an offset is not passed over. -/
def Spares (walk next : Walk σ) (i : Nat) : Prop := walk.Adds (fun event => ¬ event.Skips i) next

/-- The field that comes next may depend on the byte at an offset: the byte is not in front of it
and not behind it, and the field does not pass over it. -/
structure MayRead (P : Policy σ) (walk : Walk σ) (i : Nat) : Prop where
  notBefore : walk.cursor.position ≤ i
  notBehind : ∀ next, field P walk = .ok () next → i < next.cursor.position
  spared : walk.Spares (stateAfter (field P walk)) i

theorem Keyed.onto (h : walk.Keyed key c) (hin : walk.cursor.In bytes)
    (hsame : Bytes.Agree bytes other walk.cursor.position c.position) :
    (walk.onto other).Keyed key (c.onto other) where
  readKey := by
    obtain ⟨form, hform, hpasses, hkey⟩ := Cursor.readKey_eq_ok_iff.mp h.readKey
    exact Cursor.readKey_eq_ok_iff.mpr ⟨form, hform, hpasses.onto hin hsame, hkey⟩
  room := h.room

theorem Sized.onto (h : walk.Sized key length c d) (hin : walk.cursor.In bytes)
    (hsame : Bytes.Agree bytes other walk.cursor.position d.position) :
    (walk.onto other).Sized key length (c.onto other) (d.onto other) := by
  obtain ⟨word, hword, hlength⟩ := h.readLength
  obtain ⟨form, hform, hpasses, hvalue⟩ := Cursor.readVarint_eq_ok_iff.mp hword
  obtain ⟨front, hfront⟩ := h.toKeyed.passes
  have honto := hpasses.onto (hin.passes hfront) (hsame.mono hfront.position_le (Nat.le_refl _))
  exact
    { toKeyed := h.toKeyed.onto hin (hsame.mono (Nat.le_refl _) hpasses.position_le)
      wireType := h.wireType
      readLength := ⟨word, Cursor.readVarint_eq_ok_iff.mpr ⟨form, hform, honto, hvalue⟩, hlength⟩ }

theorem close_onto : close (walk.onto other) = mapState (onto other) (close walk) :=
  close_image (show ∀ walk : Walk σ, (walk.onto other).settle = walk.settle.onto other from
    fun _ => rfl) (fun _ => rfl) walk

/-- Where the buffers agree to the end, the field is the same. -/
theorem field_onto_of_same (hin : walk.cursor.In bytes)
    (hsame : ∀ i, walk.cursor.position ≤ i → other[i]? = bytes[i]?) :
    field P (walk.onto other) = mapState (onto other) (field P walk) := by
  have hself : ∀ {later : Walk σ}, walk.cursor.LeadsTo later.cursor → later.onto other = later := by
    intro later hlater
    have honto : later.cursor.onto other = later.cursor := by
      apply Cursor.onto_eq_self (hin.leadsTo hlater)
      intro i hi
      obtain ⟨n, fits, hn⟩ := hlater
      rw [hn, Cursor.position_advance] at hi
      exact hsame i (by omega)
    rw [onto, honto]
    rfl
  have hforward := forward_field P walk
  rw [hself (.refl _)]
  cases hfield : field P walk with
  | ok done next =>
    rw [hfield] at hforward
    exact congrArg _ (hself hforward).symm
  | error fault rest =>
    rw [hfield] at hforward
    exact congrArg _ (hself hforward).symm

@[simp] theorem not_skips_keyEvent : ¬ (walk.keyEvent key).Skips i := id

@[simp] theorem not_skips_deliveryEvent {value : Bytes} :
    ¬ (walk.deliveryEvent key value).Skips i := id

theorem skips_askedEvent {start : Nat} {answer : Decision} :
    (walk.askedEvent key start length answer).Skips i ↔
      answer = .skip ∧ start ≤ i ∧ i < start + length := by
  cases answer <;> simp [askedEvent, Event.Skips]

/-- The question about a payload passes over no other bytes. -/
theorem not_skips_of_outside {start : Nat} {answer : Decision} {event : Event}
    (h : event ∈ [walk.keyEvent key, walk.askedEvent key start length answer])
    (hi : ¬ (start ≤ i ∧ i < start + length)) : ¬ event.Skips i := by
  simp only [List.mem_cons, List.not_mem_nil, or_false] at h
  rcases h with rfl | rfl
  · exact not_skips_keyEvent
  · rw [skips_askedEvent]
    exact fun hskips => hi hskips.2

/-- A field that is read passes over no byte at or behind the position where it ends. -/
theorem spares_of_field (h : field P walk = .ok () next) (hi : next.cursor.position ≤ i) :
    walk.Spares next i := by
  have houtcome := fieldOutcome P walk
  generalize field P walk = result at houtcome h
  cases houtcome with
  | badKey | tooDeep | noValue | noLength | missing | outside => cases h
  | scalar =>
    obtain rfl := eq_settle_of_close h
    exact ⟨_, rfl, by simp⟩
  | captured | descended =>
    obtain rfl := eq_settle_of_close h
    exact ⟨_, rfl, by simp [skips_askedEvent]⟩
  | @skipped key value c d e state hsized hanswer hthere =>
    obtain rfl := eq_settle_of_close h
    have hend : d.position + value.length ≤ i := hthere.position ▸ hi
    exact ⟨_, rfl, fun event hevent => not_skips_of_outside hevent (by omega)⟩

/-- A run passes over no byte in front of its start. -/
theorem spares_of_toEnd (hi : i < walk.cursor.position) :
    walk.Spares (stateAfter (toEnd P walk)) i :=
  (adds_toEnd P walk).mono fun _ h => h.not_skips hi

theorem agree_of_mayRead {high : Nat} (hsame : ∀ i, walk.MayRead P i → other[i]? = bytes[i]?)
    (hjournal : (stateAfter (field P walk)).journal = walk.journal ++ events)
    (hevents : ∀ event ∈ events, ∀ i < high, ¬ event.Skips i)
    (hhigh : ∀ next, field P walk = .ok () next → high ≤ next.cursor.position) :
    Bytes.Agree bytes other walk.cursor.position high := by
  intro i hlow hi
  exact hsame i
    { notBefore := hlow
      notBehind := fun next hnext => Nat.lt_of_lt_of_le hi (hhigh next hnext)
      spared := ⟨events, hjournal, fun event hevent => hevents event hevent i hi⟩ }

/-- A field that ends with the closing of frames may depend on all bytes up to there that it does
not pass over. -/
theorem agree_of_close {high : Nat} {closing : Walk σ}
    (hsame : ∀ i, walk.MayRead P i → other[i]? = bytes[i]?) (hfield : field P walk = close closing)
    (hjournal : closing.journal = walk.journal ++ events)
    (hevents : ∀ event ∈ events, ∀ i < high, ¬ event.Skips i)
    (hhigh : high ≤ closing.cursor.position) :
    Bytes.Agree bytes other walk.cursor.position high := by
  apply agree_of_mayRead hsame
  · rw [hfield, journal_close, hjournal]
  · exact hevents
  · intro next hnext
    rw [hfield] at hnext
    obtain rfl := eq_settle_of_close hnext
    exact hhigh

/-- A field that cannot be read and passes nothing over may depend on all bytes that follow. -/
theorem field_onto_of_error {fault : Fault} {rest : Walk σ} (hin : walk.cursor.In bytes)
    (hsame : ∀ i, walk.MayRead P i → other[i]? = bytes[i]?)
    (hfield : field P walk = .error fault rest) (hjournal : rest.journal = walk.journal ++ events)
    (hevents : ∀ event ∈ events, ∀ i, ¬ event.Skips i) :
    field P (walk.onto other) = mapState (onto other) (.error fault rest) := by
  have hall : ∀ high, Bytes.Agree bytes other walk.cursor.position high := by
    intro high
    apply agree_of_mayRead hsame
    · rw [hfield]
      exact hjournal
    · exact fun event hevent i _ => hevents event hevent i
    · intro next hnext
      rw [hfield] at hnext
      cases hnext
  rw [← hfield]
  exact field_onto_of_same hin fun i hi => hall (i + 1) i hi (Nat.lt_succ_self i)

/-- A field is the same in two buffers that agree on the bytes that it may depend on. -/
theorem field_onto (hin : walk.cursor.In bytes) (hlength : other.length = bytes.length)
    (hsame : ∀ i, walk.MayRead P i → other[i]? = bytes[i]?) :
    field P (walk.onto other) = mapState (onto other) (field P walk) := by
  obtain ⟨result, hresult⟩ : ∃ result, field P walk = result := ⟨_, rfl⟩
  have houtcome := fieldOutcome P walk
  rw [hresult] at houtcome ⊢
  cases houtcome with
  | @badKey fault c hbad =>
    have hnone : (walk.movedTo c).journal = walk.journal ++ ([] : List Event) :=
      Array.ext' (by simp [movedTo])
    exact field_onto_of_error hin hsame hresult hnone (by simp)
  | tooDeep | noValue | noLength => exact field_onto_of_error hin hsame hresult rfl (by simp)
  | outside => exact field_onto_of_error hin hsame hresult rfl (by simp [skips_askedEvent])
  | @missing key length c d answer state hsized hanswer hmissing =>
    have hagree : Bytes.Agree bytes other walk.cursor.position d.position := by
      apply agree_of_mayRead hsame
      · rw [hresult]
        rfl
      · exact fun event hevent i hi => not_skips_of_outside hevent (by omega)
      · intro next hnext
        rw [hresult] at hnext
        cases hnext
    obtain ⟨front, hfront⟩ := hsized.passes
    have hleft : (d.onto other).remaining < length := by
      rw [Cursor.remaining_onto hlength (hin.passes hfront)]
      exact hmissing
    exact field_missing (hsized.onto hin hagree) hanswer hleft
  | @scalar key value c d hkeyed hread =>
    have hagree : Bytes.Agree bytes other walk.cursor.position d.position :=
      agree_of_close hsame hresult rfl (by simp) (Nat.le_refl _)
    obtain ⟨front, hfront⟩ := hkeyed.passes
    obtain ⟨behind, -, hbehind⟩ := Item.readBehind_eq_ok_iff.mp hread
    have hkey := hkeyed.onto hin (hagree.mono (Nat.le_refl _) hbehind.position_le)
    have hitem := Item.readBehind_onto hread (hin.passes hfront)
      (hagree.mono hfront.position_le (Nat.le_refl _))
    rw [field_scalar hkey hitem, ← close_onto]
    rfl
  | @captured key value c d e state hsized hanswer hthere =>
    have hagree : Bytes.Agree bytes other walk.cursor.position e.position :=
      agree_of_close hsame hresult rfl (by simp [skips_askedEvent]) (Nat.le_refl _)
    obtain ⟨front, hfront⟩ := hsized.passes
    have hhead := hsized.onto hin (hagree.mono (Nat.le_refl _) hthere.position_le)
    have hvalue := hthere.onto (hin.passes hfront)
      (hagree.mono hfront.position_le (Nat.le_refl _))
    rw [field_captured hhead hanswer hvalue, ← close_onto]
    rfl
  | @skipped key value c d e state hsized hanswer hthere =>
    -- The buffers agree up to the payload, and behind that only its length matters.
    have hagree : Bytes.Agree bytes other walk.cursor.position d.position := by
      apply agree_of_close hsame hresult rfl ?_ hthere.position_le
      exact fun event hevent i hi => not_skips_of_outside hevent (by omega)
    obtain ⟨front, hfront⟩ := hsized.passes
    obtain ⟨back, hback, hpasses⟩ := hthere.onto_length (hin.passes hfront) hlength
    have hhead := hsized.onto hin hagree
    rw [← hback] at hhead ⊢
    rw [field_skipped hhead hanswer hpasses, ← close_onto]
    rfl
  | @descended key length c d state hsized hanswer hthere hinside =>
    have hagree : Bytes.Agree bytes other walk.cursor.position d.position :=
      agree_of_close hsame hresult rfl (by simp [skips_askedEvent]) (Nat.le_refl _)
    obtain ⟨front, hfront⟩ := hsized.passes
    have hleft : length ≤ (d.onto other).remaining := by
      rw [Cursor.remaining_onto hlength (hin.passes hfront)]
      exact hthere
    rw [field_descended (hsized.onto hin hagree) hanswer hleft hinside, ← close_onto]
    rfl

theorem in_of_visits {state : σ} {limits : Limits} (h : Visits P (fresh bytes state limits) walk) :
    walk.cursor.In bytes :=
  have hstart : (fresh bytes state limits).cursor.In bytes := rfl
  hstart.leadsTo (leadsTo_of_visits h)

/-- So is all that a run goes through. -/
theorem toEnd_onto (hin : walk.cursor.In bytes) (hlength : other.length = bytes.length)
    (hsame : ∀ i, walk.cursor.position ≤ i → walk.Spares (stateAfter (toEnd P walk)) i →
      other[i]? = bytes[i]?) :
    toEnd P (walk.onto other) = mapState (onto other) (toEnd P walk) := by
  induction hr : walk.cursor.remaining using Nat.strongRecOn generalizing walk with
  | ind remaining ih =>
    have hend : (walk.onto other).cursor.atEnd = walk.cursor.atEnd :=
      congrArg (· == 0) (Cursor.remaining_onto hlength hin)
    cases hmore : walk.cursor.atEnd with
    | true =>
      rw [toEnd_of_atEnd hmore, toEnd_of_atEnd (hend.trans hmore)]
      rfl
    | false =>
      cases hfield : field P walk with
      | error fault rest =>
        rw [toEnd_of_error hmore hfield] at hsame ⊢
        have honto : field P (walk.onto other) = .error fault (rest.onto other) := by
          rw [field_onto hin hlength, hfield]
          · rfl
          · rintro i ⟨hlow, -, hspared⟩
            rw [hfield] at hspared
            exact hsame i hlow (hspared.trans (adds_record id))
        exact toEnd_of_error (hend.trans hmore) honto
      | ok done next =>
        rw [toEnd_of_ok hmore hfield] at hsame ⊢
        have honto : field P (walk.onto other) = .ok () (next.onto other) := by
          rw [field_onto hin hlength, hfield]
          · rfl
          · -- What the field may read is in front of all that later fields pass over.
            rintro i ⟨hlow, hhigh, hspared⟩
            rw [hfield] at hspared
            exact hsame i hlow (hspared.trans (spares_of_toEnd (hhigh next hfield)))
        have hnext : next.cursor.In bytes := by
          have hforward := forward_field P walk
          rw [hfield] at hforward
          exact hin.leadsTo hforward
        rw [toEnd_of_ok (hend.trans hmore) honto]
        apply ih _ (hr ▸ remaining_lt_of_field hfield) hnext ?_ rfl
        intro i hlow hspared
        exact hsame i (Nat.le_trans (position_le_of_field hfield) hlow)
          ((spares_of_field hfield hlow).trans hspared)

end Walk

variable {σ : Type}

/-- What a run does not pass over, a scan does not either. -/
theorem not_skips_scan {P : Policy σ} {bytes : Bytes} {state : σ} {limits : Limits} {i : Nat}
    (hexcess : (Scan.ofBytes bytes limits).excess? = none)
    (h : (Walk.fresh bytes state limits).Spares
      (stateAfter (Walk.toEnd P (.fresh bytes state limits))) i) :
    ∀ event ∈ (scan P bytes state limits).events, ¬ event.Skips i := by
  obtain ⟨events, hevents, hspared⟩ := exists_events_scan hexcess .start h fun _ _ => id
  rw [hevents]
  exact hspared

/-- The run that came to the same place in another buffer. -/
def Run.onto (other : Bytes) (run : Run σ) : Run σ :=
  { run with scan := { run.scan with cursor := run.scan.cursor.onto other } }

/-- A run over a buffer of the same length, in which only bytes are changed that were passed over,
is the same run. -/
theorem scan_onto {P : Policy σ} {bytes other : Bytes} {state : σ} {limits : Limits}
    (hlength : other.length = bytes.length)
    (hsame : ∀ i, (∀ event ∈ (scan P bytes state limits).events, ¬ event.Skips i) →
      other[i]? = bytes[i]?) :
    scan P other state limits = (scan P bytes state limits).onto other := by
  have hexcess : (Scan.ofBytes other limits).excess? = (Scan.ofBytes bytes limits).excess? := by
    simp only [Scan.excess?, Scan.ofBytes, Cursor.size_ofBytes, hlength]
  cases hfault : (Scan.ofBytes bytes limits).excess? with
  | some fault =>
    rw [scan_of_excess hfault, scan_of_excess (hexcess.trans hfault)]
    rfl
  | none =>
    have hstart : (Walk.fresh bytes state limits).cursor.In bytes := rfl
    have hrun : Walk.toEnd P (.fresh other state limits) =
        mapState (Walk.onto other) (Walk.toEnd P (.fresh bytes state limits)) :=
      Walk.toEnd_onto hstart hlength fun i _ h => hsame i (not_skips_scan hfault h)
    rcases scan_cases P bytes state limits hfault with
      ⟨last, hvisits, hend, -, hempty, hscan⟩ |
      ⟨last, fault, rest, hvisits, hmore, hfield, hscan⟩
    · have hin : last.cursor.In bytes := Walk.in_of_visits hvisits
      rw [Walk.toEnd_of_visits hvisits, Walk.toEnd_of_atEnd hend] at hrun
      rw [hscan, scan_of_toEnd_ok (hexcess.trans hfault) hrun hempty,
        show (last.onto other).cursor.size = last.cursor.size from Cursor.size_onto hlength hin]
      rfl
    · rw [Walk.toEnd_of_visits hvisits, Walk.toEnd_of_error hmore hfield] at hrun
      rw [hscan, scan_of_toEnd_error (hexcess.trans hfault) hrun]
      rfl

/-- **A payload that is passed over does not matter.**  Take any buffer of the same length that
agrees with the scanned one on all bytes but those of payloads to which the policy answered `skip`.
A scan of it makes the same calls and comes to the same end, whether that is an error or not. -/
theorem scan_eq_of_skipped (P : Policy σ) (bytes other : Bytes) (state : σ) (limits : Limits)
    (hlength : other.length = bytes.length)
    (hsame : ∀ i, (∀ event ∈ (scan P bytes state limits).events, ¬ event.Skips i) →
      other[i]? = bytes[i]?) :
    (scan P other state limits).calls = (scan P bytes state limits).calls ∧
    (scan P other state limits).state = (scan P bytes state limits).state ∧
    (scan P other state limits).visited = (scan P bytes state limits).visited ∧
    (scan P other state limits).result = (scan P bytes state limits).result := by
  rw [scan_onto hlength hsame]
  exact ⟨rfl, rfl, rfl, rfl⟩

/-- A payload that is passed over runs out of the message around it, and its bytes may be any
others. -/
theorem scan_eq_of_skipped_overrun :
    (scan (.ofRules [(.ofList [1], .descend)] .skip)
      [0x0a, 0x04, 0x12, 0x03, 0xff, 0xff, 0xff, 0x08] ()).result =
      .error (Fault.messageOverrun.located 2 "1") := by
  have hscan : (scan (.ofRules [(.ofList [1], .descend)] .skip)
        [0x0a, 0x04, 0x12, 0x03, 0x08, 0x01, 0x08, 0x08] ()).result =
        .error (Fault.messageOverrun.located 2 "1") ∧
      (scan (.ofRules [(.ofList [1], .descend)] .skip)
        [0x0a, 0x04, 0x12, 0x03, 0x08, 0x01, 0x08, 0x08] ()).events[3]? =
        some (.asked 2 (.ofList [1]) 4 3 .skip) := by
    rw [scan_of_toEnd rfl, Walk.toEnd_of_ok rfl rfl, Walk.toEnd_of_error rfl rfl]
    exact ⟨rfl, rfl⟩
  obtain ⟨-, -, -, hresult⟩ := scan_eq_of_skipped (.ofRules [(.ofList [1], .descend)] .skip)
    [0x0a, 0x04, 0x12, 0x03, 0x08, 0x01, 0x08, 0x08]
    [0x0a, 0x04, 0x12, 0x03, 0xff, 0xff, 0xff, 0x08] () {} rfl (by
      intro i hspared
      have hi : ¬ (4 ≤ i ∧ i < 4 + 3) := hspared _ (List.mem_of_getElem? hscan.2)
      rcases i with _ | _ | _ | _ | _ | _ | _ | _ | i
      all_goals first | rfl | omega)
  exact hresult.trans hscan.1

end FieldSieve
