import FieldSieve.Proofs.WrittenForms
import FieldSieve.WordCursor

/-!
# Reads in machine words stay inside the buffer

A buffer whose length fits into a word is read with positions in words exactly as it is with
unbounded ones (`ReadOp.simulates`): the same bytes, the same faults, the same position
behind them.  So no difference is ever negative and no sum lies past the end.

The reason is one invariant, that the position is not past the end (`WordCursor.Marks`).  It lets
what is left be computed, and a length that has been compared with what is left cannot take the
position past the end.  A number or a key is read byte by byte, and each byte keeps the invariant,
so a read that breaks off halfway keeps it too.
-/
namespace FieldSieve

theorem Bytes.advance_cursorAt {buffer : Bytes} {offset n : Nat}
    (h : n ≤ (buffer.cursorAt offset).remaining) :
    (buffer.cursorAt offset).advance n h = buffer.cursorAt (offset + n) :=
  Cursor.ext rfl (List.drop_drop ..)

theorem Cursor.readByte_of_le {c : Cursor} (h : 1 ≤ c.remaining) :
    ∃ b, [b] = c.unread.take 1 ∧ readByte c = .ok b (c.advance 1 h) := by
  have hlength := c.unread_length
  rw [readByte_eq, readBytes_of_le h]
  cases hunread : c.unread with
  | nil => simp [hunread] at hlength; omega
  | cons b rest => exact ⟨b, rfl, rfl⟩

theorem Cursor.forward_readByte : Cursor.readByte.Forward := by
  intro c
  have hforward := forward_readBytes 1 c
  rw [readByte_eq]
  generalize readBytes 1 c = read at hforward
  cases read <;> exact hforward

theorem Reader.Forward.map {α β : Type} {reader : Reader α} (h : reader.Forward) (f : α → β) :
    Reader.Forward (f <$> reader) := by
  intro c
  have hforward := h c
  show c.LeadsTo (stateAfter (EStateM.map f reader c))
  rw [EStateM.map]
  generalize reader c = read at hforward
  cases read <;> exact hforward

section Bind

variable {ε σ α β : Type} {step : EStateM ε σ α} {next : α → EStateM ε σ β} {state between : σ}

theorem map_of_ok {f : α → β} {a : α} (h : step state = .ok a between) :
    (f <$> step) state = .ok (f a) between := by
  rw [show (f <$> step) state = EStateM.map f step state from rfl, EStateM.map, h]

theorem map_of_error {f : α → β} {fault : ε} (h : step state = .error fault between) :
    (f <$> step) state = .error fault between := by
  rw [show (f <$> step) state = EStateM.map f step state from rfl, EStateM.map, h]

theorem bind_get {next : σ → EStateM ε σ β} : (get >>= next) state = next state state := rfl

end Bind

namespace WordCursor

variable {α β : Type} {buffer : Bytes} {w : WordCursor} {c : Cursor} {n : UInt64}

/-- A position in a word, inside the buffer, and the cursor at this position. -/
structure Marks (buffer : Bytes) (w : WordCursor) (c : Cursor) : Prop where
  buffer_eq : w.buffer = buffer
  cursor_eq : c = buffer.cursorAt w.position.toNat
  position_le : w.position.toNat ≤ buffer.length

/-- The same result, with the cursors at the same place.  No read in words that stops for a sum or a
difference has the same result as any other read. -/
inductive SameResult (buffer : Bytes) :
    EStateM.Result Stop WordCursor α → EStateM.Result Fault Cursor α → Prop
  | ok {a : α} {w : WordCursor} {c : Cursor} (h : Marks buffer w c) :
    SameResult buffer (.ok a w) (.ok a c)
  | error {fault : Fault} {w : WordCursor} {c : Cursor} (h : Marks buffer w c) :
    SameResult buffer (.error (.fault fault) w) (.error fault c)

theorem SameResult.marks {words : EStateM.Result Stop WordCursor α}
    {read : EStateM.Result Fault Cursor α} (h : SameResult buffer words read) :
    Marks buffer (stateAfter words) (stateAfter read) := by
  cases h with
  | ok hnext => exact hnext
  | error hnext => exact hnext

/-- The two ways of reading have the same result wherever they start. -/
def Simulates (buffer : Bytes) (words : WordReader α) (reader : Reader α) : Prop :=
  ∀ w c, Marks buffer w c → SameResult buffer (words w) (reader c)

namespace Simulates

variable {words : WordReader α} {reader : Reader α} {next : WordCursor}

theorem of_ok {a : α} (hsame : Simulates buffer words reader) (h : Marks buffer w c)
    (hwords : words w = .ok a next) : ∃ d, reader c = .ok a d ∧ Marks buffer next d := by
  have hresult := hsame w c h
  rw [hwords] at hresult
  generalize reader c = read at hresult
  cases hresult with
  | ok hnext => exact ⟨_, rfl, hnext⟩

/-- A read in words breaks off for a fault only. -/
theorem of_error {stop : Stop} (hsame : Simulates buffer words reader) (h : Marks buffer w c)
    (hwords : words w = .error stop next) :
    ∃ fault d, stop = .fault fault ∧ reader c = .error fault d ∧ Marks buffer next d := by
  have hresult := hsame w c h
  rw [hwords] at hresult
  generalize reader c = read at hresult
  cases hresult with
  | error hnext => exact ⟨_, _, rfl, rfl, hnext⟩

end Simulates

theorem marks_ofBytes (buffer : Bytes) : Marks buffer (.ofBytes buffer) (.ofBytes buffer) :=
  ⟨rfl, Cursor.ext rfl rfl, Nat.zero_le _⟩

theorem Marks.position_eq (h : Marks buffer w c) : w.position.toNat = c.position := by
  rw [h.cursor_eq]
  rfl

theorem Marks.inside (h : Marks buffer w c) : c.position ≤ buffer.length :=
  h.position_eq ▸ h.position_le

theorem Marks.remaining_eq (h : Marks buffer w c) : c.remaining = buffer.length - c.position := by
  rw [h.cursor_eq]
  exact List.length_drop

section Short

variable (hbuffer : buffer.length < 2 ^ 64)
include hbuffer

theorem Marks.toNat_length (h : Marks buffer w c) : w.length.toNat = buffer.length := by
  rw [length, h.buffer_eq, UInt64.toNat_ofNat', Nat.mod_eq_of_lt hbuffer]

/-- What is left can be computed. -/
theorem Marks.remaining (h : Marks buffer w c) :
    ∃ left, remaining w = .ok left w ∧ left.toNat = c.remaining := by
  have hlength := h.toNat_length hbuffer
  have hle : w.position ≤ w.length := by
    rw [UInt64.le_iff_toNat_le, hlength]
    exact h.position_le
  refine ⟨w.length - w.position, by rw [WordCursor.remaining, if_pos hle], ?_⟩
  rw [UInt64.toNat_sub_of_le _ _ hle, hlength, h.position_eq, h.remaining_eq]

/-- A sum with a length that is left can be computed. -/
theorem Marks.advance (h : Marks buffer w c) (hn : n.toNat ≤ c.remaining) :
    ∃ next, advance n w = .ok () next ∧ Marks buffer next (c.advance n.toNat hn) := by
  have hsum : w.position.toNat + n.toNat ≤ w.length.toNat := by
    have hle := h.inside
    rw [h.toNat_length hbuffer, h.position_eq]
    rw [h.remaining_eq] at hn
    omega
  have hadvance : WordCursor.advance n w = .ok () { w with position := w.position + n } := by
    rw [WordCursor.advance, if_pos hsum]
  obtain ⟨-, hposition, hle⟩ := position_of_advance hadvance
  refine ⟨_, hadvance, h.buffer_eq, ?_, h.buffer_eq ▸ hle⟩
  rw [hposition]
  obtain rfl := h.cursor_eq
  exact Bytes.advance_cursorAt hn

theorem Marks.require_of_le (h : Marks buffer w c) (hn : n.toNat ≤ c.remaining) :
    require n w = .ok () w := by
  obtain ⟨left, hleft, hcount⟩ := h.remaining hbuffer
  rw [require, bind_of_ok hleft, if_pos (UInt64.le_iff_toNat_le.mpr (hcount ▸ hn))]
  rfl

theorem Marks.require_of_lt (h : Marks buffer w c) (hn : c.remaining < n.toNat) :
    require n w = .error (.fault .endOfStream) w := by
  obtain ⟨left, hleft, hcount⟩ := h.remaining hbuffer
  have hlt : ¬ n ≤ left := by
    rw [UInt64.le_iff_toNat_le]
    omega
  rw [require, bind_of_ok hleft, if_neg hlt]
  rfl

theorem simulates_require (n : UInt64) : Simulates buffer (require n) (Cursor.require n.toNat) := by
  intro w c h
  rcases Nat.lt_or_ge c.remaining n.toNat with hn | hn
  · rw [h.require_of_lt hbuffer hn, Cursor.require_of_lt hn]
    exact .error h
  · rw [h.require_of_le hbuffer hn, Cursor.require_of_le hn]
    exact .ok h

theorem simulates_skip (n : UInt64) : Simulates buffer (skip n) (Cursor.skip n.toNat) := by
  intro w c h
  rcases Nat.lt_or_ge c.remaining n.toNat with hn | hn
  · rw [skip, bind_of_error (h.require_of_lt hbuffer hn), Cursor.skip_of_lt hn]
    exact .error h
  · obtain ⟨next, hadvance, hnext⟩ := h.advance hbuffer hn
    rw [skip, bind_of_ok (h.require_of_le hbuffer hn), hadvance, Cursor.skip_of_le hn]
    exact .ok hnext

theorem simulates_readBytes (n : UInt64) :
    Simulates buffer (readBytes n) (Cursor.readBytes n.toNat) := by
  intro w c h
  rcases Nat.lt_or_ge c.remaining n.toNat with hn | hn
  · rw [readBytes, bind_of_error (h.require_of_lt hbuffer hn), Cursor.readBytes_of_lt hn]
    exact .error h
  · obtain ⟨next, hadvance, hnext⟩ := h.advance hbuffer hn
    have hslice : (w.buffer.take next.position.toNat).drop w.position.toNat =
        c.unread.take n.toNat := by
      obtain ⟨-, hposition, -⟩ := position_of_advance hadvance
      rw [List.drop_take, hposition, Nat.add_sub_cancel_left, h.buffer_eq, h.cursor_eq]
      rfl
    rw [readBytes, bind_of_ok (h.require_of_le hbuffer hn), bind_get, bind_of_ok hadvance, bind_get,
      hslice, Cursor.readBytes_of_le hn]
    exact .ok hnext

/-- As many bytes come as were asked for, so the second look finds nothing wrong. -/
theorem simulates_readArray (n : UInt64) :
    Simulates buffer (readArray n) (Cursor.readBytes n.toNat) := by
  intro w c h
  cases hwords : readBytes n w with
  | ok bytes next =>
    obtain ⟨d, hread, hnext⟩ := (simulates_readBytes hbuffer n).of_ok h hwords
    have hlength := (Cursor.readBytes_eq_ok_iff.mp hread).2
    rw [readArray, bind_of_ok hwords, if_pos hlength, hread]
    exact .ok hnext
  | error stop next =>
    obtain ⟨fault, d, rfl, hread, hnext⟩ := (simulates_readBytes hbuffer n).of_error h hwords
    rw [readArray, bind_of_error hwords, hread]
    exact .error hnext

theorem simulates_readByte : Simulates buffer readByte Cursor.readByte := by
  intro w c h
  have hhead : w.buffer[w.position.toNat]? = c.unread.head? := by
    rw [h.cursor_eq, h.buffer_eq]
    exact List.head?_drop.symm
  rw [readByte, bind_get, hhead, Cursor.readByte_eq]
  cases hunread : c.unread with
  | nil =>
    rw [Cursor.readBytes_of_lt (by simp [← c.unread_length, hunread])]
    exact .error h
  | cons b rest =>
    have hn : 1 ≤ c.remaining := Cursor.one_le_remaining hunread
    obtain ⟨next, hadvance, hnext⟩ := h.advance hbuffer (n := 1) hn
    dsimp only [List.head?_cons]
    rw [bind_of_ok hadvance, Cursor.readBytes_of_le hn, hunread]
    exact .ok hnext

/-- Each turn of the loop reads a byte. -/
theorem sameResult_readGroups {tally : Varint.Tally} (h : Marks buffer w c) :
    SameResult buffer (readGroups tally w) (Cursor.readGroups tally c c.unread rfl) := by
  rw [Cursor.readGroups_eq]
  fun_induction readGroups tally w generalizing c with
  | case1 tally w b next hword hmore ih =>
    obtain ⟨d, hread, hnext⟩ := (simulates_readByte hbuffer).of_ok h hword
    simp only [hread, if_pos hmore]
    rw [Cursor.readGroups_eq]
    exact ih hnext
  | case2 tally w b next hword hlast =>
    obtain ⟨d, hread, hnext⟩ := (simulates_readByte hbuffer).of_ok h hword
    simp only [hread, if_neg hlast]
    exact .ok hnext
  | case3 tally w stop next hword =>
    obtain ⟨fault, d, rfl, hread, hnext⟩ := (simulates_readByte hbuffer).of_error h hword
    simp only [hread]
    exact .error hnext

theorem simulates_readVarint : Simulates buffer readVarint Cursor.readVarint :=
  fun _ _ h => sameResult_readGroups hbuffer h

theorem simulates_readKey : Simulates buffer readKey Cursor.readKey := by
  intro w c h
  rw [Cursor.readKey]
  cases hwords : readVarint w with
  | ok word next =>
    obtain ⟨d, hread, hnext⟩ := (simulates_readVarint hbuffer).of_ok h hwords
    rw [readKey, bind_of_ok hwords, hread]
    dsimp only
    cases Key.unpack word.value with
    | ok key => exact .ok hnext
    | error fault => exact .error hnext
  | error stop next =>
    obtain ⟨fault, d, rfl, hread, hnext⟩ := (simulates_readVarint hbuffer).of_error h hwords
    rw [readKey, bind_of_error hwords, hread]
    exact .error hnext

end Short

theorem Simulates.map {words : WordReader α} {reader : Reader α}
    (hsame : Simulates buffer words reader) (f : α → β) :
    Simulates buffer (f <$> words) (f <$> reader) := by
  intro w c h
  have hresult := hsame w c h
  show SameResult buffer (EStateM.map f words w) (EStateM.map f reader c)
  rw [EStateM.map, EStateM.map]
  generalize words w = before at hresult
  generalize reader c = read at hresult
  cases hresult with
  | ok hnext => exact .ok hnext
  | error hnext => exact .error hnext

end WordCursor

/-- One of the ways to go on from a position. -/
inductive ReadOp where
  | byte
  | bytes (n : UInt64)
  | array (n : UInt64)
  | skip (n : UInt64)
  /-- Nothing is read; it is only asked whether so many bytes are left. -/
  | check (n : UInt64)
  | varint
  | key

/-- What is read. -/
inductive ReadAnswer where
  | bytes (bytes : Bytes)
  | number (number : Varint)
  | key (key : Key)
  | done

namespace ReadOp

variable {buffer : Bytes} {w : WordCursor} {c : Cursor}

/-- What comes of an operation. -/
def run : ReadOp → Reader ReadAnswer
  | byte => (fun b => .bytes [b]) <$> Cursor.readByte
  | bytes n | array n => .bytes <$> Cursor.readBytes n.toNat
  | skip n => (fun _ => .done) <$> Cursor.skip n.toNat
  | check n => (fun _ => .done) <$> Cursor.require n.toNat
  | varint => .number <$> Cursor.readVarint
  | key => .key <$> Cursor.readKey

/-- What comes of it where the position is a word. -/
def inWords : ReadOp → WordReader ReadAnswer
  | byte => (fun b => .bytes [b]) <$> WordCursor.readByte
  | bytes n => .bytes <$> WordCursor.readBytes n
  | array n => .bytes <$> WordCursor.readArray n
  | skip n => (fun _ => .done) <$> WordCursor.skip n
  | check n => (fun _ => .done) <$> WordCursor.require n
  | varint => .number <$> WordCursor.readVarint
  | key => .key <$> WordCursor.readKey

/-- Where the operations lead, whatever comes of each. -/
def after {ε σ : Type} (step : ReadOp → EStateM ε σ ReadAnswer) (ops : List ReadOp) (start : σ) :
    σ :=
  ops.foldl (fun state op => stateAfter (step op state)) start

/-- The length that an operation is about, if it is given. -/
def length? : ReadOp → Option Nat
  | byte => some 1
  | bytes n | array n | skip n | check n => some n.toNat
  | varint | key => none

/-- What an operation makes of the bytes that come next. -/
def answer : ReadOp → Bytes → ReadAnswer
  | byte, next | bytes _, next | array _, next => .bytes next
  | _, _ => .done

/-- How far an operation about so many bytes moves on. -/
def reach : ReadOp → Nat → Nat
  | check _, _ => 0
  | _, n => n

theorem simulates (hbuffer : buffer.length < 2 ^ 64) (op : ReadOp) :
    WordCursor.Simulates buffer op.inWords op.run := by
  cases op with
  | byte => exact (WordCursor.simulates_readByte hbuffer).map _
  | bytes n => exact (WordCursor.simulates_readBytes hbuffer n).map _
  | array n => exact (WordCursor.simulates_readArray hbuffer n).map _
  | skip n => exact (WordCursor.simulates_skip hbuffer n).map _
  | check n => exact (WordCursor.simulates_require hbuffer n).map _
  | varint => exact (WordCursor.simulates_readVarint hbuffer).map _
  | key => exact (WordCursor.simulates_readKey hbuffer).map _

theorem marks_after (hbuffer : buffer.length < 2 ^ 64) (h : WordCursor.Marks buffer w c)
    (ops : List ReadOp) : WordCursor.Marks buffer (after inWords ops w) (after run ops c) := by
  induction ops generalizing w c with
  | nil => exact h
  | cons op ops ih => exact ih (simulates hbuffer op w c h).marks

theorem forward_run (op : ReadOp) : op.run.Forward := by
  cases op with
  | byte => exact Cursor.forward_readByte.map _
  | bytes n | array n => exact (Cursor.forward_readBytes n.toNat).map _
  | skip n => exact (Cursor.forward_skip n.toNat).map _
  | check n => exact (Cursor.forward_require n.toNat).map _
  | varint => exact Cursor.forward_readVarint.map _
  | key => exact Cursor.forward_readKey.map _

/-- An operation about no more bytes than are left has the next ones. -/
theorem run_of_le {op : ReadOp} {n offset : Nat} (hn : op.length? = some n)
    (h : n ≤ (buffer.cursorAt offset).remaining) : op.run (buffer.cursorAt offset) =
      .ok (op.answer ((buffer.drop offset).take n)) (buffer.cursorAt (offset + op.reach n)) := by
  cases op with
  | byte =>
    cases hn
    obtain ⟨b, hb, hread⟩ := Cursor.readByte_of_le h
    rw [run, map_of_ok hread, hb, Bytes.advance_cursorAt]
    rfl
  | bytes | array =>
    cases hn
    rw [run, map_of_ok (Cursor.readBytes_of_le h), Bytes.advance_cursorAt]
    rfl
  | skip =>
    cases hn
    rw [run, map_of_ok (Cursor.skip_of_le h), Bytes.advance_cursorAt]
    rfl
  | check =>
    cases hn
    rw [run, map_of_ok (Cursor.require_of_le h)]
    rfl
  | varint | key => cases hn

theorem run_of_lt {op : ReadOp} {n : Nat} (hn : op.length? = some n) (h : c.remaining < n) :
    op.run c = .error .endOfStream c := by
  cases op with
  | byte =>
    cases hn
    exact map_of_error (by rw [Cursor.readByte_eq, Cursor.readBytes_of_lt h])
  | bytes | array =>
    cases hn
    exact map_of_error (Cursor.readBytes_of_lt h)
  | skip =>
    cases hn
    exact map_of_error (Cursor.skip_of_lt h)
  | check =>
    cases hn
    exact map_of_error (Cursor.require_of_lt h)
  | varint | key => cases hn

end ReadOp

open ReadOp WordCursor

/-- **Reads stay inside the buffer.**  Take a buffer whose length fits into a word and do any
operations on it, with any lengths, each where the one before it stopped or broke off.  Then the
position is inside the buffer, and the bytes from there on are what is left.  So what is left can be
computed in words, and whatever is done next comes out in words as it should, with no difference
and no sum out of range.  The position does not go back and stays inside.  An operation about a
given length succeeds just if so many bytes are left; it has exactly the next bytes and moves on
behind them (a check stays), and if it fails, the position is where it was. -/
theorem reads_inside (buffer : Bytes) (hbuffer : buffer.length < 2 ^ 64) (ops : List ReadOp) :
    let w := after inWords ops (.ofBytes buffer)
    let c := after run ops (.ofBytes buffer)
    (c.position ≤ buffer.length ∧ c.remaining = buffer.length - c.position ∧
      c.unread = buffer.drop c.position) ∧
    (w.buffer = buffer ∧ w.position.toNat = c.position ∧
      ∃ left, remaining w = .ok left w ∧ left.toNat = buffer.length - c.position) ∧
    ∀ op : ReadOp,
      SameResult buffer (op.inWords w) (op.run c) ∧
      c.position ≤ (stateAfter (op.run c)).position ∧
      (stateAfter (op.run c)).position ≤ buffer.length ∧
      ∀ n, op.length? = some n →
        (n ≤ c.remaining → op.run c =
          .ok (op.answer ((buffer.drop c.position).take n))
            (buffer.cursorAt (c.position + op.reach n))) ∧
        (c.remaining < n → op.run c = .error .endOfStream c) := by
  intro w c
  have hmarks : Marks buffer w c := marks_after hbuffer (marks_ofBytes buffer) ops
  have hc : buffer.cursorAt c.position = c := by rw [← hmarks.position_eq, ← hmarks.cursor_eq]
  refine ⟨⟨hmarks.inside, hmarks.remaining_eq, ?_⟩,
    ⟨hmarks.buffer_eq, hmarks.position_eq, ?_⟩, fun op => ?_⟩
  · exact congrArg Cursor.unread hc.symm
  · exact hmarks.remaining_eq ▸ hmarks.remaining hbuffer
  · have hsame := simulates hbuffer op w c hmarks
    refine ⟨hsame, (forward_run op c).position_le, hsame.marks.inside, fun n hn =>
      ⟨fun hfits => ?_, run_of_lt hn⟩⟩
    have hrun := run_of_le hn (hc.symm ▸ hfits)
    rwa [hc] at hrun

/-- The highest length there is leaves the cursor where it is, at the start and behind a number that
was cut off by the end of the buffer. -/
theorem reads_inside_cut_off :
    let buffer : Bytes := [0x08, 0x96, 0x81]
    let ops : List ReadOp := [.skip 0xffffffffffffffff, .key, .varint]
    let w := after inWords ops (.ofBytes buffer)
    let c := after run ops (.ofBytes buffer)
    buffer.length < 2 ^ 64 ∧ c.position = 3 ∧ w.position.toNat = 3 ∧
      run (.bytes 0xffffffffffffffff) c = .error .endOfStream c ∧
      (∃ next, inWords (.bytes 0xffffffffffffffff) w = .error (.fault .endOfStream) next ∧
        next.position.toNat = 3) ∧
      run (.check 0) c = .ok .done (buffer.cursorAt 3) := by
  intro buffer ops w c
  have hbuffer : buffer.length < 2 ^ 64 := by decide
  obtain ⟨⟨-, hremaining, -⟩, ⟨-, hposition, -⟩, hnext⟩ := reads_inside buffer hbuffer ops
  have hc : c.position = 3 := by cbv
  have hnone : c.remaining = 0 := by
    rw [show c.remaining = buffer.length - c.position from hremaining, hc]
    rfl
  obtain ⟨hsame, -, -, hlong⟩ := hnext (.bytes 0xffffffffffffffff)
  obtain ⟨-, -, -, hcheck⟩ := hnext (.check 0)
  have hrun : run (.bytes 0xffffffffffffffff) c = .error .endOfStream c :=
    (hlong _ rfl).2 (by rw [show _ = 0 from hnone]; decide)
  have hstay : run (.check 0) c = .ok .done (buffer.cursorAt (c.position + 0)) :=
    (hcheck 0 rfl).1 (Nat.zero_le _)
  refine ⟨hbuffer, hc, hposition.trans hc, hrun, ?_, hc ▸ hstay⟩
  change SameResult buffer (inWords (.bytes 0xffffffffffffffff) w)
    (run (.bytes 0xffffffffffffffff) c) at hsame
  generalize inWords (.bytes 0xffffffffffffffff) w = words at hsame ⊢
  rw [hrun] at hsame
  cases hsame with
  | error hmarks => exact ⟨_, rfl, hmarks.position_eq.trans hc⟩

end FieldSieve
