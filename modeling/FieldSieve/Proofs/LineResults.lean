import FieldSieve.Extraction

/-!
# Every line has a result of its own

Blank lines are counted and left out, lines whose digits are not in order take no part in the batch,
and the results come back without any name on them.  They find their lines again because there is
one for each message and both are in order: the result that is next is that of the next line with a
message (`Extraction.scanLines_eq_map`).  So a report depends on its line alone, no other line can
shift it, and the results never run out.
-/
namespace FieldSieve

namespace InputLine

/-- The lines of a text that are not blank, each with its number. -/
def occupied (text : String) : List (List Char × Nat) :=
  ((split text.toList).zipIdx 1).filter fun (line, _) => line.any fun c => !Text.isBlank c

/-- The message that the digits on a line stand for. -/
def readDigits (line : List Char) : Except Text.Hex.Error Bytes :=
  Text.Hex.decode (String.ofList (stripMark (Text.trim line)))

theorem ofLine?_eq (line : List Char) (number : Nat) : ofLine? line number =
    if line.any fun c => !Text.isBlank c then some ⟨number, readDigits line⟩ else none := by
  split
  · next h =>
    unfold ofLine?
    split
    · next htrim =>
      obtain ⟨c, hmem, hc⟩ := List.any_eq_true.mp h
      simp [Text.trim_eq_nil_iff.mp htrim c hmem] at hc
    · rfl
  · next h =>
    refine ofLine?_eq_none_iff.mpr fun c hc => ?_
    simpa using fun hblank => h (List.any_eq_true.mpr ⟨c, hc, hblank⟩)

/-- What is read of a text are its lines that are not blank. -/
theorem ofText_eq_map (text : String) : ofText text =
    (occupied text).map fun (line, number) => ⟨number, readDigits line⟩ := by
  rw [occupied, ← List.filterMap_eq_map, List.filterMap_filter]
  exact congrArg (List.filterMap · _) (funext fun _ => ofLine?_eq _ _)

end InputLine

namespace Extraction

variable {σ : Type}

/-- The result of a line by itself: of a scan of its message without limits, if there is one. -/
def resultOf (P : Policy σ) (fresh : σ) : Except Text.Hex.Error Bytes → Except LineError σ
  | .error error => .error (.invalidHex error)
  | .ok bytes => match (scan P bytes fresh).result with
    | .error error => .error (.undecodable error)
    | .ok () => .ok (scan P bytes fresh).state

theorem scanLines_singleton (P : Policy σ) (fresh : σ) (line : InputLine) :
    scanLines P fresh [line] = [(line.number, resultOf P fresh line.bytes)] := by
  obtain ⟨number, error | bytes⟩ := line
  · rfl
  · show [(number, Except.mapError LineError.undecodable
      ((scan P bytes fresh).result.map fun _ => (scan P bytes fresh).state))] = _
    rw [resultOf]
    cases (scan P bytes fresh).result <;> rfl

/-- A batch gives each line its own result. -/
theorem scanLines_eq_map (P : Policy σ) (fresh : σ) (lines : List InputLine) :
    scanLines P fresh lines =
      lines.map fun line => (line.number, resultOf P fresh line.bytes) := by
  induction lines with
  | nil => rfl
  | cons line lines ih => rw [scanLines_cons, scanLines_singleton, ih]; rfl

/-- A state is that of a scan. -/
theorem resultOf_eq_ok {P : Policy σ} {fresh state : σ} {bytes : Except Text.Hex.Error Bytes}
    (h : resultOf P fresh bytes = .ok state) :
    ∃ message, bytes = .ok message ∧ (scan P message fresh).state = state := by
  rcases bytes with error | message
  · cases h
  · rw [resultOf] at h
    split at h <;> cases h
    exact ⟨message, rfl, rfl⟩

/-- The report on a line by itself. -/
def reportOf (render : σ → Report → Report) (number : Nat) : Except LineError σ → Report
  | .error error => { line := number, error := some error.message }
  | .ok state => render state { line := number }

theorem reports_eq_map (P : Policy σ) (fresh : σ) (render : σ → Report → Report)
    (lines : List InputLine) : reports P fresh render lines =
      lines.map fun line => reportOf render line.number (resultOf P fresh line.bytes) := by
  rw [reports, scanLines_eq_map, List.map_map]
  refine List.map_congr_left fun line _ => ?_
  dsimp only [Function.comp_apply]
  cases resultOf P fresh line.bytes <;> rfl

theorem reports_ofText (P : Policy σ) (fresh : σ) (render : σ → Report → Report) (text : String) :
    reports P fresh render (InputLine.ofText text) =
      (InputLine.occupied text).map fun (line, number) =>
        reportOf render number (resultOf P fresh (InputLine.readDigits line)) := by
  rw [reports_eq_map, InputLine.ofText_eq_map, List.map_map]
  rfl

end Extraction

open Extraction

end FieldSieve
