import FieldSieve.Batch
import FieldSieve.Input
import FieldSieve.Report

/-!
# Extraction

The messages on the lines of an input are scanned as one batch, with a fresh policy each.  Lines
whose digits are not in order take no part in it, so the results are brought back to their lines:
each result belongs to the next line that has a message.
-/
namespace FieldSieve

/-- What to extract. -/
inductive Mode where
  /-- The fee of a transaction. -/
  | fee
  /-- The fields at these paths. -/
  | capture (paths : List FieldPath)
  /-- Every field of the root message. -/
  | dump
  deriving DecidableEq, Repr

/-- Why nothing was extracted from a line. -/
inductive LineError where
  /-- Its digits are not in order. -/
  | invalidHex (error : Text.Hex.Error)
  /-- Its message could not be scanned. -/
  | undecodable (error : DecodeError)
  /-- There is no result for its message. -/
  | unscanned
  deriving DecidableEq, Repr

/-- The cause in words. -/
def LineError.message : LineError → String
  | invalidHex error => "invalid hex: " ++ error.message
  | undecodable error => error.message
  | unscanned => "message was not decoded"

namespace Extraction

variable {σ : Type}

/-- The messages among some lines. -/
def messages (lines : List InputLine) : List Bytes :=
  lines.filterMap fun line => line.bytes.toOption

/-- Gives every line its result; the results are those of the lines' messages, in order.  Should
they run out, the lines that are left are told so. -/
def align : List InputLine → List (Except DecodeError σ) → List (Nat × Except LineError σ)
  | [], _ => []
  | ⟨number, .error error⟩ :: lines, results =>
    (number, .error (.invalidHex error)) :: align lines results
  | ⟨number, .ok _⟩ :: lines, result :: results =>
    (number, result.mapError .undecodable) :: align lines results
  | ⟨number, .ok _⟩ :: lines, [] => (number, .error .unscanned) :: align lines []

/-- The policy's last state for every line, or why there is none. -/
def scanLines (P : Policy σ) (fresh : σ) (lines : List InputLine) :
    List (Nat × Except LineError σ) :=
  align lines (Batch.scan P fresh {} (messages lines))

/-- A report for every line: an error, or what is made of the policy's last state. -/
def reports (P : Policy σ) (fresh : σ) (render : σ → Report → Report)
    (lines : List InputLine) : List Report :=
  (scanLines P fresh lines).map fun (number, result) =>
    match result with
    | .error error => { line := number, error := some error.message }
    | .ok state => render state { line := number }

/-- The fees on some lines. -/
def fees : List InputLine → List Report :=
  reports Fee.extractor {} fun draft report => { report with fee := draft.fee? }

/-- The fields in scope on some lines. -/
def fields (scope : Scope) : List InputLine → List Report :=
  reports scope.collector #[] fun captured report => { report with fields := some captured.toList }

end Extraction

/-- The reports on some lines of input. -/
def Mode.reports : Mode → List InputLine → List Report
  | fee => Extraction.fees
  | capture paths => Extraction.fields (.selected (.ofList paths))
  | dump => Extraction.fields .rootFields

namespace Extraction

variable {σ : Type}

/-- With one result for every message, each line is scanned by itself. -/
theorem scanLines_cons (P : Policy σ) (fresh : σ) (line : InputLine) (lines : List InputLine) :
    scanLines P fresh (line :: lines) = scanLines P fresh [line] ++ scanLines P fresh lines := by
  obtain ⟨number, bytes⟩ := line
  cases bytes <;> simp [scanLines, messages, Batch.scan, align, Except.toOption]

/-- Every line gets exactly one result, under its own number. -/
theorem map_fst_scanLines (P : Policy σ) (fresh : σ) (lines : List InputLine) :
    (scanLines P fresh lines).map Prod.fst = lines.map InputLine.number := by
  induction lines with
  | nil => rfl
  | cons line lines ih =>
    rw [scanLines_cons, List.map_append, ih]
    obtain ⟨number, bytes⟩ := line
    cases bytes <;> simp [scanLines, messages, Batch.scan, align, Except.toOption]

end Extraction
end FieldSieve
