import FieldSieve.Scan

/-!
# Batches

The buffers of a batch have nothing to do with one another: each is scanned from a fresh policy
under the same limits, and its result stands at its place.
-/
namespace FieldSieve.Batch

variable {σ : Type}

/-- The policy's last state, or the error that broke the scan off, for each buffer. -/
def scan (P : Policy σ) (fresh : σ) (limits : Limits) (buffers : List Bytes) :
    List (Except DecodeError σ) :=
  buffers.map fun bytes =>
    let run := FieldSieve.scan P bytes fresh limits
    run.result.map fun _ => run.state

/-- The line that a batch leaves in the log. -/
def logEntry (results : List (Except DecodeError σ)) : LogEntry :=
  ⟨.debug, "batch decode complete",
    [("inputs", results.length.repr), ("failed", (results.countP (!·.isOk)).repr)]⟩

@[simp] theorem length_scan (P : Policy σ) (fresh : σ) (limits : Limits) (buffers : List Bytes) :
    (scan P fresh limits buffers).length = buffers.length := by
  simp [scan]

end FieldSieve.Batch
