import FieldSieve.Program

/-!
# Entry point

Reads the arguments and the source of input, and writes the outcome.
-/
namespace FieldSieve.Program

/-- Reads a stream to its end. -/
partial def readStream (stream : IO.FS.Stream) (before : ByteArray) : IO ByteArray := do
  let chunk ← stream.read 65536
  if chunk.isEmpty then return before else readStream stream (before ++ chunk)

/-- Reads all that a source gives. -/
def readSource : Source → IO (Except ReadError Bytes)
  | .standardInput => do
    let bytes ← readStream (← IO.getStdin) .empty
    return .ok bytes.toList
  | .file name => do
    match ← (IO.FS.readBinFile name).toBaseIO with
    | .ok bytes => return .ok bytes.toList
    | .error (.noFileOrDirectory ..) => return .error .notFound
    | .error (.inappropriateType _ code text) =>
      return .error (.system code.toNat "IsADirectory" text)
    | .error error => return .error (.system 0 "Other" (toString error))

end FieldSieve.Program

/-- Runs the program. -/
def main (args : List String) : IO UInt32 := do
  let outcome ← FieldSieve.Program.run "protoscan" (args.map FieldSieve.Text.Utf8.encode)
    FieldSieve.Program.readSource
  IO.print outcome.output
  IO.eprint outcome.errors
  return outcome.status.toUInt32
