/-!
# What goes wrong in a scan

A `Fault` is a cause and nothing more.  Where it struck, the offset of the field being read and the
path of the frames then open, is added once, when it leaves the scan, and gives a `DecodeError`.
-/
namespace FieldSieve

/-- Why a message could not be decoded. -/
inductive Fault where
  /-- The buffer ended inside a key, a number or a declared payload. -/
  | endOfStream
  /-- A key carried a wire type that no value can follow: a group marker or an unassigned number. -/
  | unsupportedWireType (id : Nat)
  /-- A field ran past the end of the message around it. -/
  | messageOverrun
  /-- Fields were nested more deeply than the scan allows. -/
  | depthLimitExceeded (limit : Nat)
  /-- The buffer was longer than the scan allows. -/
  | inputTooLarge (length limit : Nat)
  /-- The open frames were used in a way that a scan never uses them. -/
  | brokenNesting (detail : String)
  deriving DecidableEq, Repr

namespace Fault

/-- The cause in words. -/
def message : Fault → String
  | endOfStream => "unexpected end of stream"
  | unsupportedWireType id => "unsupported wire type " ++ toString id
  | messageOverrun => "field extends past the end of its enclosing message"
  | depthLimitExceeded limit => "message nesting exceeds limit of " ++ toString limit
  | inputTooLarge length limit =>
    "input of " ++ toString length ++ " bytes exceeds limit of " ++ toString limit ++ " bytes"
  | brokenNesting detail => "parser stack invariant violated: " ++ detail

end Fault

/-- A fault and its place. -/
structure DecodeError where
  /-- What went wrong. -/
  fault : Fault
  /-- The first byte of the field being read. -/
  offset : Nat
  /-- The numbers of the open frames, as path text. -/
  path : String
  deriving DecidableEq, Repr

/-- The fault with the place where it struck. -/
def Fault.located (fault : Fault) (offset : Nat) (path : String) : DecodeError :=
  ⟨fault, offset, path⟩

/-- A fault outside any scan stands at the start of the buffer, with no frame open. -/
def Fault.unlocated (fault : Fault) : DecodeError :=
  fault.located 0 ""

namespace DecodeError

/-- A later place replaces the earlier one. -/
def relocate (error : DecodeError) (offset : Nat) (path : String) : DecodeError :=
  error.fault.located offset path

/-- The whole report.  The path stands between quotes as it is. -/
def message (error : DecodeError) : String :=
  "decode failed at offset " ++ toString error.offset ++ " (path \"" ++ error.path ++ "\"): "
    ++ error.fault.message

end DecodeError
end FieldSieve
