import FieldSieve.Text.Quoted

/-!
# Hexadecimal

Bytes are written as two lower-case digits each, high half first, and read back from digits of
either case.  An odd number of digits is refused before any digit is looked at; after that the
first character that is no digit is the one reported, by its place among the bytes of the text.
-/
namespace FieldSieve.Text.Hex

/-- Why a text is not a row of hexadecimal digits. -/
inductive Error where
  | oddLength
  /-- A byte, taken for the character of the same number, is no digit. -/
  | invalidCharacter (c : Char) (position : Nat)
  deriving DecidableEq, Repr

/-- The cause in words. -/
def Error.message : Error → String
  | oddLength => "Odd number of digits"
  | invalidCharacter c position =>
    "Invalid character " ++ quoteChar c ++ " at position " ++ position.repr

/-- The two digits of a byte. -/
def encodeByte (b : UInt8) : List Char :=
  [Nat.digitChar (b.toNat / 16), Nat.digitChar (b.toNat % 16)]

/-- The digits of a byte string. -/
def encode (bytes : Bytes) : String :=
  String.ofList (bytes.flatMap encodeByte)

/-- The value of a digit of either case. -/
def digit? (b : UInt8) : Option Nat :=
  let n := b.toNat
  if 0x30 ≤ n ∧ n ≤ 0x39 then some (n - 0x30)
  else if 0x61 ≤ n ∧ n ≤ 0x66 then some (n - 0x61 + 10)
  else if 0x41 ≤ n ∧ n ≤ 0x46 then some (n - 0x41 + 10)
  else none

/-- The value of the digit at a position. -/
def digitAt (position : Nat) (b : UInt8) : Except Error Nat :=
  match digit? b with
  | some n => .ok n
  | none => .error (.invalidCharacter (Char.ofNat b.toNat) position)

/-- Reads pairs of digits, the first of them at a position. -/
def decodePairs (position : Nat) : Bytes → Except Error Bytes
  | high :: low :: rest => do
    let high ← digitAt position high
    let low ← digitAt (position + 1) low
    let bytes ← decodePairs (position + 2) rest
    return UInt8.ofNat (16 * high + low) :: bytes
  | _ => .ok []

/-- The bytes that the digits of a text stand for. -/
def decode (text : String) : Except Error Bytes :=
  let digits := Utf8.encode text
  if digits.length % 2 = 1 then .error .oddLength else decodePairs 0 digits

theorem length_flatMap_encodeByte (bytes : Bytes) :
    (bytes.flatMap encodeByte).length = 2 * bytes.length := by
  induction bytes with
  | nil => rfl
  | cons b rest ih =>
    have hb : (encodeByte b).length = 2 := rfl
    rw [List.flatMap_cons, List.length_append, ih, hb, List.length_cons]
    omega

/-- The length is looked at before any digit. -/
example : decode "zzz" = .error .oddLength := by cbv
example : decode "0Fz!" = .error (.invalidCharacter 'z' 2) := by cbv

end FieldSieve.Text.Hex
