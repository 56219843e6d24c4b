import FieldSieve.Bytes

/-!
# UTF-8

The first byte of a character tells how many bytes follow it and bounds the second one, which keeps
out overlong forms, surrogates and numbers past the last code point; every later byte is `80` to
`bf`.  Where a byte does not fit, the bytes of the broken character that did fit are one piece, and
reading starts afresh at the byte that did not: that is how a byte string falls into pieces, each a
character or a broken run.
-/
namespace FieldSieve.Text.Utf8

/-- A piece of a byte string. -/
inductive Piece where
  /-- A whole character. -/
  | char (c : Char)
  /-- The longest start of a character that something else interrupts, or a byte that starts
  none. -/
  | broken (bytes : Bytes)
  deriving DecidableEq, Repr

/-- What a first byte announces: how many bytes follow, and the bounds of the first of them. -/
def lead? (b : UInt8) : Option (Nat × UInt8 × UInt8) :=
  if b ≤ 0x7f then some (0, 0x80, 0xbf)
  else if b < 0xc2 then none
  else if b ≤ 0xdf then some (1, 0x80, 0xbf)
  else if b = 0xe0 then some (2, 0xa0, 0xbf)
  else if b = 0xed then some (2, 0x80, 0x9f)
  else if b ≤ 0xef then some (2, 0x80, 0xbf)
  else if b = 0xf0 then some (3, 0x90, 0xbf)
  else if b ≤ 0xf3 then some (3, 0x80, 0xbf)
  else if b = 0xf4 then some (3, 0x80, 0x8f)
  else none

/-- The bytes of a character that are there: up to `count`, the first of them between the bounds. -/
def following : Nat → UInt8 → UInt8 → Bytes → Bytes
  | count + 1, low, high, b :: rest =>
    if low ≤ b && b ≤ high then b :: following count 0x80 0xbf rest else []
  | _, _, _, _ => []

/-- The code point spread over a first byte and the bytes that follow it. -/
def codePoint (b : UInt8) (rest : Bytes) : Nat :=
  let high := match rest.length with
    | 0 => b.toNat
    | 1 => b.toNat % 0x20
    | 2 => b.toNat % 0x10
    | _ => b.toNat % 0x08
  rest.foldl (fun n b => 64 * n + b.toNat % 64) high

/-- The first piece, and how many bytes it takes after the first. -/
def piece (b : UInt8) (rest : Bytes) : Piece × Nat :=
  match lead? b with
  | none => (.broken [b], 0)
  | some (count, low, high) =>
    let more := following count low high rest
    if more.length = count then (.char (Char.ofNat (codePoint b more)), count)
    else (.broken (b :: more), more.length)

/-- What is left after a piece is shorter. -/
theorem length_drop_lt (b : UInt8) (rest : Bytes) (taken : Nat) :
    (rest.drop taken).length < (b :: rest).length := by
  rw [List.length_drop, List.length_cons]
  omega

/-- The pieces of a byte string. -/
def pieces : Bytes → List Piece
  | [] => []
  | b :: rest =>
    let (first, taken) := piece b rest
    first :: pieces (rest.drop taken)
termination_by bytes => bytes.length
decreasing_by exact length_drop_lt b rest _

/-- The text with a replacement character for every broken run. -/
def decodeLossy (bytes : Bytes) : String :=
  String.ofList <| (pieces bytes).map fun
    | .char c => c
    | .broken _ => '\ufffd'

/-- The text, if no run is broken. -/
def decode? (bytes : Bytes) : Option String :=
  String.fromUTF8? ⟨bytes.toArray⟩

/-- The bytes of a text. -/
def encode (text : String) : Bytes :=
  text.toUTF8.toList

/-- A character broken off is replaced once, and what broke it is read afresh. -/
example : decodeLossy [0x61, 0xe2, 0x82, 0x62, 0xff, 0xff] = "a\ufffdb\ufffd\ufffd" := by cbv

end FieldSieve.Text.Utf8
