import FieldSieve.Text.DefaultIgnorable
import FieldSieve.Text.GraphemeExtend
import FieldSieve.Text.Printable
import FieldSieve.Text.Utf8

/-!
# Quoted text

A quoted form shows a text so that no two texts look alike and none breaks the line it stands on.
The backslash, the null character, tab, line feed and carriage return have short escapes; a
character that could not be seen, or that would be drawn onto its neighbour, is written as its code
point; all others stand as they are.  Of the two quotation marks only the one around the form is
escaped.

Bytes that need not be text are quoted in the same way, and what is broken in them is written byte
by byte.
-/
namespace FieldSieve.Text

/-- The character cannot be seen for what it is: it is not printable, shows nothing, or is drawn
onto its neighbour. -/
def isHidden (c : Char) : Bool :=
  !isPrintable c || isDefaultIgnorable c || isCombining c

/-- A character by its code point, in hexadecimal without leading zeros. -/
def escapeCodePoint (c : Char) : List Char :=
  ['\\', 'u', '\x7b'] ++ Nat.toDigits 16 c.toNat ++ ['\x7d']

/-- A character as it stands between two quotation marks. -/
def escape (mark c : Char) : List Char :=
  if c = '\x00' then ['\\', '0']
  else if c = '\t' then ['\\', 't']
  else if c = '\n' then ['\\', 'n']
  else if c = '\r' then ['\\', 'r']
  else if c = '\\' ∨ c = mark then ['\\', c]
  else if isHidden c then escapeCodePoint c
  else [c]

/-- The quoted form of a text. -/
def quote (text : String) : String :=
  String.ofList ('"' :: text.toList.flatMap (escape '"') ++ ['"'])

/-- The quoted form of a single character. -/
def quoteChar (c : Char) : String :=
  String.ofList ('\'' :: escape '\'' c ++ ['\''])

/-- A byte in two hexadecimal digits, in capitals. -/
def escapeByte (b : UInt8) : List Char :=
  let digit (n : Nat) := (Nat.digitChar n).toUpper
  ['\\', 'x', digit (b.toNat / 16), digit (b.toNat % 16)]

/-- The quoted form of bytes that should be a text. -/
def quoteBytes (bytes : Bytes) : String :=
  let body := (Utf8.pieces bytes).flatMap fun
    | .char c => escape '"' c
    | .broken bytes => bytes.flatMap escapeByte
  String.ofList ('"' :: body ++ ['"'])

/-- Letters and digits stand as they are. -/
example : quote "Mix 300" = "\"Mix 300\"" := by decide +kernel

/-- A filler shows nothing and is escaped; a half-width sound mark is seen and stands. -/
example : quote "\u3164\uff76\uff9e" = "\"\\u\x7b3164\x7d\uff76\uff9e\"" := by decide +kernel

example : quote "a\"b\\c'\n\x7f" = "\"a\\\"b\\\\c'\\n\\u\x7b7f\x7d\"" := by decide +kernel

/-- The mark that is not around the form stands as it is. -/
example : quoteBytes [0x27, 0xe2, 0x82, 0x27] = "\"'\\xE2\\x82'\"" := by decide +kernel
example : quoteChar '\'' = "'\\''" := by decide +kernel

end FieldSieve.Text
