/-!
# JSON text

Values are written without spaces, object keys in the order given.  A string escapes the quote, the
backslash and the characters below the space, and nothing else: `U+007F` and everything beyond it
stand as they are.

The functions below put the text of a value together from the texts of its parts.
-/
namespace FieldSieve.Text.Json

/-- A character as it stands in a string. -/
def escape (c : Char) : List Char :=
  match c with
  | '"' => ['\\', '"']
  | '\\' => ['\\', '\\']
  | '\x08' => ['\\', 'b']
  | '\t' => ['\\', 't']
  | '\n' => ['\\', 'n']
  | '\x0c' => ['\\', 'f']
  | '\r' => ['\\', 'r']
  | c =>
    if c.toNat < 0x20 then
      ['\\', 'u', '0', '0', Nat.digitChar (c.toNat / 16), Nat.digitChar (c.toNat % 16)]
    else [c]

/-- A string. -/
def string (text : String) : String :=
  String.ofList ('"' :: text.toList.flatMap escape ++ ['"'])

/-- A whole number. -/
def number (n : Nat) : String := n.repr

/-- A number, or null in its absence. -/
def numberOrNull : Option Nat → String
  | some n => number n
  | none => "null"

/-- An array of values. -/
def array (values : List String) : String :=
  "[" ++ String.intercalate "," values ++ "]"

/-- An object with these keys and values. -/
def object (members : List (String × String)) : String :=
  "\x7b" ++ String.intercalate "," (members.map fun (key, value) => string key ++ ":" ++ value)
    ++ "\x7d"

example : string "a\"\n\x01\x7f" = "\"a\\\"\\n\\u0001\x7f\"" := by cbv
example : object [("n", number 5), ("m", numberOrNull none)] =
    "\x7b\"n\":5,\"m\":null\x7d" := by cbv

end FieldSieve.Text.Json
