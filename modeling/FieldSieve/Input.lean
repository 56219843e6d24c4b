import FieldSieve.Text.Blank
import FieldSieve.Text.Hex

/-!
# Input lines

The input is text with one message on a line, in hexadecimal digits.  White space around the digits
and one `0x` or `0X` in front of them are dropped.  Lines are counted from one; a line that is blank
holds no message but is counted all the same.  A carriage return before the line feed is white
space and needs no rule of its own.
-/
namespace FieldSieve

/-- A line that is not blank. -/
structure InputLine where
  number : Nat
  /-- The message, if the digits are in order. -/
  bytes : Except Text.Hex.Error Bytes

namespace InputLine

/-- The lines of a text.  What follows the last line feed is a line unless it is empty. -/
def split (cs : List Char) : List (List Char) :=
  let lines := cs.splitOn '\n'
  if lines.getLast? = some [] then lines.dropLast else lines

/-- The digits without the mark in front of them. -/
def stripMark : List Char → List Char
  | '0' :: 'x' :: digits => digits
  | '0' :: 'X' :: digits => digits
  | digits => digits

/-- The message on a line, unless the line is blank. -/
def ofLine? (line : List Char) (number : Nat) : Option InputLine :=
  match Text.trim line with
  | [] => none
  | digits => some ⟨number, Text.Hex.decode (String.ofList (stripMark digits))⟩

/-- The lines of a text that are not blank. -/
def ofText (text : String) : List InputLine :=
  (split text.toList).zipIdx 1 |>.filterMap fun (line, number) => ofLine? line number

theorem ofLine?_eq_none_iff {line : List Char} {number : Nat} :
    ofLine? line number = none ↔ ∀ c ∈ line, Text.isBlank c := by
  rw [← Text.trim_eq_nil_iff]
  unfold ofLine?
  split <;> simp_all

/-- Blank lines are counted and left out. -/
example : ofText "0801\n \n0X0802\r\n" = [⟨1, .ok [0x08, 0x01]⟩, ⟨3, .ok [0x08, 0x02]⟩] := by cbv

end InputLine
end FieldSieve
