import FieldSieve.Capture
import FieldSieve.Fee
import FieldSieve.Text.Hex
import FieldSieve.Text.Json

/-!
# Reports

What was found on a line of input is reported as text or as a JSON object.  The text gives one line
for an error, a fee or the lack of anything, and one line for each field otherwise.  The object
gives whatever there is.

A value is shown as a decimal number if it is an integer, between quotes if it is text without
control characters, and in hexadecimal otherwise.
-/
namespace FieldSieve

namespace CapturedField

/-- The character controls a device: category `Cc`. -/
def isControl (c : Char) : Bool :=
  c.toNat < 0x20 || (0x7f ≤ c.toNat && c.toNat ≤ 0x9f)

/-- The value for a reader. -/
def display (field : CapturedField) : String :=
  match field.integer?, field.text? with
  | some n, _ => n.toNat.repr
  | none, some text =>
    if text.toList.any isControl then "0x" ++ Text.Hex.encode field.value else Text.quote text
  | none, none => "0x" ++ Text.Hex.encode field.value

/-- The path, the type and the value for a reader. -/
def describe (field : CapturedField) : String :=
  field.path.text ++ " " ++ field.wireType.name ++ " " ++ field.display

/-- The field as a JSON object. -/
def json (field : CapturedField) : String :=
  Text.Json.object [("path", Text.Json.string field.path.text),
    ("wire_type", Text.Json.string field.wireType.name),
    ("value", Text.Json.string (Text.Hex.encode field.value))]

end CapturedField

namespace Fee

/-- The fee for a reader. -/
def describe (fee : Fee) : String :=
  let gas := match fee.gasLimit with
    | some gas => " (gas limit " ++ gas.toNat.repr ++ ")"
    | none => ""
  fee.amount ++ " " ++ fee.denom ++ gas

/-- The fee as a JSON object. -/
def json (fee : Fee) : String :=
  Text.Json.object [("denom", Text.Json.string fee.denom), ("amount", Text.Json.string fee.amount),
    ("gas_limit", Text.Json.numberOrNull (fee.gasLimit.map UInt64.toNat))]

end Fee

/-- What was found on a line. -/
structure Report where
  line : Nat
  error : Option String := none
  fee : Option Fee := none
  /-- The fields captured, where fields were looked for. -/
  fields : Option (List CapturedField) := none
  deriving DecidableEq, Repr

namespace Report

/-- What the text says, line by line.  An error comes before a fee and a fee before fields. -/
def findings (report : Report) : List String :=
  match report.error, report.fee, report.fields with
  | some error, _, _ => ["error: " ++ error]
  | none, some fee, _ => ["fee " ++ fee.describe]
  | none, none, none => ["no fee"]
  | none, none, some [] => ["no fields"]
  | none, none, some fields => fields.map CapturedField.describe

/-- The report as lines of text, each with the number of the input line in front. -/
def text (report : Report) : String :=
  String.join (report.findings.map fun finding => report.line.repr ++ ": " ++ finding ++ "\n")

/-- The report as a JSON object. -/
def json (report : Report) : String :=
  let optional {α : Type} (key : String) (value : Option α) (render : α → String) :=
    (value.map fun a => (key, render a)).toList
  Text.Json.object (("line", Text.Json.number report.line)
    :: optional "error" report.error Text.Json.string
    ++ optional "fee" report.fee Fee.json
    ++ optional "fields" report.fields fun fields =>
      Text.Json.array (fields.map CapturedField.json))

theorem findings_ne_nil (report : Report) : report.findings ≠ [] := by
  unfold findings
  split <;> simp_all

/-- Each of the root's fields has a line of its own. -/
example : text ⟨3, none, none, some [⟨.ofList [1], .varint, [0x05]⟩,
      ⟨.ofList [2], .lengthDelimited, [0xff]⟩]⟩ =
    "3: 1 varint 5\n3: 2 length_delimited 0xff\n" := by cbv

example : text ⟨3, none, some ⟨"uatom", "300", some 7⟩, none⟩ =
    "3: fee 300 uatom (gas limit 7)\n" := by cbv

end Report
end FieldSieve
