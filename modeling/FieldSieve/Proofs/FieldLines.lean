import FieldSieve.Proofs.CollectedFields
import FieldSieve.Proofs.DeliveredForms
import FieldSieve.Proofs.NumberedLines

/-!
# Fields on lines of their own

A line about a field names its path, its type and its value, with a space behind the first two.  No
path and no type holds a space, so the parts can be told apart.  The type says how the value is to
be read: in decimal, or as a payload, whose first character tells text from hexadecimal digits.  So
the line determines the field, provided that its value has the form in which values of its type are
delivered (`CapturedField.eq_of_describe_eq`); a collector keeps no others
(`Scope.deliverable_of_scan`).

All three ways to show a value keep to their line, so fields cannot run into one another either.
-/
namespace FieldSieve

open Text

namespace WireType

theorem space_notMem_name (wireType : WireType) : ' ' ∉ wireType.name.toList := by
  cases wireType <;> decide

theorem name_inj {wireType other : WireType} (h : wireType.name = other.name) :
    wireType = other := by
  revert h
  cases wireType <;> cases other <;> decide

end WireType

namespace FieldPath

theorem space_notMem_text (path : FieldPath) : ' ' ∉ path.text.toList := fun h =>
  absurd (not_isBlank_of_mem_text h) (by decide)

end FieldPath

namespace CapturedField

variable {field other : CapturedField}

theorem display_of_isScalar (h : field.wireType.isScalar = true) :
    field.display = field.value.word.toNat.repr := by
  rw [display, integer?, if_pos h]

/-- A payload is shown as text or in hexadecimal. -/
theorem display_of_lengthDelimited (h : field.wireType = .lengthDelimited) :
    (∃ text, Utf8.decode? field.value = some text ∧ field.display = quote text) ∨
      field.display = "0x" ++ Hex.encode field.value := by
  have hnumber : field.integer? = none := by rw [integer?, h]; rfl
  have htext : field.text? = Utf8.decode? field.value := if_pos h
  rw [display, hnumber, htext]
  rcases hdecode : Utf8.decode? field.value with _ | text
  · exact .inr rfl
  · by_cases hcontrol : text.toList.any isControl
    · exact .inr (if_pos hcontrol)
    · exact .inl ⟨text, rfl, if_neg hcontrol⟩

theorem quote_ne_hex {text digits : String} : quote text ≠ "0x" ++ digits := by
  intro h
  have hhead := congrArg (·.toList.head?) h
  simp [quote] at hhead

/-- Of two payloads shown alike, each is the other. -/
theorem value_eq_of_lengthDelimited (h : field.wireType = .lengthDelimited)
    (hother : other.wireType = .lengthDelimited) (hdisplay : other.display = field.display) :
    other.value = field.value := by
  rcases display_of_lengthDelimited h with ⟨text, htext, hshown⟩ | hshown <;>
    rcases display_of_lengthDelimited hother with ⟨same, hsame, hown⟩ | hown <;>
    rw [hshown, hown] at hdisplay
  · rw [quote_inj hdisplay] at hsame
    exact Utf8.decode?_inj hsame htext
  · exact absurd hdisplay.symm quote_ne_hex
  · exact absurd hdisplay quote_ne_hex
  · exact Hex.encode_inj ((String.append_right_inj "0x").mp hdisplay)

theorem toList_describe (field : CapturedField) : field.describe.toList =
    field.path.text.toList ++ ' ' :: (field.wireType.name.toList ++ ' ' :: field.display.toList) := by
  simp [describe]

/-- **A line determines its field.** -/
theorem eq_of_describe_eq (h : field.Deliverable) (hother : other.Deliverable)
    (hdescribe : other.describe = field.describe) : other = field := by
  have hlist := congrArg String.toList hdescribe
  rw [toList_describe, toList_describe] at hlist
  obtain ⟨hpath, hrest⟩ := append_cons_inj other.path.space_notMem_text
    field.path.space_notMem_text hlist
  obtain ⟨hname, hshown⟩ := append_cons_inj other.wireType.space_notMem_name
    field.wireType.space_notMem_name hrest
  have htype := WireType.name_inj (String.toList_inj.mp hname)
  have hdisplay := String.toList_inj.mp hshown
  have hvalue : other.value = field.value := by
    by_cases hpayload : field.wireType = .lengthDelimited
    · exact value_eq_of_lengthDelimited hpayload (htype.trans hpayload) hdisplay
    · have hscalar := h.isScalar hpayload
      rw [display_of_isScalar hscalar, display_of_isScalar (htype ▸ hscalar)] at hdisplay
      -- A number that is shown in decimal is read back.
      have hread := congrArg (FieldPath.readSegment ·.toList) hdisplay
      simp only [FieldPath.readSegment_repr] at hread
      exact h.value_eq hother htype hscalar (Except.ok.inj hread)
  obtain ⟨path, wireType, value⟩ := field
  obtain ⟨otherPath, otherType, otherValue⟩ := other
  obtain rfl := FieldPath.text_inj (String.toList_inj.mp hpath)
  obtain rfl := htype
  obtain rfl := hvalue
  rfl

end CapturedField

/-- A collector keeps values in the form in which they are delivered. -/
theorem Scope.deliverable_of_scan (scope : Scope) (bytes : Bytes) (limits : Limits) :
    ∀ field ∈ (scan scope.collector bytes #[] limits).state.toList, field.Deliverable := by
  intro field hfield
  have hreplay := replay_calls_run scope.collector (.ofBytes bytes limits) #[]
  rw [scan, scope.toList_of_replay hreplay] at hfield
  obtain ⟨call, hcall, hreceived⟩ := List.mem_filterMap.mp (List.mem_of_mem_filter hfield)
  exact forall_mem_calls_run (Walk.deliverable_of_field scope.collector) _ _ call hcall field
    hreceived

namespace Extraction

variable {scope : Scope} {lines : List InputLine} {report : Report}

theorem findings_of_fields (h : report ∈ fields scope lines) :
    report.findings.length = max 1 (report.fields.getD []).length ∧
    (report.fields.getD [] ≠ [] →
      report.findings = (report.fields.getD []).map CapturedField.describe) ∧
    ∀ finding ∈ report.findings, Unbroken finding.toList := by
  rw [fields, reports_eq_map] at h
  obtain ⟨line, -, rfl⟩ := List.mem_map.mp h
  rcases hresult : resultOf scope.collector #[] line.bytes with error | captured
  · refine ⟨rfl, fun hne => absurd rfl hne, List.forall_mem_singleton.mpr ?_⟩
    exact .append (by decide) (unbroken_message_of_resultOf hresult)
  · dsimp only [reportOf]
    rcases captured.toList with _ | ⟨field, rest⟩
    · exact ⟨rfl, fun hne => absurd rfl hne, List.forall_mem_singleton.mpr (by decide)⟩
    · refine ⟨?_, fun _ => rfl, List.forall_mem_map.mpr fun field _ => field.unbroken_describe⟩
      simp [Report.findings]

theorem deliverable_of_fields (h : report ∈ fields scope lines) :
    ∀ field ∈ report.fields.getD [], field.Deliverable := by
  rw [fields, reports_eq_map] at h
  obtain ⟨line, -, rfl⟩ := List.mem_map.mp h
  rcases hresult : resultOf scope.collector #[] line.bytes with error | captured
  · exact List.forall_mem_nil _
  · obtain ⟨bytes, -, rfl⟩ := resultOf_eq_ok hresult
    exact scope.deliverable_of_scan bytes {}

end Extraction

open Extraction

/-- **Each field has a line, and the line says all about it.**  A report on fields has one line for
each field that was collected, or a single line if there is none: each begins with the number of the
input line, and none is broken.  The line of a field goes on with its description.  What is collected
has the form in which it was delivered, and two fields of such a form are described alike only if
they have the same path, the same type and the same bytes. -/
theorem numbered_text_fields (scope : Scope) (lines : List InputLine) :
    (∀ report ∈ fields scope lines,
      Numbered (List.replicate (max 1 (report.fields.getD []).length) report.line) report.text ∧
      (report.fields.getD [] ≠ [] → report.text =
        String.join ((report.fields.getD []).map fun field =>
          report.line.repr ++ ": " ++ field.describe ++ "\n")) ∧
      ∀ field ∈ report.fields.getD [], field.Deliverable) ∧
    ∀ field other : CapturedField, field.Deliverable → other.Deliverable →
      other.describe = field.describe → other = field := by
  refine ⟨fun report hreport => ?_, fun field other => CapturedField.eq_of_describe_eq⟩
  obtain ⟨hlength, hdescribed, hunbroken⟩ := findings_of_fields hreport
  refine ⟨?_, fun hne => ?_, deliverable_of_fields hreport⟩
  · have hnumbers : report.entries.map Prod.fst =
        List.replicate (max 1 (report.fields.getD []).length) report.line := by
      rw [Report.entries, List.map_map, ← hlength]
      exact List.map_const
    rw [← hnumbers]
    exact (numbered_iff report.toList_text).mpr (List.forall_mem_map.mpr hunbroken)
  · rw [Report.text, hdescribed hne, List.map_map]
    rfl

/-- A number, a payload that is a line feed and one that is a quotation mark: three lines, and the
payloads are told apart. -/
theorem numbered_text_fields_payloads :
    let feed : CapturedField := ⟨.ofList [2], .lengthDelimited, [0x0a]⟩
    let mark : CapturedField := ⟨.ofList [2], .lengthDelimited, [0x22]⟩
    ∃ report ∈ fields .rootFields [⟨7, .ok [0x08, 0x00, 0x12, 0x01, 0x0a, 0x12, 0x01, 0x22]⟩],
      report.fields = some [⟨.ofList [1], .varint, [0x00]⟩, feed, mark] ∧
      Numbered [7, 7, 7] report.text ∧ mark.describe ≠ feed.describe := by
  intro feed mark
  obtain ⟨hreports, hlossless⟩ := numbered_text_fields .rootFields
    [⟨7, .ok [0x08, 0x00, 0x12, 0x01, 0x0a, 0x12, 0x01, 0x22]⟩]
  have hfields : fields .rootFields [⟨7, .ok [0x08, 0x00, 0x12, 0x01, 0x0a, 0x12, 0x01, 0x22]⟩] =
      [{ line := 7, fields := some [⟨.ofList [1], .varint, [0x00]⟩, feed, mark] }] := by decide +kernel
  rw [hfields] at hreports ⊢
  refine ⟨_, List.mem_singleton_self _, rfl, (hreports _ (List.mem_singleton_self _)).1, ?_⟩
  exact fun h => absurd (hlossless feed mark trivial trivial h) (by decide)

end FieldSieve
