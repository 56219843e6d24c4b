import FieldSieve.Program
import FieldSieve.Proofs.NumberedLines

/-!
# A fee may break its line

A report on fees says one thing about each line of the input that is not blank: what is wrong with
it, that it has no fee, or the fee.  The first two are made of text of the program's own, of digits
and of quoted characters.  A fee is not: its amount and its denomination are text that the message
brings along, and they are put on the line as they are, whereas the text of a field is quoted there.
So a message whose amount holds a line feed makes two lines out of one, and the second is whatever
the message wants it to be.

This is the only thing that can go wrong: the output has one line for each line of the input just if
no fee holds a line break (`numbered_output_fees`).
-/
namespace FieldSieve

open Text

/-- Neither half of the fee breaks a line. -/
def Fee.Unbroken (fee : Fee) : Prop :=
  Text.Unbroken fee.amount.toList ∧ Text.Unbroken fee.denom.toList

namespace Extraction

variable {lines : List InputLine} {report : Report}

/-- One thing is found on each line, and it keeps to the line as far as the fee does. -/
theorem findings_of_fees (h : report ∈ fees lines) : ∃ finding, report.findings = [finding] ∧
    (Unbroken finding.toList ↔ ∀ fee ∈ report.fee, fee.Unbroken) := by
  rw [fees, reports_eq_map] at h
  obtain ⟨line, -, rfl⟩ := List.mem_map.mp h
  rcases hresult : resultOf Fee.extractor {} line.bytes with error | draft
  · exact ⟨_, rfl, iff_of_true
      (.append (by decide) (unbroken_message_of_resultOf hresult)) (by simp [reportOf])⟩
  · dsimp only [reportOf]
    rcases draft.fee? with _ | fee
    · exact ⟨_, rfl, iff_of_true (by decide) (by simp)⟩
    · refine ⟨_, rfl, ?_⟩
      have hhead : Unbroken "fee ".toList := by decide
      simp only [String.toList_append, unbroken_append, hhead, true_and, Fee.unbroken_describe_iff]
      exact ⟨fun hfee own hown => Option.some.inj hown ▸ hfee, fun hall => hall fee rfl⟩

theorem map_line_fees (text : String) : (fees (InputLine.ofText text)).map Report.line =
    (InputLine.occupied text).map Prod.snd := by
  rw [fees, reports_ofText, List.map_map]
  refine List.map_congr_left fun row _ => ?_
  dsimp only [Function.comp_apply]
  cases resultOf Fee.extractor {} (InputLine.readDigits row.1) <;> rfl

end Extraction

open Extraction

/-- **A fee may break its line, and nothing else does.**  Where fees are looked for, there is one
report for each line of the input that is not blank, in order and under its number.  Its text is the
number and what was found, which breaks the line just if a half of the fee does.  So the output has
one unbroken line for each of these lines, with its number in front, just if no fee breaks one. -/
theorem numbered_output_fees (text : String) :
    (fees (InputLine.ofText text)).map Report.line = (InputLine.occupied text).map Prod.snd ∧
    (∀ report ∈ fees (InputLine.ofText text), ∃ finding,
      report.text = report.line.repr ++ ": " ++ finding ++ "\n" ∧
      (Unbroken finding.toList ↔ ∀ fee ∈ report.fee, fee.Unbroken)) ∧
    (Numbered ((InputLine.occupied text).map Prod.snd) (Program.output { mode := .fee } text) ↔
      ∀ report ∈ fees (InputLine.ofText text), ∀ fee ∈ report.fee, fee.Unbroken) := by
  refine ⟨map_line_fees text, fun report hreport => ?_, ?_⟩
  · obtain ⟨finding, hfindings, hunbroken⟩ := findings_of_fees hreport
    refine ⟨finding, ?_, hunbroken⟩
    rw [Report.text, hfindings, List.map_singleton, String.join_cons, String.join_nil,
      String.append_empty]
  · have hnumbers : ((fees (InputLine.ofText text)).flatMap Report.entries).map Prod.fst =
        (InputLine.occupied text).map Prod.snd := by
      rw [← map_line_fees, List.map_flatMap, List.map_eq_flatMap]
      refine List.flatMap_congr fun report hreport => ?_
      obtain ⟨finding, hfindings, -⟩ := findings_of_fees hreport
      rw [Report.entries, hfindings]
      rfl
    rw [← hnumbers]
    refine (numbered_iff (Report.toList_join_text _)).trans (List.forall_mem_flatMap.trans ?_)
    refine forall₂_congr fun report hreport => ?_
    obtain ⟨finding, hfindings, hunbroken⟩ := findings_of_fees hreport
    rw [Report.entries, hfindings, ← hunbroken]
    exact List.forall_mem_singleton

/-- The amount is a five, a line feed and a six: there are two lines, and one of them has no
number. -/
theorem not_numbered_output_fees :
    let text := "1210120e0a0c0a057561746f6d1203350a36"
    Program.output { mode := .fee } text = "1: fee 5\n6 uatom\n" ∧
    ¬ Numbered ((InputLine.occupied text).map Prod.snd) (Program.output { mode := .fee } text) := by
  have houtput : Program.output { mode := .fee } "1210120e0a0c0a057561746f6d1203350a36" =
      "1: fee 5\n6 uatom\n" := by decide +kernel
  have hnumbers : (InputLine.occupied "1210120e0a0c0a057561746f6d1203350a36").map Prod.snd =
      [(1, "fee 5\n6 uatom")].map Prod.fst := by decide +kernel
  refine ⟨houtput, fun h => ?_⟩
  rw [houtput, hnumbers] at h
  have hunbroken := (numbered_iff (by decide)).mp h (1, "fee 5\n6 uatom") (by simp)
  revert hunbroken
  decide

end FieldSieve
