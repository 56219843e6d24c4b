import FieldSieve.Proofs.UnbrokenText
import Mathlib.Data.List.Forall2

/-!
# Numbered lines

The text of a report is a row of lines, each ended by a line feed, and the texts of several reports
are put one behind the other.  A reader cuts the whole at its line feeds and finds one line for each
thing that was reported, unless one of them holds a line feed of its own: then there is a line too
many (`Text.count_ended_eq_length_iff`), and no other reading of the text makes up for it.
-/
namespace FieldSieve

namespace Text

/-- The lines, each ended by a line feed. -/
def ended (rows : List (List Char)) : List Char := rows.flatMap (· ++ ['\n'])

/-- The text has one line for each of these numbers and in their order.  No line is broken, and each
begins with its number. -/
def Numbered (numbers : List Nat) (text : String) : Prop :=
  ∃ rows, text.toList = ended rows ∧ (∀ row ∈ rows, Unbroken row) ∧
    List.Forall₂ (fun number row => (number.repr ++ ": ").toList <+: row) numbers rows

/-- What stands on a line, behind its number. -/
def numberedLine (entry : Nat × String) : String := entry.1.repr ++ ": " ++ entry.2

theorem count_ended_cons (row : List Char) (rows : List (List Char)) :
    (ended (row :: rows)).count '\n' = row.count '\n' + 1 + (ended rows).count '\n' := by
  simp only [ended, List.flatMap_cons, List.count_append, List.count_singleton_self]

/-- Each row brings a line feed. -/
theorem length_le_count_ended (rows : List (List Char)) :
    rows.length ≤ (ended rows).count '\n' := by
  induction rows with
  | nil => exact Nat.zero_le _
  | cons row rows ih =>
    rw [count_ended_cons, List.length_cons]
    omega

/-- There are as many line feeds as rows just if no row holds one. -/
theorem count_ended_eq_length_iff {rows : List (List Char)} :
    (ended rows).count '\n' = rows.length ↔ ∀ row ∈ rows, '\n' ∉ row := by
  induction rows with
  | nil => simp [ended]
  | cons row rows ih =>
    have hle := length_le_count_ended rows
    rw [count_ended_cons, List.length_cons, List.forall_mem_cons, ← ih, ← List.count_eq_zero]
    omega

/-- Rows that hold no line feed are found again in the text that they make up. -/
theorem eq_of_ended_eq {rows others : List (List Char)} (h : ended rows = ended others)
    (hrows : ∀ row ∈ rows, '\n' ∉ row) (hothers : ∀ row ∈ others, '\n' ∉ row) :
    rows = others := by
  induction rows generalizing others with
  | nil =>
    cases others with
    | nil => rfl
    | cons other others => simp [ended] at h
  | cons row rows ih =>
    cases others with
    | nil => simp [ended] at h
    | cons other others =>
      rw [List.forall_mem_cons] at hrows hothers
      simp only [ended, List.flatMap_cons, List.append_assoc, List.singleton_append] at h
      obtain ⟨rfl, hrest⟩ := append_cons_inj hrows.1 hothers.1 h
      rw [ih hrest hrows.2 hothers.2]

theorem unbroken_numberedLine_iff {entry : Nat × String} :
    Unbroken (numberedLine entry).toList ↔ Unbroken entry.2.toList := by
  rw [numberedLine, String.toList_append, unbroken_append]
  exact and_iff_right (.append (unbroken_repr _) (by decide))

/-- Lines that were put together are numbered lines just if none of them is broken. -/
theorem numbered_iff {entries : List (Nat × String)} {text : String}
    (htext : text.toList = ended (entries.map fun entry => (numberedLine entry).toList)) :
    Numbered (entries.map Prod.fst) text ↔ ∀ entry ∈ entries, Unbroken entry.2.toList := by
  constructor
  · rintro ⟨rows, hrows, hunbroken, hnumbers⟩ entry hentry
    have hnone : ∀ row ∈ rows, '\n' ∉ row := fun row hrow hmem =>
      hunbroken row hrow _ hmem (by decide)
    have hlength : rows.length = (entries.map fun entry => (numberedLine entry).toList).length := by
      rw [← hnumbers.length_eq, List.length_map, List.length_map]
    have hsame : rows = entries.map fun entry => (numberedLine entry).toList := by
      rw [hrows] at htext
      refine eq_of_ended_eq htext hnone (count_ended_eq_length_iff.mp ?_)
      rw [← htext, count_ended_eq_length_iff.mpr hnone, hlength]
    refine unbroken_numberedLine_iff.mp (hunbroken _ ?_)
    rw [hsame]
    exact List.mem_map_of_mem hentry
  · intro h
    refine ⟨_, htext, ?_, ?_⟩
    · rw [List.forall_mem_map]
      exact fun entry hentry => unbroken_numberedLine_iff.mpr (h entry hentry)
    · rw [List.forall₂_map_left_iff, List.forall₂_map_right_iff, List.forall₂_same]
      exact fun entry _ => ⟨entry.2.toList, (String.toList_append ..).symm⟩

end Text

namespace Report

open Text

/-- The findings, each with the number of its line. -/
def entries (report : Report) : List (Nat × String) :=
  report.findings.map (report.line, ·)

theorem toList_text (report : Report) :
    report.text.toList = ended (report.entries.map fun entry => (numberedLine entry).toList) := by
  rw [text, String.toList_join, ended, entries, List.map_map, List.flatMap_map, List.flatMap_map]
  refine congrArg (List.flatMap · _) (funext fun finding => ?_)
  rw [String.toList_append]
  rfl

theorem toList_join_text (reports : List Report) : (String.join (reports.map text)).toList =
    ended ((reports.flatMap entries).map fun entry => (numberedLine entry).toList) := by
  rw [String.toList_join, List.flatMap_map, ended, List.map_flatMap, List.flatMap_assoc]
  exact congrArg (List.flatMap · _) (funext toList_text)

end Report
end FieldSieve
