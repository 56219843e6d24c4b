import FieldSieve.Proofs.HexText
import FieldSieve.Input
import Mathlib.Data.List.Forall2

/-!
# Rows of digits are read back

A text is written in rows, with a line feed, or a carriage return and a line feed, between them.
Reading it takes three steps, and each has to undo one of writing.  The rows are found again
because none of them holds a line feed; a carriage return stays behind, but as white space at the
end of a row, which is dropped in any case.  No digit is dropped with it, since no digit is white
space, and of the marks in front of the digits just one is.  What a row holds is then read from its
digits alone (`content_of_hasDigits`).

A blank row holds nothing, but counts.  So a row can be exchanged for another one, and no entry but
its own is changed, whatever either of them holds.
-/
namespace FieldSieve.InputLine

open Text (isBlank)

/-- What stands between two rows. -/
inductive LineBreak where
  | feed
  | returnFeed

/-- The characters of a break. -/
def LineBreak.chars : LineBreak → List Char
  | feed => ['\n']
  | returnFeed => ['\r', '\n']

/-- The text has these rows, each with a break behind it but perhaps the last. -/
inductive Joins : List (List Char) → List Char → Prop where
  | nil : Joins [] []
  | last (row : List Char) : Joins [row] row
  | cons (row : List Char) (lineBreak : LineBreak) {rows : List (List Char)} {cs : List Char}
    (h : Joins rows cs) : Joins (row :: rows) (row ++ (lineBreak.chars ++ cs))

/-- The mark that can stand in front of digits. -/
def marks : List (List Char) := [['0', 'x'], ['0', 'X']]

/-- A row that is blank, or one of digits with any white space around them.  The mark can be left
out unless there is nothing behind it. -/
inductive IsRow : List Char → Option (Except Text.Hex.Error Bytes) → Prop where
  | blank {row : List Char} (h : ∀ c ∈ row, isBlank c) : IsRow row none
  | message (before mark digits after : List Char) {bytes : Bytes}
    (hbefore : ∀ c ∈ before, isBlank c) (hafter : ∀ c ∈ after, isBlank c)
    (hmark : mark = [] ∨ mark ∈ marks) (hdigits : Text.Hex.Spells digits bytes)
    (hempty : bytes = [] → mark ≠ []) :
    IsRow (before ++ (mark ++ digits ++ after)) (some (.ok bytes))

/-- These are left of a row when the white space at its ends is dropped and then one mark. -/
inductive HasDigits : List Char → List Char → Prop where
  | intro (before mark digits after : List Char) (hbefore : ∀ c ∈ before, isBlank c)
    (hafter : ∀ c ∈ after, isBlank c) (hmark : mark = [] ∨ mark ∈ marks)
    (hfirst : ∀ c ∈ (mark ++ digits).head?, isBlank c = false)
    (hlast : ∀ c ∈ (mark ++ digits).getLast?, isBlank c = false)
    (hbare : mark = [] → ∀ mark ∈ marks, ¬ mark <+: digits) :
    HasDigits (before ++ (mark ++ digits ++ after)) digits

/-- What a row holds. -/
def content (row : List Char) : Option (Except Text.Hex.Error Bytes) :=
  (ofLine? row 0).map InputLine.bytes

/-- The rows that hold something, counted from a number on. -/
def entries (first : Nat) (contents : List (Option (Except Text.Hex.Error Bytes))) :
    List InputLine :=
  (contents.zipIdx first).filterMap fun (content, number) => content.map (⟨number, ·⟩)

variable {row digits cs : List Char} {rows : List (List Char)}
  {held : Option (Except Text.Hex.Error Bytes)}
  {contents : List (Option (Except Text.Hex.Error Bytes))} {first : Nat}

/-! ### What a row holds -/

theorem stripMark_append {mark : List Char} (h : mark ∈ marks) :
    stripMark (mark ++ digits) = digits := by
  rcases List.mem_pair.mp h with rfl | rfl <;> rfl

theorem stripMark_of_bare (h : ∀ mark ∈ marks, ¬ mark <+: digits) : stripMark digits = digits := by
  unfold stripMark
  split
  · exact absurd (List.prefix_append ..) (h _ List.mem_cons_self)
  · exact absurd (List.prefix_append ..) (h _ (List.mem_cons_of_mem _ List.mem_cons_self))
  · rfl

theorem ofLine?_eq_map (row : List Char) (number : Nat) :
    ofLine? row number = (content row).map (⟨number, ·⟩) := by
  unfold content ofLine?
  split <;> rfl

theorem content_of_blank (h : ∀ c ∈ row, isBlank c) : content row = none := by
  rw [content, ofLine?_eq_none_iff.mpr h]
  rfl

/-- What a row holds is read from its digits. -/
theorem content_of_hasDigits (h : HasDigits row digits) (hrow : ∃ c ∈ row, isBlank c = false) :
    content row = some (Text.Hex.decode (String.ofList digits)) := by
  obtain ⟨before, mark, digits, after, hbefore, hafter, hmark, hfirst, hlast, hbare⟩ := h
  have htrim : Text.trim (before ++ (mark ++ digits ++ after)) = mark ++ digits := by
    rw [Text.trim_blank_append hbefore, Text.trim_append_blank hafter,
      Text.trim_eq_self hfirst hlast]
  have hstrip : stripMark (mark ++ digits) = digits := by
    rcases hmark with rfl | hmark
    · exact stripMark_of_bare (hbare rfl)
    · exact stripMark_append hmark
  have hne : mark ++ digits ≠ [] := by
    intro hnil
    obtain ⟨c, hc, hsolid⟩ := hrow
    rw [Text.trim_eq_nil_iff.mp (htrim.trans hnil) c hc] at hsolid
    cases hsolid
  unfold content ofLine?
  rw [htrim]
  split
  · next hnil => exact absurd hnil hne
  · rw [hstrip]
    rfl

/-- Something is left of every row, if only an empty text. -/
theorem exists_hasDigits (row : List Char) : ∃ digits, HasDigits row digits := by
  obtain ⟨before, after, hrow, hbefore, hafter⟩ := Text.exists_eq_trim row
  obtain ⟨hfirst, hlast⟩ := Text.not_isBlank_ends_trim row
  generalize Text.trim row = trimmed at hrow hfirst hlast
  subst hrow
  by_cases hmarked : ∃ mark ∈ marks, mark <+: trimmed
  · obtain ⟨mark, hmark, digits, rfl⟩ := hmarked
    refine ⟨digits, .intro before mark digits after hbefore hafter (.inr hmark) hfirst hlast ?_⟩
    rintro rfl
    exact absurd hmark (by decide)
  · exact ⟨trimmed, .intro before [] trimmed after hbefore hafter (.inl rfl) hfirst hlast
      fun _ mark hmark hbegins => hmarked ⟨mark, hmark, hbegins⟩⟩

/-- There is no mark among digits, as its letter is none. -/
theorem not_marked_of_digits {mark : List Char} (hmark : mark ∈ marks)
    (h : ∀ c ∈ digits, c ∈ Text.Hex.digitChars) : ¬ mark <+: digits := by
  have hletter : ∃ c ∈ mark, c ∉ Text.Hex.digitChars := by
    rcases List.mem_pair.mp hmark with rfl | rfl
    · exact ⟨'x', by decide, by decide⟩
    · exact ⟨'X', by decide, by decide⟩
  obtain ⟨c, hc, hno⟩ := hletter
  exact fun hbegins => hno (h c (hbegins.subset hc))

/-- Neither digits nor a mark are dropped with the white space. -/
theorem not_isBlank_of_digits {mark : List Char} (hmark : mark = [] ∨ mark ∈ marks)
    (h : ∀ c ∈ digits, c ∈ Text.Hex.digitChars) : ∀ c ∈ mark ++ digits, isBlank c = false := by
  have hmarks : marks.all (·.all (!isBlank ·)) := by decide
  have hchars : Text.Hex.digitChars.all (!isBlank ·) := by decide
  simp only [List.all_eq_true, Bool.not_eq_true'] at hmarks hchars
  rw [List.forall_mem_append]
  refine ⟨?_, fun c hc => hchars c (h c hc)⟩
  rcases hmark with rfl | hmark
  · exact nofun
  · exact hmarks mark hmark

theorem content_of_isRow (h : IsRow row held) : content row = held := by
  cases h with
  | blank h => exact content_of_blank h
  | @message before mark digits after bytes hbefore hafter hmark hdigits hempty =>
    have hchars := (Text.Hex.digits_of_decode (Text.Hex.decode_of_spells hdigits)).2
    have hsolid := not_isBlank_of_digits hmark hchars
    have hhas : HasDigits (before ++ (mark ++ digits ++ after)) digits :=
      .intro before mark digits after hbefore hafter hmark
        (fun c hc => hsolid c (List.mem_of_mem_head? hc))
        (fun c hc => hsolid c (List.mem_of_getLast? hc))
        fun _ _ hmark => not_marked_of_digits hmark hchars
    have hne : mark ++ digits ≠ [] := by
      intro hnil
      obtain ⟨hno, rfl⟩ := List.append_eq_nil_iff.mp hnil
      have hlength := Text.Hex.length_of_spells hdigits
      rw [List.length_nil] at hlength
      exact hempty (List.eq_nil_of_length_eq_zero (by omega)) hno
    obtain ⟨c, hc⟩ := List.exists_mem_of_ne_nil _ hne
    have hrow : c ∈ before ++ (mark ++ digits ++ after) :=
      List.mem_append_right _ (List.mem_append_left _ hc)
    rw [content_of_hasDigits hhas ⟨c, hrow, hsolid c hc⟩, Text.Hex.decode_of_spells hdigits]

/-- A carriage return at the end of a row is white space there. -/
theorem content_append_return (row : List Char) : content (row ++ ['\r']) = content row := by
  have hreturn : ∀ c ∈ ['\r'], isBlank c := List.forall_mem_singleton.mpr (by decide)
  unfold content ofLine?
  rw [Text.trim_append_blank hreturn]

/-! ### The rows of a text -/

theorem entries_cons (first : Nat) : entries first (held :: contents) =
    (held.map (⟨first, ·⟩)).toList ++ entries (first + 1) contents := by
  rw [entries, List.zipIdx_cons, List.filterMap_cons]
  cases held <;> rfl

/-- A last row that holds nothing brings no entry. -/
theorem entries_concat_none (first : Nat) :
    entries first (contents ++ [none]) = entries first contents := by
  rw [entries, List.zipIdx_append, List.filterMap_append]
  exact List.append_nil _

theorem ofText_eq_entries (text : String) :
    ofText text = entries 1 ((split text.toList).map content) := by
  rw [ofText, entries, List.zipIdx_map, List.filterMap_map]
  exact congrArg (List.filterMap · _) (funext fun _ => ofLine?_eq_map _ _)

/-- What is behind the last line feed need not be told from a row if it is empty. -/
theorem entries_split (cs : List Char) :
    entries first ((split cs).map content) = entries first ((cs.splitOn '\n').map content) := by
  rw [split]
  split
  · next hlast =>
    obtain ⟨front, hfront⟩ := List.getLast?_eq_some_iff.mp hlast
    rw [hfront, List.dropLast_concat, List.map_append]
    exact (entries_concat_none first).symm
  · rfl

/-- The rows that a text was joined from are found in it. -/
theorem entries_of_joins (h : Joins rows cs) (hfeeds : ∀ row ∈ rows, '\n' ∉ row) :
    entries first ((cs.splitOn '\n').map content) = entries first (rows.map content) := by
  induction h generalizing first with
  | nil => rfl
  | last row => rw [List.splitOn_eq_singleton (hfeeds row List.mem_cons_self)]
  | @cons row lineBreak rows cs h ih =>
    rw [List.forall_mem_cons] at hfeeds
    cases lineBreak with
    | feed =>
      show entries first (((row ++ '\n' :: cs).splitOn '\n').map content) = _
      rw [List.splitOn_append_cons_self_of_not_mem hfeeds.1, List.map_cons, List.map_cons,
        entries_cons, entries_cons, ih hfeeds.2]
    | returnFeed =>
      have hreturn : '\n' ∉ row ++ ['\r'] := by simp [hfeeds.1]
      have hbreak : row ++ (LineBreak.returnFeed.chars ++ cs) = (row ++ ['\r']) ++ '\n' :: cs := by
        rw [List.append_assoc]
        rfl
      rw [hbreak, List.splitOn_append_cons_self_of_not_mem hreturn, List.map_cons, List.map_cons,
        content_append_return, entries_cons, entries_cons, ih hfeeds.2]

theorem ofText_of_joins {text : String} (h : Joins rows text.toList)
    (hfeeds : ∀ row ∈ rows, '\n' ∉ row) : ofText text = entries 1 (rows.map content) := by
  rw [ofText_eq_entries, entries_split, entries_of_joins h hfeeds]

theorem map_content_of_isRow (h : List.Forall₂ IsRow rows contents) :
    rows.map content = contents := by
  rw [← List.forall₂_eq_eq_eq, List.forall₂_map_left_iff]
  exact h.imp fun _ _ => content_of_isRow

/-- **Rows of digits are read back.**  A text of rows without line feeds, each of them blank or the
digits of a byte string, is read as the byte strings of the rows that are not blank, in their order
and with their numbers.  Should a row be exchanged for one that is not blank and has other
characters than pairs of digits, then its entry is an error and every other one is what it was. -/
theorem ofText_rows (hfeeds : ∀ row ∈ rows, '\n' ∉ row)
    (hrows : List.Forall₂ IsRow rows contents) :
    (∀ text : String, Joins rows text.toList → ofText text = entries 1 contents) ∧
    ∀ place < rows.length, ∀ row, '\n' ∉ row → (∃ c ∈ row, isBlank c = false) →
      (∃ digits, HasDigits row digits) ∧
      ∀ digits, HasDigits row digits → Text.Hex.Misspelt digits →
        ∃ error, ∀ text : String, Joins (rows.set place row) text.toList →
          ofText text = entries 1 (contents.set place (some (.error error))) := by
  constructor
  · intro text htext
    rw [ofText_of_joins htext hfeeds, map_content_of_isRow hrows]
  · intro place _ row hfeed hrow
    refine ⟨exists_hasDigits row, fun digits hdigits hmisspelt => ?_⟩
    obtain ⟨error, herror⟩ := Text.Hex.exists_error_of_misspelt hmisspelt
    refine ⟨error, fun text htext => ?_⟩
    have hset : ∀ other ∈ rows.set place row, '\n' ∉ other := by
      intro other hother
      rcases List.mem_or_eq_of_mem_set hother with hold | rfl
      · exact hfeeds other hold
      · exact hfeed
    rw [ofText_of_joins htext hset, List.map_set, map_content_of_isRow hrows,
      content_of_hasDigits hdigits hrow, herror]

/-- A blank row, one with a mark and letters of both sizes, and a mark with nothing behind it.  In
the second text a digit is missing. -/
theorem ofText_rows_one_spoiled :
    ofText " \r\n0XfF\t\n0x" = [⟨2, .ok [0xff]⟩, ⟨3, .ok []⟩] ∧
    ∃ error, ofText " \r\n0Xf\n0x\n" = [⟨2, .error error⟩, ⟨3, .ok []⟩] := by
  have hrows : List.Forall₂ IsRow [[' '], ['0', 'X', 'f', 'F', '\t'], ['0', 'x']]
      [none, some (.ok [0xff]), some (.ok [])] :=
    .cons (.blank (List.forall_mem_singleton.mpr (by decide))) <|
    .cons (.message [] ['0', 'X'] ['f', 'F'] ['\t'] nofun
      (List.forall_mem_singleton.mpr (by decide)) (by decide) rfl nofun) <|
    .cons (.message [] ['0', 'x'] [] [] nofun nofun (by decide) rfl (by decide)) .nil
  have hdigits : HasDigits ['0', 'X', 'f'] ['f'] :=
    .intro [] ['0', 'X'] ['f'] [] nofun nofun (by decide) (by rintro _ ⟨⟩; decide)
      (by rintro _ ⟨⟩; decide) nofun
  obtain ⟨hread, hspoiled⟩ := ofText_rows (by decide) hrows
  obtain ⟨-, hspoiled⟩ := hspoiled 1 (by decide) ['0', 'X', 'f'] (by decide)
    ⟨'f', by decide, by decide⟩
  obtain ⟨error, herror⟩ := hspoiled ['f'] hdigits (.inl rfl)
  exact ⟨hread _ (.cons _ .returnFeed (.cons _ .feed (.last _))),
    error, herror _ (.cons _ .returnFeed (.cons _ .feed (.cons _ .feed .nil)))⟩

end FieldSieve.InputLine
