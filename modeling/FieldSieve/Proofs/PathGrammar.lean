import FieldSieve.FieldPath.Text
import FieldSieve.Proofs.FailingLoops

/-!
# The grammar of path text

Reading accepts exactly the white text, which is the root, and the texts whose segments between
colons are numbers, each with any white space around it.  A number is a plus sign or none and then
digits, at least one, and it has to fit into a word (`FieldPath.text_grammar`).

Reading goes from left to right on both levels and stops at the first thing it cannot take: at a
segment that is no number, and in it at a character that is no digit or with which the digits pass
the bound.  Two lemmas on loops that can fail say so (`Except.foldlM_eq_error_iff`,
`Except.mapM_eq_error_iff`), so the cause that is reported is determined by the text as well.
-/
namespace FieldSieve

namespace Text

variable {bound n value : Nat} {cs : List Char} {c : Char} {error : NumberError}

/-- One plus sign or none and then digits, of which there is at least one.  The number is the one
that the digits stand for. -/
def IsNumeral (cs : List Char) (n : Nat) : Prop :=
  ∃ sign digits, cs = sign ++ digits ∧ (sign = [] ∨ sign = ['+']) ∧ digits ≠ [] ∧
    (∀ c ∈ digits, c.isDigit) ∧ Nat.ofDigitChars 10 digits 0 = n

/-- The text behind a plus sign.  A sign with nothing behind it does not count as one. -/
def unsigned : List Char → List Char
  | '+' :: c :: cs => c :: cs
  | cs => cs

/-- What it is that keeps a text from being a number below the bound. -/
inductive Misread (bound : Nat) (cs : List Char) : NumberError → Prop
  /-- There is nothing to read. -/
  | empty (h : cs = []) : Misread bound cs .empty
  /-- Behind digits below the bound comes something else. -/
  | invalidDigit {digits rest : List Char} {c : Char} (split : unsigned cs = digits ++ c :: rest)
      (known : ∀ d ∈ digits, d.isDigit) (fits : Nat.ofDigitChars 10 digits 0 < bound)
      (other : c.isDigit = false) : Misread bound cs .invalidDigit
  /-- Behind digits below the bound comes one with which they are no longer below it. -/
  | tooLarge {digits rest : List Char} {c : Char} (split : unsigned cs = digits ++ c :: rest)
      (known : ∀ d ∈ digits, d.isDigit) (fits : Nat.ofDigitChars 10 digits 0 < bound)
      (digit : c.isDigit = true) (passes : bound ≤ Nat.ofDigitChars 10 (digits ++ [c]) 0) :
      Misread bound cs .tooLarge

theorem appendDigit_eq_ok_iff : appendDigit bound n c = .ok value ↔
    c.isDigit ∧ 10 * n + (c.toNat - '0'.toNat) = value ∧ value < bound := by
  cases hc : c.isDigit
  · simp [appendDigit, digit?, hc]
  · simp only [appendDigit, digit?_eq_some hc, true_and]
    generalize 10 * n + (c.toNat - '0'.toNat) = next
    split
    · next hlt => simp; omega
    · next hge => simp; omega

theorem appendDigit_eq_error_iff : appendDigit bound n c = .error error ↔
    error = .invalidDigit ∧ c.isDigit = false ∨
      error = .tooLarge ∧ c.isDigit = true ∧ bound ≤ 10 * n + (c.toNat - '0'.toNat) := by
  cases hc : c.isDigit
  · simp [appendDigit, digit?, hc, eq_comm]
  · simp only [appendDigit, digit?_eq_some hc]
    generalize 10 * n + (c.toNat - '0'.toNat) = next
    split
    · next hlt => simp; omega
    · next hge => simp [eq_comm]; omega

theorem ofDigitChars_concat : Nat.ofDigitChars 10 (cs ++ [c]) n =
    10 * Nat.ofDigitChars 10 cs n + (c.toNat - '0'.toNat) := by
  rw [Nat.ofDigitChars_append, Nat.ofDigitChars_cons, Nat.ofDigitChars_nil]

/-- Digits are read as the number they stand for, if it is below the bound, and nothing else is. -/
theorem foldlM_appendDigit_eq_ok_iff (hn : n < bound) :
    cs.foldlM (appendDigit bound) n = .ok value ↔
      (∀ c ∈ cs, c.isDigit) ∧ Nat.ofDigitChars 10 cs n = value ∧ value < bound := by
  constructor
  · intro h
    induction cs generalizing n with
    | nil =>
      cases h
      exact ⟨by simp, by simp, hn⟩
    | cons c cs ih =>
      rw [List.foldlM_cons] at h
      cases hstep : appendDigit bound n c with
      | error cause =>
        rw [hstep] at h
        cases h
      | ok next =>
        rw [hstep] at h
        obtain ⟨hc, rfl, hnext⟩ := appendDigit_eq_ok_iff.mp hstep
        obtain ⟨hdigits, hvalue, hlt⟩ := ih hnext h
        rw [Nat.ofDigitChars_cons]
        exact ⟨List.forall_mem_cons.mpr ⟨hc, hdigits⟩, hvalue, hlt⟩
  · rintro ⟨hdigits, rfl, hlt⟩
    exact foldlM_appendDigit hdigits hlt

theorem unsigned_eq_self (h : cs.head? ≠ some '+') : unsigned cs = cs := by
  unfold unsigned
  split
  · exact absurd rfl h
  · rfl

theorem exists_sign (cs : List Char) :
    ∃ sign, cs = sign ++ unsigned cs ∧ (sign = [] ∨ sign = ['+']) := by
  unfold unsigned
  split
  · exact ⟨['+'], rfl, .inr rfl⟩
  · exact ⟨[], rfl, .inl rfl⟩

theorem isNumeral_iff : IsNumeral cs n ↔ unsigned cs ≠ [] ∧ (∀ c ∈ unsigned cs, c.isDigit) ∧
    Nat.ofDigitChars 10 (unsigned cs) 0 = n := by
  constructor
  · rintro ⟨sign, digits, rfl, hsign, hne, hdigits, hvalue⟩
    obtain ⟨d, ds, rfl⟩ := List.exists_cons_of_ne_nil hne
    have hunsigned : unsigned (sign ++ d :: ds) = d :: ds := by
      rcases hsign with rfl | rfl
      · refine unsigned_eq_self fun hplus => ?_
        have hd : d.isDigit := hdigits d List.mem_cons_self
        rw [Option.some.inj hplus] at hd
        exact absurd hd (by decide)
      · rfl
    rw [hunsigned]
    exact ⟨hne, hdigits, hvalue⟩
  · rintro ⟨hne, hdigits, hvalue⟩
    obtain ⟨sign, hcs, hsign⟩ := exists_sign cs
    exact ⟨sign, unsigned cs, hcs, hsign, hne, hdigits, hvalue⟩

theorem readNumber_of_ne_nil (h : cs ≠ []) :
    readNumber bound cs = readDigits bound (unsigned cs) := by
  obtain ⟨c, rest, rfl⟩ := List.exists_cons_of_ne_nil h
  by_cases hplus : c = '+'
  · subst hplus
    -- A sign with nothing behind it is read as a character that is no digit.
    cases rest <;> rfl
  · rw [unsigned_eq_self (by simpa using hplus)]
    simp [readNumber, hplus]

theorem unsigned_ne_nil (h : cs ≠ []) : unsigned cs ≠ [] := by
  unfold unsigned
  split
  · exact List.cons_ne_nil _ _
  · exact h

/-- What is read as a number is one, and a number below the bound is read. -/
theorem readNumber_eq_ok_iff (hbound : 0 < bound) :
    readNumber bound cs = .ok n ↔ IsNumeral cs n ∧ n < bound := by
  rw [isNumeral_iff]
  by_cases hcs : cs = []
  · subst hcs
    simp [readNumber, unsigned]
  · rw [readNumber_of_ne_nil hcs, readDigits, foldlM_appendDigit_eq_ok_iff hbound, and_assoc,
      and_assoc, and_iff_right (unsigned_ne_nil hcs)]

/-- The cause of an error is what the text has in place of a number. -/
theorem readNumber_eq_error_iff (hbound : 0 < bound) :
    readNumber bound cs = .error error ↔ Misread bound cs error := by
  by_cases hcs : cs = []
  · subst hcs
    constructor
    · rintro ⟨⟩
      exact .empty rfl
    · rintro (_ | split | split)
      · rfl
      · simp [unsigned] at split
      · simp [unsigned] at split
  rw [readNumber_of_ne_nil hcs, readDigits, Except.foldlM_eq_error_iff]
  constructor
  · rintro ⟨digits, c, rest, reached, hsplit, hbefore, hc⟩
    obtain ⟨hdigits, rfl, hfits⟩ := (foldlM_appendDigit_eq_ok_iff hbound).mp hbefore
    rcases appendDigit_eq_error_iff.mp hc with ⟨rfl, hother⟩ | ⟨rfl, hdigit, hpasses⟩
    · exact .invalidDigit hsplit hdigits hfits hother
    · exact .tooLarge hsplit hdigits hfits hdigit (ofDigitChars_concat.symm ▸ hpasses)
  · rintro (hempty | ⟨hsplit, hdigits, hfits, hother⟩ | ⟨hsplit, hdigits, hfits, hdigit, hpasses⟩)
    · exact absurd hempty hcs
    · exact ⟨_, _, _, _, hsplit, foldlM_appendDigit hdigits hfits,
        appendDigit_eq_error_iff.mpr (.inl ⟨rfl, hother⟩)⟩
    · exact ⟨_, _, _, _, hsplit, foldlM_appendDigit hdigits hfits,
        appendDigit_eq_error_iff.mpr (.inr ⟨rfl, hdigit, ofDigitChars_concat ▸ hpasses⟩)⟩

end Text

namespace FieldPath

variable {path : FieldPath} {text : String} {segment : List Char} {error : Text.NumberError}

/-- What stands between colons in the text, when the white space around the whole is gone. -/
def segments (text : String) : List (List Char) :=
  (Text.trim text.toList).splitOn separator

/-- The segment is a number with white space around it. -/
def Shows (segment : List Char) (number : UInt64) : Prop :=
  Text.IsNumeral (Text.trim segment) number.toNat

theorem readSegment_eq_ok_iff {number : UInt64} :
    readSegment segment = .ok number ↔ Shows segment number := by
  rw [readSegment, Except.map_eq_ok_iff, Shows]
  constructor
  · rintro ⟨n, hread, rfl⟩
    obtain ⟨hnumeral, hlt⟩ := (Text.readNumber_eq_ok_iff (by decide)).mp hread
    rwa [UInt64.toNat_ofNat_of_lt' hlt]
  · intro hnumeral
    exact ⟨number.toNat, (Text.readNumber_eq_ok_iff (by decide)).mpr ⟨hnumeral, number.toNat_lt⟩,
      UInt64.ofNat_toNat⟩

theorem readSegment_eq_error_iff : readSegment segment = .error error ↔
    Text.Misread UInt64.size (Text.trim segment) error := by
  rw [readSegment, Except.map_eq_error_iff, Text.readNumber_eq_error_iff (by decide)]

theorem read_of_blank (h : ∀ c ∈ text.toList, Text.isBlank c) : read text = .ok root := by
  rw [read, Text.trim_eq_nil_iff.mpr h]

theorem read_of_not_blank (h : ¬ ∀ c ∈ text.toList, Text.isBlank c) :
    read text = ((segments text).mapM readSegment).map ofList := by
  rw [← Text.trim_eq_nil_iff] at h
  rw [read, segments]
  split
  · next hnil => exact absurd hnil h
  · rfl

/-- White text has one segment, and that is empty. -/
theorem not_shows_of_blank (h : ∀ c ∈ text.toList, Text.isBlank c) (numbers : List UInt64) :
    ¬ List.Forall₂ Shows (segments text) numbers := by
  rw [segments, Text.trim_eq_nil_iff.mpr h, List.splitOn_nil, List.forall₂_cons_left_iff]
  rintro ⟨number, _, hshows, -⟩
  exact (Text.isNumeral_iff.mp hshows).1 rfl

theorem read_eq_ok_iff : read text = .ok path ↔
    ((∀ c ∈ text.toList, Text.isBlank c) ∧ path = root) ∨
      List.Forall₂ Shows (segments text) path.toList := by
  by_cases hblank : ∀ c ∈ text.toList, Text.isBlank c
  · rw [read_of_blank hblank, and_iff_right hblank, or_iff_left (not_shows_of_blank hblank _)]
    exact ⟨fun h => (Except.ok.inj h).symm, fun h => congrArg _ h.symm⟩
  · rw [read_of_not_blank hblank, or_iff_right fun h => hblank h.1, Except.map_eq_ok_iff]
    simp only [Except.mapM_eq_ok_iff, readSegment_eq_ok_iff]
    constructor
    · rintro ⟨numbers, hshows, rfl⟩
      rwa [toList_ofList]
    · exact fun hshows => ⟨path.toList, hshows, ofList_toList path⟩

theorem read_eq_error_iff : read text = .error error ↔
    (¬ ∀ c ∈ text.toList, Text.isBlank c) ∧ ∃ before segment after,
      segments text = before ++ segment :: after ∧
        (∀ earlier ∈ before, ∃ number, Shows earlier number) ∧
        Text.Misread UInt64.size (Text.trim segment) error := by
  by_cases hblank : ∀ c ∈ text.toList, Text.isBlank c
  · rw [read_of_blank hblank]
    exact ⟨nofun, fun h => absurd hblank h.1⟩
  · rw [read_of_not_blank hblank, and_iff_right hblank, Except.map_eq_error_iff,
      Except.mapM_eq_error_iff]
    simp only [readSegment_eq_ok_iff, readSegment_eq_error_iff]

/-- **Path text stands for its path, and this is what else is read.**  The text of a path is read as
the path, so no two paths have the same text.  Any text is read as a path just if it is white and
the path is the root, or if the segments between its colons are numbers, signed with a plus or not
and padded or not, and the path is made of these numbers.  And if it is not read, the error is the
one of the first segment that is not a number. -/
theorem text_grammar :
    (∀ numbers : List UInt64, read (ofList numbers).text = .ok (ofList numbers)) ∧
    (∀ path other : FieldPath, path.text = other.text ↔ path = other) ∧
    ∀ text : String,
      (∀ path, read text = .ok path ↔
        ((∀ c ∈ text.toList, Text.isBlank c) ∧ path = root) ∨
          List.Forall₂ Shows (segments text) path.toList) ∧
      ∀ error, read text = .error error ↔
        (¬ ∀ c ∈ text.toList, Text.isBlank c) ∧ ∃ before segment after,
          segments text = before ++ segment :: after ∧
            (∀ earlier ∈ before, ∃ number, Shows earlier number) ∧
            Text.Misread UInt64.size (Text.trim segment) error :=
  ⟨fun _ => read_text _, fun _ _ => ⟨text_inj, congrArg _⟩,
    fun _ => ⟨fun _ => read_eq_ok_iff, fun _ => read_eq_error_iff⟩⟩

/-- A number that does not fit is reported before the letter behind it. -/
example : read "2: 18446744073709551616 :x" = .error .tooLarge := by cbv

end FieldPath
end FieldSieve
