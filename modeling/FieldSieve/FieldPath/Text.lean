import FieldSieve.FieldPath
import FieldSieve.Text.Blank
import FieldSieve.Text.Decimal

/-!
# Field paths as text

A path is written as its numbers in decimal with colons between them; the root is the empty text.
Reading forgives white space around the whole and around each number, and numbers may be written
in any of the ways that `Text.readNumber` takes.  The first segment that is not a number is the one
reported.
-/
namespace FieldSieve.FieldPath

/-- What stands between two numbers. -/
def separator : Char := ':'

/-- The numbers of the path, outermost first, with colons between them. -/
def text (path : FieldPath) : String :=
  String.intercalate (String.singleton separator) (path.toList.map fun n => n.toNat.repr)

/-- One number of a path, with white space around it. -/
def readSegment (cs : List Char) : Except Text.NumberError UInt64 :=
  (Text.readNumber UInt64.size (Text.trim cs)).map UInt64.ofNat

/-- The path that a text stands for. -/
def read (text : String) : Except Text.NumberError FieldPath :=
  match Text.trim text.toList with
  | [] => .ok root
  | cs => ((cs.splitOn separator).mapM readSegment).map ofList

theorem not_isBlank_of_isDigit {c : Char} (h : c.isDigit) : Text.isBlank c = false := by
  simp only [Char.isDigit, Bool.and_eq_true, decide_eq_true_eq] at h
  have h₁ : 48 ≤ c.toNat := h.1
  have h₂ : c.toNat ≤ 57 := h.2
  simp [Text.isBlank, Text.CharRange.holds, Text.blankRanges]
  omega

theorem isDigit_of_mem_repr {n : Nat} {c : Char} (h : c ∈ n.repr.toList) : c.isDigit := by
  rw [Nat.toList_repr] at h
  exact Nat.isDigit_of_mem_toDigits (by decide) (by decide) h

theorem readSegment_repr (n : UInt64) : readSegment n.toNat.repr.toList = .ok n := by
  have hblank : ∀ c ∈ n.toNat.repr.toList, Text.isBlank c = false :=
    fun c hc => not_isBlank_of_isDigit (isDigit_of_mem_repr hc)
  have htrim : Text.trim n.toNat.repr.toList = n.toNat.repr.toList :=
    Text.trim_eq_self (fun c hc => hblank c (List.mem_of_mem_head? hc))
      (fun c hc => hblank c (List.mem_of_getLast? hc))
  have hread := Text.readNumber_toDigits n.toNat_lt
  rw [readSegment, htrim, Nat.toList_repr]
  simp [UInt64.size, hread, Except.map]

theorem text_ne_empty {path : FieldPath} (h : path.toList ≠ []) : path.text ≠ "" := by
  obtain ⟨number, rest, hpath⟩ := List.exists_cons_of_ne_nil h
  rw [text, hpath, List.map_cons]
  cases rest with
  | nil =>
    rw [List.map_nil, String.intercalate_singleton]
    exact Nat.repr_ne_empty
  | cons child rest =>
    rw [List.map_cons, String.intercalate_cons_cons]
    simp

theorem toList_text (path : FieldPath) : path.text.toList =
    [separator].intercalate (path.toList.map fun n => n.toNat.repr.toList) := by
  rw [text, String.toList_intercalate, List.map_map, String.toList_singleton]
  rfl

/-- What is between the rows or in one of them. -/
theorem mem_intercalate {c x : Char} {rows : List (List Char)} (h : c ∈ [x].intercalate rows) :
    c = x ∨ ∃ row ∈ rows, c ∈ row := by
  induction rows with
  | nil => cases h
  | cons row rows ih =>
    cases rows with
    | nil =>
      rw [List.intercalate_singleton] at h
      exact .inr ⟨row, List.mem_cons_self, h⟩
    | cons next rows =>
      rw [List.intercalate_cons_cons, List.append_assoc, List.mem_append, List.singleton_append,
        List.mem_cons] at h
      rcases h with h | h | h
      · exact .inr ⟨row, List.mem_cons_self, h⟩
      · exact .inl h
      · rcases ih h with h | ⟨later, hlater, h⟩
        · exact .inl h
        · exact .inr ⟨later, List.mem_cons_of_mem _ hlater, h⟩

theorem not_isBlank_of_mem_text {path : FieldPath} {c : Char} (h : c ∈ path.text.toList) :
    Text.isBlank c = false := by
  rw [toList_text] at h
  rcases mem_intercalate h with rfl | ⟨row, hrow, hc⟩
  · decide
  · obtain ⟨n, -, rfl⟩ := List.mem_map.mp hrow
    exact not_isBlank_of_isDigit (isDigit_of_mem_repr hc)

theorem trim_text (path : FieldPath) : Text.trim path.text.toList = path.text.toList :=
  Text.trim_eq_self (fun _ hc => not_isBlank_of_mem_text (List.mem_of_mem_head? hc))
    (fun _ hc => not_isBlank_of_mem_text (List.mem_of_getLast? hc))

/-- Path text stands for the path that was written. -/
theorem read_text (path : FieldPath) : read path.text = .ok path := by
  by_cases hpath : path.toList = []
  · obtain rfl : path = root := FieldPath.ext hpath
    rfl
  · have hne : path.text.toList ≠ [] := by
      simpa using text_ne_empty hpath
    have hsplit : path.text.toList.splitOn separator =
        path.toList.map fun n => n.toNat.repr.toList := by
      rw [toList_text]
      refine List.splitOn_intercalate _ (fun row hrow hmem => ?_) (by simpa using hpath)
      obtain ⟨n, -, rfl⟩ := List.mem_map.mp hrow
      exact absurd (isDigit_of_mem_repr hmem) (by decide)
    have hsegments : (readSegment ∘ fun n : UInt64 => n.toNat.repr.toList) = pure :=
      funext readSegment_repr
    rw [read, trim_text]
    split
    · next hnil => exact absurd hnil hne
    · rw [hsplit, List.mapM_map, hsegments, List.mapM_pure]
      simp [Except.map, pure, Except.pure]

theorem text_inj {path other : FieldPath} (h : path.text = other.text) : path = other :=
  Except.ok.inj ((read_text path).symm.trans ((congrArg read h).trans (read_text other)))

/-- White space, a plus sign and leading zeros are forgiven. -/
example : read " 2: +2 :01" = .ok (.ofList [2, 2, 1]) := by cbv

/-- Nothing is no number, unless it is the whole text. -/
example : read " " = .ok root := by cbv
example : read "2:" = .error .empty := by cbv

end FieldSieve.FieldPath
