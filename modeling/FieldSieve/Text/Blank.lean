import FieldSieve.Text.CharRange

/-!
# White space

The characters of the property `White_Space`: twenty-five of them, in ten ranges.  A text is
trimmed of them at both ends before anything else looks at it.
-/
namespace FieldSieve.Text

/-- The ranges of the property. -/
def blankRanges : List CharRange :=
  [(0x09, 0x0d), (0x20, 0x20), (0x85, 0x85), (0xa0, 0xa0), (0x1680, 0x1680), (0x2000, 0x200a),
    (0x2028, 0x2029), (0x202f, 0x202f), (0x205f, 0x205f), (0x3000, 0x3000)]

/-- The character is white space. -/
def isBlank (c : Char) : Bool :=
  CharRange.holds blankRanges c

/-- The text without the white space at its ends. -/
def trim (cs : List Char) : List Char :=
  ((cs.dropWhile isBlank).reverse.dropWhile isBlank).reverse

theorem dropWhile_isBlank_eq_nil_iff {cs : List Char} :
    cs.dropWhile isBlank = [] ↔ ∀ c ∈ cs, isBlank c := by
  induction cs with
  | nil => simp
  | cons c cs ih =>
    cases h : isBlank c with
    | true => rw [List.dropWhile_cons_of_pos h, ih]; simp [h]
    | false => simp [h]

theorem trim_eq_nil_iff {cs : List Char} : trim cs = [] ↔ ∀ c ∈ cs, isBlank c := by
  rw [trim, List.reverse_eq_nil_iff, dropWhile_isBlank_eq_nil_iff]
  constructor
  · intro h
    -- What survives the first pass starts with a character that is not blank, so nothing survives.
    rw [← dropWhile_isBlank_eq_nil_iff]
    cases hs : cs.dropWhile isBlank with
    | nil => rfl
    | cons c rest =>
      have hc : isBlank c := h c (by simp [hs])
      have := List.head?_dropWhile_not isBlank cs
      simp [hs, hc] at this
  · intro h c hc
    exact h c ((List.dropWhile_suffix isBlank).subset (by simpa using hc))

theorem dropWhile_isBlank_eq_self {cs : List Char} (h : ∀ c ∈ cs.head?, isBlank c = false) :
    cs.dropWhile isBlank = cs := by
  cases cs with
  | nil => rfl
  | cons c cs => simp [h c (by simp)]

/-- Text that neither starts nor ends with white space is left as it is. -/
theorem trim_eq_self {cs : List Char} (hfirst : ∀ c ∈ cs.head?, isBlank c = false)
    (hlast : ∀ c ∈ cs.getLast?, isBlank c = false) : trim cs = cs := by
  rw [trim, dropWhile_isBlank_eq_self hfirst,
    dropWhile_isBlank_eq_self (by rwa [List.head?_reverse]), List.reverse_reverse]

theorem trim_blank_append {before cs : List Char} (h : ∀ c ∈ before, isBlank c) :
    trim (before ++ cs) = trim cs := by
  rw [trim, List.dropWhile_append_of_pos h, ← trim]

theorem trim_append_blank {cs after : List Char} (h : ∀ c ∈ after, isBlank c) :
    trim (cs ++ after) = trim cs := by
  have hafter : ∀ c ∈ after.reverse, isBlank c := fun c hc => h c (List.mem_reverse.mp hc)
  rw [trim, trim, List.dropWhile_append]
  split
  · next hnil =>
    rw [dropWhile_isBlank_eq_nil_iff.mpr h, List.isEmpty_iff.mp hnil]
  · rw [List.reverse_append, List.dropWhile_append_of_pos hafter]

theorem length_trim_le (cs : List Char) : (trim cs).length ≤ cs.length := by
  rw [trim, List.length_reverse]
  refine Nat.le_trans (List.dropWhile_suffix isBlank).length_le ?_
  rw [List.length_reverse]
  exact (List.dropWhile_suffix isBlank).length_le

/-- A text is what is left when it is trimmed, with white space at both ends. -/
theorem exists_eq_trim (cs : List Char) : ∃ before after, cs = before ++ (trim cs ++ after) ∧
    (∀ c ∈ before, isBlank c) ∧ (∀ c ∈ after, isBlank c) := by
  refine ⟨cs.takeWhile isBlank, ((cs.dropWhile isBlank).reverse.takeWhile isBlank).reverse, ?_,
    List.all_eq_true.mp List.all_takeWhile, fun c hc => ?_⟩
  · rw [trim, ← List.reverse_append, List.takeWhile_append_dropWhile, List.reverse_reverse,
      List.takeWhile_append_dropWhile]
  · exact List.all_eq_true.mp List.all_takeWhile c (List.mem_reverse.mp hc)

theorem trim_trim (cs : List Char) : trim (trim cs) = trim cs := by
  obtain ⟨before, after, hcs, hbefore, hafter⟩ := exists_eq_trim cs
  rw [← trim_append_blank hafter, ← trim_blank_append hbefore, ← hcs]

/-- No white space is left at either end. -/
theorem not_isBlank_ends_trim (cs : List Char) :
    (∀ c ∈ (trim cs).head?, isBlank c = false) ∧ ∀ c ∈ (trim cs).getLast?, isBlank c = false := by
  -- A blank there would go when the text is trimmed again, and nothing goes then.
  have hagain := trim_trim cs
  constructor <;> intro c hc <;> refine Bool.eq_false_iff.mpr fun hblank => ?_
  · obtain ⟨rest, hrest⟩ := List.head?_eq_some_iff.mp hc
    have hle := length_trim_le rest
    rw [hrest, ← List.singleton_append, trim_blank_append (by simpa using hblank)] at hagain
    simp only [hagain, List.length_append, List.length_singleton] at hle
    omega
  · obtain ⟨rest, hrest⟩ := List.getLast?_eq_some_iff.mp hc
    have hle := length_trim_le rest
    rw [hrest, trim_append_blank (by simpa using hblank)] at hagain
    simp only [hagain, List.length_append, List.length_singleton] at hle
    omega

end FieldSieve.Text
