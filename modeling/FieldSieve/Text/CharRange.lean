/-!
# Ranges of characters

A property of characters is kept as the ranges of code points that have it, in ascending order and
with a gap between any two.
-/
namespace FieldSieve.Text

/-- The first and the last code point of a range. -/
abbrev CharRange := Nat × Nat

/-- The character lies in one of the ranges. -/
def CharRange.holds (ranges : List CharRange) (c : Char) : Bool :=
  ranges.any fun (first, last) => first ≤ c.toNat && c.toNat ≤ last

/-- Each range is in order, and the next one starts beyond it. -/
def CharRange.separated : List CharRange → Bool
  | (first, last) :: (next, end_) :: rest =>
    first ≤ last && last + 1 < next && CharRange.separated ((next, end_) :: rest)
  | [(first, last)] => first ≤ last
  | [] => true

end FieldSieve.Text
