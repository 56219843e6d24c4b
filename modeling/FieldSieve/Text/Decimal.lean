/-!
# Decimal numbers

Numbers are written in decimal without leading zeros.  They are read more freely: one plus sign may
stand in front, and zeros may pad them, but the number must be below a bound.

The reader goes from left to right and stops at the first character that it cannot take, so of a
number that is both too large and badly written it reports what comes first.
-/
namespace FieldSieve.Text

/-- Why a text is not a number. -/
inductive NumberError where
  /-- There is no character at all. -/
  | empty
  /-- A character is no digit, or there is a sign and nothing else. -/
  | invalidDigit
  /-- The digits pass the bound. -/
  | tooLarge
  deriving DecidableEq, Repr

/-- The cause in words. -/
def NumberError.message : NumberError → String
  | empty => "cannot parse integer from empty string"
  | invalidDigit => "invalid digit found in string"
  | tooLarge => "number too large to fit in target type"

/-- The value of a digit. -/
def digit? (c : Char) : Option Nat :=
  if c.isDigit then some (c.toNat - '0'.toNat) else none

/-- One more digit behind the number read so far. -/
def appendDigit (bound n : Nat) (c : Char) : Except NumberError Nat :=
  match digit? c with
  | none => .error .invalidDigit
  | some d => if 10 * n + d < bound then .ok (10 * n + d) else .error .tooLarge

/-- A number below the bound, from digits alone. -/
def readDigits (bound : Nat) (cs : List Char) : Except NumberError Nat :=
  cs.foldlM (appendDigit bound) 0

/-- A number below the bound, with or without a plus sign in front. -/
def readNumber (bound : Nat) : List Char → Except NumberError Nat
  | [] => .error .empty
  | ['+'] => .error .invalidDigit
  | '+' :: cs => readDigits bound cs
  | cs => readDigits bound cs

theorem digit?_eq_some {c : Char} (h : c.isDigit) : digit? c = some (c.toNat - '0'.toNat) := by
  simp [digit?, h]

/-- Digits below the bound are read as the number they stand for. -/
theorem foldlM_appendDigit {bound n : Nat} {cs : List Char} (hd : ∀ c ∈ cs, c.isDigit)
    (h : Nat.ofDigitChars 10 cs n < bound) :
    cs.foldlM (appendDigit bound) n = .ok (Nat.ofDigitChars 10 cs n) := by
  induction cs generalizing n with
  | nil => simp [pure, Except.pure]
  | cons c cs ih =>
    rw [Nat.ofDigitChars_cons] at h ⊢
    have hstep : 10 * n + (c.toNat - '0'.toNat) < bound := by
      refine Nat.lt_of_le_of_lt ?_ h
      rw [Nat.ofDigitChars_eq_ofDigitChars_zero]
      calc 10 * n + (c.toNat - '0'.toNat)
          ≤ 10 ^ cs.length * (10 * n + (c.toNat - '0'.toNat)) :=
            Nat.le_mul_of_pos_left _ (Nat.pow_pos (by decide))
        _ ≤ _ := Nat.le_add_right _ _
    rw [List.foldlM_cons, appendDigit, digit?_eq_some (hd c (by simp))]
    simp only [hstep, if_true]
    exact ih (fun x hx => hd x (by simp [hx])) h

/-- A number below the bound is read back from its decimal form. -/
theorem readNumber_toDigits {bound n : Nat} (h : n < bound) :
    readNumber bound (Nat.toDigits 10 n) = .ok n := by
  have hdigits : ∀ c ∈ Nat.toDigits 10 n, c.isDigit := fun c hc =>
    Nat.isDigit_of_mem_toDigits (by decide) (by decide) hc
  have hread : readDigits bound (Nat.toDigits 10 n) = .ok n := by
    rw [readDigits, foldlM_appendDigit hdigits (by simpa using h)]
    simp
  unfold readNumber
  split
  · next he => exact absurd he Nat.toDigits_ne_nil
  · next he => exact absurd (hdigits '+' (by simp [he])) (by decide)
  · next cs he => exact absurd (hdigits '+' (by simp [he])) (by decide)
  · exact hread

end FieldSieve.Text
