import FieldSieve.Text.Quoted

/-!
# Checking a table of cases

A check is run on every case of a table, also after some have failed, and all that failed are
reported together, each in quoted form.
-/
namespace FieldSieve.CaseReport

/-- The cases that fail a check, in the order of the table. -/
def failures (check : String → Bool) (cases : List String) : List String :=
  cases.filter fun case => !check case

/-- What to say about the cases that failed, if there are any. -/
def message? : List String → Option String
  | [] => none
  | failed =>
    some (failed.length.repr ++ " test cases failed: ["
      ++ String.intercalate ", " (failed.map Text.quote) ++ "]")

theorem message?_failures_eq_none_iff {check : String → Bool} {cases : List String} :
    message? (failures check cases) = none ↔ ∀ case ∈ cases, check case = true := by
  have : ∀ failed, message? failed = none ↔ failed = [] := by
    intro failed
    cases failed <;> simp [message?]
  rw [this, failures, List.filter_eq_nil_iff]
  simp

end FieldSieve.CaseReport
