import FieldSieve.Text.Blank
import FieldSieve.Text.Decimal

/-!
# Workers

A batch may be shared among workers.  How many there are is a setting, held between one and the
number of processors; it has no influence on any result.
-/
namespace FieldSieve

/-- A pool of workers. -/
structure Workers where
  count : Nat
  deriving DecidableEq, Repr

namespace Workers

/-- The number that a setting asks for, if it is a number, brought between one and the number of
processors. -/
def countOf? (setting : String) (processors : Nat) : Option Nat :=
  match Text.readNumber UInt64.size (Text.trim setting.toList) with
  | .ok wanted => some (max 1 (min wanted (max processors 1)))
  | .error _ => none

/-- A job gives the same whoever does it. -/
def run {α : Type} (_ : Workers) (job : Unit → α) : α := job ()

theorem countOf?_le {setting : String} {processors count : Nat}
    (h : countOf? setting processors = some count) : 1 ≤ count ∧ count ≤ max processors 1 := by
  unfold countOf? at h
  split at h
  · cases h; omega
  · cases h

end Workers
end FieldSieve
