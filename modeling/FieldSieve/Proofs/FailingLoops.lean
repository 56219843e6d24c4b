import Mathlib.Data.List.Forall2

/-!
# Loops that can fail

A loop over a list that can fail takes the values from the first to the last and stops at the first
one that it cannot take.  So whether it succeeds is a matter of each value, and the error is that of
the first value that has none but an error.
-/
namespace FieldSieve

namespace Except

variable {α β ε : Type} {error : ε} {values : List α}

/-- Two steps in a row succeed just if the first does and the second does with its result. -/
theorem bind_eq_ok_iff {step : Except ε α} {next : α → Except ε β} {result : β} :
    step >>= next = .ok result ↔ ∃ value, step = .ok value ∧ next value = .ok result := by
  cases step with
  | error error => exact ⟨nofun, fun ⟨_, h, _⟩ => nomatch h⟩
  | ok value => exact ⟨fun h => ⟨value, rfl, h⟩, by rintro ⟨_, ⟨⟩, h⟩; exact h⟩

/-- A loop fails at the first value that it cannot take. -/
theorem foldlM_eq_error_iff {f : β → α → Except ε β} {start : β} :
    values.foldlM f start = .error error ↔ ∃ before value after reached,
      values = before ++ value :: after ∧ before.foldlM f start = .ok reached ∧
        f reached value = .error error := by
  constructor
  · intro h
    induction values generalizing start with
    | nil => cases h
    | cons value values ih =>
      rw [List.foldlM_cons] at h
      cases hstep : f start value with
      | error cause =>
        rw [hstep] at h
        cases h
        exact ⟨[], value, values, start, rfl, rfl, hstep⟩
      | ok next =>
        rw [hstep] at h
        obtain ⟨before, culprit, after, reached, rfl, hbefore, hculprit⟩ := ih h
        refine ⟨value :: before, culprit, after, reached, rfl, ?_, hculprit⟩
        rw [List.foldlM_cons, hstep]
        exact hbefore
  · rintro ⟨before, value, after, reached, rfl, hbefore, hvalue⟩
    rw [List.foldlM_append, hbefore]
    change (value :: after).foldlM f reached = .error error
    rw [List.foldlM_cons, hvalue]
    rfl

theorem mapM_eq_ok_iff {f : α → Except ε β} {results : List β} :
    values.mapM f = .ok results ↔
      List.Forall₂ (fun value result => f value = .ok result) values results := by
  induction values generalizing results with
  | nil => simp [pure, Except.pure, eq_comm]
  | cons value values ih =>
    rw [List.mapM_cons, List.forall₂_cons_left_iff]
    cases hvalue : f value with
    | error cause => simp [bind, Except.bind]
    | ok result =>
      cases hrest : values.mapM f with
      | error cause => simp [bind, Except.bind, ← ih, hrest]
      | ok rest => simp [bind, Except.bind, pure, Except.pure, ← ih, hrest, eq_comm]

/-- All values have results just if each of them has one. -/
theorem exists_mapM_eq_ok_iff {f : α → Except ε β} :
    (∃ results, values.mapM f = .ok results) ↔
      ∀ value ∈ values, ∃ result, f value = .ok result := by
  simp only [mapM_eq_ok_iff]
  induction values with
  | nil => exact ⟨fun _ => nofun, fun _ => ⟨[], .nil⟩⟩
  | cons value values ih =>
    rw [List.forall_mem_cons, ← ih]
    constructor
    · rintro ⟨_, h⟩
      obtain ⟨result, results, hvalue, hvalues, -⟩ := List.forall₂_cons_left_iff.mp h
      exact ⟨⟨result, hvalue⟩, results, hvalues⟩
    · rintro ⟨⟨result, hvalue⟩, results, hvalues⟩
      exact ⟨result :: results, .cons hvalue hvalues⟩

/-- Of the values that have no result the first is reported. -/
theorem mapM_eq_error_iff {f : α → Except ε β} :
    values.mapM f = .error error ↔ ∃ before value after, values = before ++ value :: after ∧
      (∀ earlier ∈ before, ∃ result, f earlier = .ok result) ∧ f value = .error error := by
  constructor
  · intro h
    induction values with
    | nil => cases h
    | cons value values ih =>
      rw [List.mapM_cons] at h
      cases hvalue : f value with
      | error cause =>
        rw [hvalue] at h
        cases h
        exact ⟨[], value, values, rfl, by simp, hvalue⟩
      | ok result =>
        cases hrest : values.mapM f with
        | ok rest =>
          rw [hvalue, hrest] at h
          cases h
        | error cause =>
          rw [hvalue, hrest] at h
          cases h
          obtain ⟨before, culprit, after, rfl, hbefore, hculprit⟩ := ih hrest
          exact ⟨value :: before, culprit, after, rfl,
            List.forall_mem_cons.mpr ⟨⟨result, hvalue⟩, hbefore⟩, hculprit⟩
  · rintro ⟨before, value, after, rfl, hbefore, hvalue⟩
    induction before with
    | nil =>
      rw [List.nil_append, List.mapM_cons, hvalue]
      rfl
    | cons earlier before ih =>
      obtain ⟨⟨result, hresult⟩, hbefore⟩ := List.forall_mem_cons.mp hbefore
      rw [List.cons_append, List.mapM_cons, hresult]
      change (do let rest ← (before ++ value :: after).mapM f; pure (result :: rest)) = _
      rw [ih hbefore]
      rfl

theorem map_eq_ok_iff {f : α → β} {read : Except ε α} {result : β} :
    read.map f = .ok result ↔ ∃ value, read = .ok value ∧ f value = result := by
  cases read <;> simp [Except.map]

theorem map_eq_error_iff {f : α → β} {read : Except ε α} :
    read.map f = .error error ↔ read = .error error := by
  cases read <;> simp [Except.map]

end Except

end FieldSieve
