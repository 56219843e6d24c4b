import FieldSieve.FieldPath.Text
import FieldSieve.Policy

/-!
# Selecting fields by path

A selection is a set of target paths.  To reach a target, a scan has to enter every message on the
way to it, so a field is entered when it lies above some target, captured when it is a target and
lies above none, and skipped otherwise.  Entering comes first: a message that is a target itself is
not captured if a target lies inside it.

The messages on the way are kept in a set of their own, so that an answer takes two look-ups.  The
two sets grow together, and a selection carries the fact that they belong together
(`Selection.mem_above`).

The root cannot be a target.  Neither the order of additions nor repetition matters
(`isTarget_ofList`, `answer_eq`).
-/
namespace FieldSieve

/-- A set of paths to look for. -/
structure Selection where
  targets : List FieldPath
  /-- What lies above some target, without the root. -/
  above : List FieldPath
  root_not_mem : FieldPath.root ∉ targets
  nodup : targets.Nodup
  mem_above : ∀ {path}, path ∈ above ↔
    path ≠ .root ∧ ∃ target ∈ targets, path.isAncestor target = true

namespace Selection

/-- No target. -/
def empty : Selection := ⟨[], [], by simp, by simp, by simp⟩

/-- The path is a target. -/
def isTarget (selection : Selection) (path : FieldPath) : Bool :=
  selection.targets.contains path

/-- The set with some more paths. -/
def insertAll (paths more : List FieldPath) : List FieldPath :=
  more.foldl (fun paths path => paths.insert path) paths

theorem mem_insertAll {p : FieldPath} {paths more : List FieldPath} :
    p ∈ insertAll paths more ↔ p ∈ paths ∨ p ∈ more := by
  induction more generalizing paths with
  | nil => simp [insertAll]
  | cons q more ih =>
    rw [show insertAll paths (q :: more) = insertAll (paths.insert q) more from rfl, ih,
      List.mem_insert_iff, List.mem_cons, or_assoc, or_left_comm]

/-- Adds a target, and what lies above it.  The root changes nothing. -/
def add (selection : Selection) (path : FieldPath) : Selection :=
  if h : path = .root then selection
  else
    { targets := selection.targets.insert path
      above := insertAll selection.above path.ancestors
      root_not_mem := by
        rw [List.mem_insert_iff]
        rintro (rfl | hm)
        · exact h rfl
        · exact selection.root_not_mem hm
      nodup := by
        unfold List.insert
        split
        · exact selection.nodup
        · next hnew => exact List.nodup_cons.mpr ⟨by simpa using hnew, selection.nodup⟩
      mem_above := by
        intro p
        rw [mem_insertAll, selection.mem_above, FieldPath.mem_ancestors_iff, ← and_or_left]
        simp only [List.mem_insert_iff, exists_eq_or_imp, or_comm] }

/-- The selection of these paths. -/
def ofList (paths : List FieldPath) : Selection :=
  paths.foldl add empty

/-- The selection of paths given as text. -/
def ofTexts (texts : List String) : Except Text.NumberError Selection :=
  (texts.mapM FieldPath.read).map ofList

/-- How many targets there are. -/
def size (selection : Selection) : Nat := selection.targets.length

/-- What to do with a length-delimited field. -/
def answer (selection : Selection) (number : UInt64) (parent : FieldPath) : Decision :=
  let path := parent.child number
  if selection.above.contains path then .descend
  else if selection.isTarget path then .capture
  else .skip

variable {selection : Selection} {path : FieldPath} {paths : List FieldPath}

theorem mem_targets_add {p : FieldPath} :
    p ∈ (selection.add path).targets ↔ p ∈ selection.targets ∨ p = path ∧ p ≠ .root := by
  unfold add
  split
  · next h =>
    subst h
    simp
  · next h =>
    rw [List.mem_insert_iff]
    constructor
    · rintro (rfl | hp)
      · exact .inr ⟨rfl, h⟩
      · exact .inl hp
    · rintro (hp | ⟨rfl, -⟩)
      · exact .inr hp
      · exact .inl rfl

theorem mem_targets_ofList {p : FieldPath} :
    p ∈ (ofList paths).targets ↔ p ∈ paths ∧ p ≠ .root := by
  suffices ∀ s : Selection,
      p ∈ (paths.foldl add s).targets ↔ p ∈ s.targets ∨ p ∈ paths ∧ p ≠ .root by
    simpa [ofList, empty] using this empty
  induction paths with
  | nil => simp
  | cons q paths ih =>
    intro s
    rw [List.foldl_cons, ih, mem_targets_add, List.mem_cons]
    constructor
    · rintro ((h | ⟨rfl, h⟩) | ⟨h, hr⟩)
      · exact .inl h
      · exact .inr ⟨.inl rfl, h⟩
      · exact .inr ⟨.inr h, hr⟩
    · rintro (h | ⟨rfl | h, hr⟩)
      · exact .inl (.inl h)
      · exact .inl (.inr ⟨rfl, hr⟩)
      · exact .inr ⟨h, hr⟩

theorem isTarget_iff : selection.isTarget path = true ↔ path ∈ selection.targets := by
  simp [isTarget]

/-- A field lies above a target if it is on the way to one; no field is the root. -/
theorem contains_above {number : UInt64} {parent : FieldPath} :
    selection.above.contains (parent.child number) =
      selection.targets.any (parent.child number).isAncestor := by
  rw [Bool.eq_iff_iff, List.contains_iff_mem, selection.mem_above, List.any_eq_true]
  exact and_iff_right nofun

/-- Selections with the same targets give the same answers, in whatever order they were added. -/
theorem answer_eq {other : Selection} (h : ∀ p, selection.isTarget p = other.isTarget p)
    (number : UInt64) (parent : FieldPath) :
    selection.answer number parent = other.answer number parent := by
  have hany : selection.targets.any (parent.child number).isAncestor =
      other.targets.any (parent.child number).isAncestor := by
    rw [Bool.eq_iff_iff, List.any_eq_true, List.any_eq_true]
    constructor <;> rintro ⟨p, hp, ha⟩ <;> refine ⟨p, isTarget_iff.mp ?_, ha⟩
    · rw [← h]; exact isTarget_iff.mpr hp
    · rw [h]; exact isTarget_iff.mpr hp
  simp only [answer, contains_above, hany, h]

end Selection
end FieldSieve
