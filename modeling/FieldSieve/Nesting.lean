import FieldSieve.Fault
import FieldSieve.FieldPath

/-!
# Open frames

While a scan is inside a field, the field is an open frame: its number and, once it is known to be
a message that is being walked, the offset at which its content ends.

Numbers and ends are kept apart, so that the numbers are at any time the path of the field that is
being read, and the depth is kept beside them so that it can be compared with a limit at each step.
`Nesting.frames` puts numbers and ends together again, outermost first, and the lemmas below say
what each operation does to that list.
-/
namespace FieldSieve

/-- A field that a scan is inside of. -/
structure Frame where
  number : UInt64
  /-- Where the content ends, once that is known. -/
  finish : Option Nat
  deriving DecidableEq, Repr

/-- The open frames. -/
structure Nesting where
  /-- The numbers of all frames. -/
  path : FieldPath
  /-- The ends of all frames, innermost first. -/
  ends : List (Option Nat)
  depth : Nat
  length_path : path.length = depth
  length_ends : ends.length = depth
  deriving DecidableEq

namespace Nesting

/-- No frame is open. -/
def empty : Nesting := ⟨.root, [], 0, rfl, rfl⟩

/-- No frame is open. -/
def isEmpty (nesting : Nesting) : Bool := nesting.depth == 0

/-- Opens a frame inside all others. -/
def push (nesting : Nesting) (number : UInt64) (finish : Option Nat) : Nesting where
  path := nesting.path.child number
  ends := finish :: nesting.ends
  depth := nesting.depth + 1
  length_path := congrArg (· + 1) nesting.length_path
  length_ends := congrArg (· + 1) nesting.length_ends

/-- Closes the innermost `n` frames. -/
def drop (nesting : Nesting) (n : Nat) : Nesting where
  path := ⟨nesting.path.innermostFirst.drop n⟩
  ends := nesting.ends.drop n
  depth := nesting.depth - n
  length_path := by simp [FieldPath.length, ← nesting.length_path]
  length_ends := by simp [← nesting.length_ends]

/-- Closes the innermost frame, if there is one. -/
def pop (nesting : Nesting) : Nesting := nesting.drop 1

/-- The innermost frame. -/
def top? (nesting : Nesting) : Option Frame :=
  match nesting.path.innermostFirst, nesting.ends with
  | number :: _, finish :: _ => some ⟨number, finish⟩
  | _, _ => none

/-- Sets the end of the innermost frame. -/
def setEnd (nesting : Nesting) (finish : Nat) : Except Fault Nesting :=
  if nesting.isEmpty then .error (.brokenNesting "update_frame called on empty stack")
  else .ok { nesting with
    ends := nesting.ends.modifyHead fun _ => some finish
    length_ends := by rw [List.length_modifyHead, nesting.length_ends] }

/-- The boundary that the content of the innermost frame must not cross: the innermost end that is
known of the frames around it. -/
def enclosingEnd? (nesting : Nesting) : Option Nat :=
  nesting.ends.tail.findSome? id

/-- Closes the innermost frames that end at a position. -/
def closeAt (nesting : Nesting) (position : Nat) : Nesting :=
  nesting.drop (nesting.ends.takeWhile (· == some position)).length

/-- Some frame is open whose content should have ended before a position. -/
def overrunAt (nesting : Nesting) (position : Nat) : Bool :=
  nesting.ends.head?.any fun finish => finish.any (· < position)

/-- Numbers and ends together, outermost first. -/
def frames (nesting : Nesting) : List Frame :=
  (List.zipWith Frame.mk nesting.path.innermostFirst nesting.ends).reverse

variable {nesting : Nesting} {number : UInt64} {finish : Option Nat}

theorem length_numbers : nesting.path.innermostFirst.length = nesting.ends.length :=
  nesting.length_path.trans nesting.length_ends.symm

theorem map_number_zipWith {numbers : List UInt64} {ends : List (Option Nat)}
    (h : numbers.length = ends.length) :
    (List.zipWith Frame.mk numbers ends).map Frame.number = numbers := by
  induction numbers generalizing ends with
  | nil => simp
  | cons n numbers ih => cases ends <;> simp_all

theorem map_finish_zipWith {numbers : List UInt64} {ends : List (Option Nat)}
    (h : numbers.length = ends.length) :
    (List.zipWith Frame.mk numbers ends).map Frame.finish = ends := by
  induction numbers generalizing ends with
  | nil => cases ends <;> simp_all
  | cons n numbers ih => cases ends <;> simp_all

/-- The path is the list of the frames' numbers. -/
theorem map_number_frames : nesting.frames.map Frame.number = nesting.path.toList := by
  rw [frames, List.map_reverse, map_number_zipWith nesting.length_numbers, FieldPath.toList]

theorem map_finish_frames : nesting.frames.map Frame.finish = nesting.ends.reverse := by
  rw [frames, List.map_reverse, map_finish_zipWith nesting.length_numbers]

/-- The frames determine the rest. -/
@[ext] theorem ext {a b : Nesting} (h : a.frames = b.frames) : a = b := by
  have hpath : a.path = b.path :=
    FieldPath.ext (by rw [← map_number_frames, h, map_number_frames])
  have hends : a.ends = b.ends :=
    List.reverse_inj.mp (by rw [← map_finish_frames, h, map_finish_frames])
  obtain ⟨p, e, d, hp, hd⟩ := a
  obtain ⟨q, f, k, hq, hk⟩ := b
  obtain rfl : p = q := hpath
  obtain rfl : e = f := hends
  obtain rfl : d = k := hd.symm.trans hk
  rfl

@[simp] theorem frames_push :
    (nesting.push number finish).frames = nesting.frames ++ [⟨number, finish⟩] := by
  simp [frames, push, FieldPath.child]

@[simp] theorem frames_drop (n : Nat) :
    (nesting.drop n).frames = nesting.frames.take (nesting.frames.length - n) := by
  simp only [frames, drop, ← List.drop_zipWith, List.length_reverse, List.take_reverse,
    List.length_zipWith, nesting.length_numbers, Nat.min_self]
  rw [List.reverse_inj]
  by_cases h : n ≤ nesting.ends.length
  · rw [Nat.sub_sub_self h]
  · rw [List.drop_of_length_le, List.drop_of_length_le] <;>
      simp [nesting.length_numbers] <;> omega

@[simp] theorem frames_pop : nesting.pop.frames = nesting.frames.dropLast := by
  rw [pop, frames_drop, List.dropLast_eq_take]

@[simp] theorem length_frames : nesting.frames.length = nesting.depth := by
  simp [frames, nesting.length_numbers, nesting.length_ends]

@[simp] theorem top?_eq : nesting.top? = nesting.frames.getLast? := by
  unfold top? frames
  have := nesting.length_numbers
  cases hp : nesting.path.innermostFirst <;> cases he : nesting.ends <;> simp_all

theorem isEmpty_iff : nesting.isEmpty = true ↔ nesting.frames = [] := by
  rw [isEmpty, beq_iff_eq, ← length_frames, List.length_eq_zero_iff]

/-- Only the end of the innermost frame changes. -/
theorem frames_setEnd {next : Nesting} {position : Nat}
    (h : nesting.setEnd position = .ok next) :
    next.frames = nesting.frames.dropLast ++
      (nesting.frames.getLast?.map fun frame => ⟨frame.number, some position⟩).toList := by
  have hlength := nesting.length_numbers
  unfold setEnd at h
  split at h <;> cases h
  simp only [frames]
  cases hp : nesting.path.innermostFirst <;> cases he : nesting.ends <;> simp_all

theorem setEnd_eq_ok_iff {position : Nat} :
    (∃ next, nesting.setEnd position = .ok next) ↔ nesting.frames ≠ [] := by
  rw [ne_eq, ← isEmpty_iff, setEnd]
  split <;> simp_all

end Nesting
end FieldSieve
