import FieldSieve.Nesting.Label

/-!
# Open frames are a list of frames

However frames are opened, ended and closed, and however often their path is asked for as text in
between, what comes of it is what comes of a plain list of frames, outermost first
(`FrameOp.shows_run`).  The list keeps numbers and ends in one place and puts the text together anew
each time.

That a text which is kept is the text of the frames that are open now (`LabelledNesting.Current`) is
an invariant of the operations, and no more than that: opening and closing a frame drop the text,
and setting an end leaves the path as it was.
-/
namespace FieldSieve

/-- Something that is done to the open frames. -/
inductive FrameOp where
  | push (number : UInt64) (finish : Option Nat)
  | setEnd (finish : Nat)
  | pop
  /-- The path is asked for as text. -/
  | text

/-- What comes of it. -/
inductive FrameAnswer where
  | done
  | failed (fault : Fault)
  /-- The frame that was closed, if there was one. -/
  | closed (frame : Option Frame)
  | text (text : String)
  deriving DecidableEq

namespace FrameOp

/-- What an operation does to the open frames. -/
def run : FrameOp → StateM LabelledNesting FrameAnswer
  | push number finish, labelled => (.done, labelled.push number finish)
  | setEnd finish, labelled =>
    match LabelledNesting.setEnd finish labelled with
    | .ok () labelled => (.done, labelled)
    | .error fault labelled => (.failed fault, labelled)
  | pop, labelled => labelled.pop.map .closed id
  | text, labelled => labelled.text.map .text id

/-- What it does to a list of frames, the outermost of which comes first. -/
def onList : FrameOp → StateM (List Frame) FrameAnswer
  | push number finish, frames => (.done, frames ++ [⟨number, finish⟩])
  | setEnd finish, frames =>
    match frames.getLast? with
    | some last => (.done, frames.dropLast ++ [{ last with finish := some finish }])
    | none => (.failed (.brokenNesting "update_frame called on empty stack"), frames)
  | pop, frames => (.closed frames.getLast?, frames.dropLast)
  | text, frames =>
    (.text (String.intercalate ":" (frames.map fun frame => frame.number.toNat.repr)), frames)

end FrameOp

namespace Nesting

variable {nesting : Nesting}

theorem path_setEnd {next : Nesting} {finish : Nat} (h : nesting.setEnd finish = .ok next) :
    next.path = nesting.path := by
  unfold setEnd at h
  split at h <;> cases h
  rfl

/-- Only where no frame is open, there is none whose end could be set. -/
theorem setEnd_eq_error {fault : Fault} {finish : Nat} (h : nesting.setEnd finish = .error fault) :
    nesting.frames = [] ∧ fault = .brokenNesting "update_frame called on empty stack" := by
  unfold setEnd at h
  split at h
  · next hempty =>
    cases h
    exact ⟨isEmpty_iff.mp hempty, rfl⟩
  · cases h

/-- The text of the path has the numbers of the frames with colons between them. -/
theorem text_path : nesting.path.text =
    String.intercalate ":" (nesting.frames.map fun frame => frame.number.toNat.repr) := by
  rw [FieldPath.text, ← map_number_frames, List.map_map]
  rfl

/-- The boundary for the innermost frame is the last end that is known of the others. -/
theorem enclosingEnd?_eq :
    nesting.enclosingEnd? = (nesting.frames.dropLast.filterMap Frame.finish).getLast? := by
  have hends : nesting.frames.dropLast.map Frame.finish = nesting.ends.tail.reverse := by
    rw [List.map_dropLast, map_finish_frames, List.dropLast_reverse]
  have hfilter : nesting.frames.dropLast.filterMap Frame.finish =
      (nesting.frames.dropLast.map Frame.finish).filterMap id := by
    rw [List.filterMap_map]
    rfl
  rw [hfilter, hends, List.filterMap_reverse, List.getLast?_reverse, List.head?_filterMap]
  rfl

end Nesting

namespace LabelledNesting

variable {labelled : LabelledNesting} {frames : List Frame}

/-- The text that is kept, if one is, is that of the frames that are open. -/
def Current (labelled : LabelledNesting) : Prop :=
  ∀ label, labelled.label = some label → label = labelled.nesting.path.text

/-- The open frames are these, and no text of others is kept. -/
structure Shows (labelled : LabelledNesting) (frames : List Frame) : Prop where
  frames_eq : labelled.nesting.frames = frames
  current : labelled.Current

theorem shows_empty : empty.Shows [] := ⟨rfl, nofun⟩

theorem Shows.text_eq (h : labelled.Shows frames) : (text labelled).1 =
    String.intercalate ":" (frames.map fun frame => frame.number.toNat.repr) := by
  rw [← h.frames_eq, ← Nesting.text_path, text]
  split
  · next label hlabel => exact h.current label hlabel
  · rfl

/-- Asking for the text changes no frame, and what is kept then is the text of these frames. -/
theorem Shows.text (h : labelled.Shows frames) : (text labelled).2.Shows frames := by
  rw [LabelledNesting.text]
  split
  · exact h
  · refine ⟨h.frames_eq, ?_⟩
    rintro label ⟨⟩
    rfl

theorem Shows.pop (h : labelled.Shows frames) :
    (pop labelled).1 = frames.getLast? ∧ (pop labelled).2.Shows frames.dropLast := by
  have htop : labelled.nesting.top? = frames.getLast? := by rw [Nesting.top?_eq, h.frames_eq]
  rw [LabelledNesting.pop]
  split
  · next frame hframe =>
    refine ⟨hframe.symm.trans htop, ?_, nofun⟩
    rw [Nesting.frames_pop, h.frames_eq]
  · next hnone =>
    obtain rfl : frames = [] := List.getLast?_eq_none_iff.mp (htop.symm.trans hnone)
    exact ⟨rfl, h⟩

end LabelledNesting

namespace FrameOp

open LabelledNesting

variable {labelled : LabelledNesting} {frames : List Frame}

/-- Frames and list give the same answer to an operation and go on together. -/
theorem shows_run (h : labelled.Shows frames) (op : FrameOp) :
    (op.run labelled).1 = (op.onList frames).1 ∧
      (op.run labelled).2.Shows (op.onList frames).2 := by
  cases op with
  | push number finish =>
    refine ⟨rfl, ?_, nofun⟩
    rw [← h.frames_eq]
    exact Nesting.frames_push
  | setEnd finish =>
    cases hset : labelled.nesting.setEnd finish with
    | error fault =>
      obtain ⟨hnone, rfl⟩ := Nesting.setEnd_eq_error hset
      obtain rfl : frames = [] := h.frames_eq.symm.trans hnone
      simp only [run, LabelledNesting.setEnd, hset]
      exact ⟨rfl, h⟩
    | ok next =>
      have hne : frames ≠ [] := h.frames_eq ▸ Nesting.setEnd_eq_ok_iff.mp ⟨next, hset⟩
      have hlast := List.getLast?_eq_some_getLast hne
      have hnext := Nesting.frames_setEnd hset
      rw [h.frames_eq, hlast] at hnext
      simp only [run, onList, LabelledNesting.setEnd, hset, hlast]
      refine ⟨trivial, hnext, fun label hlabel => ?_⟩
      rw [h.current label hlabel, Nesting.path_setEnd hset]
  | pop => exact ⟨congrArg FrameAnswer.closed h.pop.1, h.pop.2⟩
  | text => exact ⟨congrArg FrameAnswer.text h.text_eq, h.text⟩

theorem mapM_cons {σ : Type} (step : FrameOp → StateM σ FrameAnswer) (op : FrameOp)
    (ops : List FrameOp) (state : σ) : (op :: ops).mapM step state =
      ((step op state).1 :: (ops.mapM step (step op state).2).1,
        (ops.mapM step (step op state).2).2) := by
  rw [List.mapM_cons]
  rfl

/-- The same goes for any number of operations. -/
theorem shows_mapM (h : labelled.Shows frames) (ops : List FrameOp) :
    (ops.mapM run labelled).1 = (ops.mapM onList frames).1 ∧
      (ops.mapM run labelled).2.Shows (ops.mapM onList frames).2 := by
  induction ops generalizing labelled frames with
  | nil => exact ⟨rfl, h⟩
  | cons op ops ih =>
    obtain ⟨hanswer, hnext⟩ := shows_run h op
    obtain ⟨hanswers, hlast⟩ := ih hnext
    rw [mapM_cons, mapM_cons]
    exact ⟨by rw [hanswer, hanswers], hlast⟩

end FrameOp

/-- **Open frames are a list of frames, and their path text is never an old one.**  Start with no
frame and do any operations in any order.  Each answers what it answers on the list: the frame that
was closed, the failure to set an end where there is no frame, or the numbers of the frames that are
open, in decimal with colons between them, whenever they are asked for.  And the frames left are
those of the list: as many, with the same numbers and the latest ends, the last one innermost, and
with the last known end of the others for a boundary. -/
theorem frameOps_eq_list (ops : List FrameOp) :
    let labelled := (ops.mapM FrameOp.run LabelledNesting.empty).2
    let frames := (ops.mapM FrameOp.onList []).2
    (ops.mapM FrameOp.run LabelledNesting.empty).1 = (ops.mapM FrameOp.onList []).1 ∧
    labelled.nesting.frames = frames ∧
    labelled.nesting.depth = frames.length ∧
    (labelled.nesting.isEmpty = true ↔ frames = []) ∧
    labelled.nesting.path.toList = frames.map Frame.number ∧
    labelled.nesting.top? = frames.getLast? ∧
    labelled.nesting.enclosingEnd? = (frames.dropLast.filterMap Frame.finish).getLast? ∧
    (LabelledNesting.text labelled).1 =
      String.intercalate ":" (frames.map fun frame => frame.number.toNat.repr) := by
  intro labelled frames
  obtain ⟨hanswers, hshows⟩ := FrameOp.shows_mapM LabelledNesting.shows_empty ops
  have hframes : labelled.nesting.frames = frames := hshows.frames_eq
  refine ⟨hanswers, hframes, ?_, ?_, ?_, ?_, ?_, hshows.text_eq⟩
  · rw [← hframes, Nesting.length_frames]
  · rw [← hframes, Nesting.isEmpty_iff]
  · rw [← hframes, Nesting.map_number_frames]
  · rw [← hframes, Nesting.top?_eq]
  · rw [← hframes, Nesting.enclosingEnd?_eq]

/-- The text that was put together for `2` is kept while the end of its frame is set, and no longer
when a frame is opened or closed. -/
example :
    ([.push 2 none, .text, .setEnd 9, .text, .push 7 (some 5), .text, .pop, .text, .pop, .setEnd 1,
        .text].mapM FrameOp.run LabelledNesting.empty).1 =
      [.done, .text "2", .done, .text "2", .done, .text "2:7", .closed (some ⟨7, some 5⟩),
        .text "2", .closed (some ⟨2, some 9⟩),
        .failed (.brokenNesting "update_frame called on empty stack"), .text ""] := by
  cbv

end FieldSieve
