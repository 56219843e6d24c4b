import FieldSieve.Selection
import Mathlib.Data.List.Dedup

/-!
# What a selection knows of its paths

A selection may start from texts and grows path by path, and may be given the root, one path twice,
or a path and later one that lies inside it.  All it keeps of this are two sets.  The one holds the
paths without the root (`Selection.Built.mem_targets_iff`), and the other what lies above them: each
addition brings along the messages on the way to its own path, and these stay on the way to a target
whatever else is added (`Selection.mem_above`).  So what a selection answers depends on the set of
its paths alone.
-/
namespace FieldSieve

namespace Selection

/-- The selection was built by adding these paths in this order: all at once as texts, or one behind
the others. -/
inductive Built : List FieldPath → Selection → Prop
  | empty : Built [] .empty
  | ofTexts {texts : List String} {paths : List FieldPath} {selection : Selection}
      (hread : texts.mapM FieldPath.read = .ok paths)
      (hselection : Selection.ofTexts texts = .ok selection) : Built paths selection
  | add {paths : List FieldPath} {selection : Selection} (h : Built paths selection)
      (path : FieldPath) : Built (paths ++ [path]) (selection.add path)

/-- One of these paths goes through this one and further. -/
def LiesAbove (path : FieldPath) (paths : List FieldPath) : Prop :=
  ∃ target ∈ paths, path.toList <+: target.toList ∧ path ≠ target

variable {selection other : Selection} {paths others : List FieldPath} {path : FieldPath}
  {number : UInt64} {parent : FieldPath}

theorem answer_eq_descend_iff :
    selection.answer number parent = .descend ↔ parent.child number ∈ selection.above := by
  simp only [answer, List.contains_iff_mem]
  split
  · next habove => simp only [habove]
  · next habove => split <;> simp [habove]

theorem answer_eq_capture_iff : selection.answer number parent = .capture ↔
    parent.child number ∈ selection.targets ∧ parent.child number ∉ selection.above := by
  simp only [answer, List.contains_iff_mem, isTarget_iff]
  split
  · next habove => simp [habove]
  · next habove => split <;> simp_all

theorem answer_eq_skip_iff : selection.answer number parent = .skip ↔
    parent.child number ∉ selection.targets ∧ parent.child number ∉ selection.above := by
  simp only [answer, List.contains_iff_mem, isTarget_iff]
  split
  · next habove => simp [habove]
  · next habove => split <;> simp_all

namespace Built

theorem mem_targets_iff (h : Built paths selection) :
    path ∈ selection.targets ↔ path ∈ paths ∧ path ≠ .root := by
  induction h with
  | empty => simp [Selection.empty]
  | ofTexts hread hselection =>
    rw [Selection.ofTexts, hread] at hselection
    cases hselection
    exact mem_targets_ofList
  | add _ added ih =>
    rw [mem_targets_add, ih, List.mem_append, List.mem_singleton, or_and_right]

/-- Every message on the way to a target is known, and nothing else. -/
theorem mem_above_iff (h : Built paths selection) :
    path ∈ selection.above ↔ path ≠ .root ∧ LiesAbove path paths := by
  rw [selection.mem_above]
  refine and_congr_right fun hroot => exists_congr fun target => ?_
  rw [h.mem_targets_iff, and_assoc, and_iff_right_of_imp FieldPath.ne_root_of_isAncestor,
    FieldPath.isAncestor_iff]

theorem perm_targets (h : Built paths selection) :
    selection.targets.Perm (paths.filter (· ≠ .root)).dedup := by
  refine (List.perm_ext_iff_of_nodup selection.nodup (List.nodup_dedup _)).mpr fun path => ?_
  rw [h.mem_targets_iff, List.mem_dedup, List.mem_filter, decide_eq_true_iff]

theorem isTarget_eq (h : Built paths selection) (hother : Built others other)
    (hsame : ∀ path, path ≠ .root → (path ∈ others ↔ path ∈ paths)) (path : FieldPath) :
    other.isTarget path = selection.isTarget path := by
  rw [Bool.eq_iff_iff, isTarget_iff, isTarget_iff, h.mem_targets_iff, hother.mem_targets_iff]
  exact and_congr_left (hsame path)

theorem size_eq (h : Built paths selection) (hother : Built others other)
    (hsame : ∀ path, path ≠ .root → (path ∈ others ↔ path ∈ paths)) :
    other.size = selection.size := by
  refine List.Perm.length_eq ?_
  refine (List.perm_ext_iff_of_nodup other.nodup selection.nodup).mpr fun path => ?_
  rw [← isTarget_iff, ← isTarget_iff, h.isTarget_eq hother hsame path]

end Built
end Selection

open Selection

/-- **A selection decides by the set of its paths.**  However it was built, a field is entered when
it lies above one of the paths, captured when it is one of them and lies above none, and skipped
otherwise.  The targets are the paths without the root, and there are as many as there are distinct
ones.  The order of the additions does not matter, nor does repetition, nor does the root. -/
theorem answer_of_built {paths : List FieldPath} {selection : Selection}
    (h : Built paths selection) :
    (∀ number parent,
      (selection.answer number parent = .descend ↔ LiesAbove (parent.child number) paths) ∧
      (selection.answer number parent = .capture ↔
        parent.child number ∈ paths ∧ ¬ LiesAbove (parent.child number) paths) ∧
      (selection.answer number parent = .skip ↔
        parent.child number ∉ paths ∧ ¬ LiesAbove (parent.child number) paths)) ∧
    (∀ path, selection.isTarget path = true ↔ path ∈ paths ∧ path ≠ .root) ∧
    selection.size = (paths.filter (· ≠ .root)).dedup.length ∧
    ∀ others other, Built others other →
      (∀ path, path ≠ .root → (path ∈ others ↔ path ∈ paths)) →
      other.answer = selection.answer ∧ other.isTarget = selection.isTarget ∧
        other.size = selection.size := by
  have htarget : ∀ number (parent : FieldPath),
      parent.child number ∈ selection.targets ↔ parent.child number ∈ paths :=
    fun _ _ => h.mem_targets_iff.trans (and_iff_left nofun)
  have habove : ∀ number (parent : FieldPath),
      parent.child number ∈ selection.above ↔ LiesAbove (parent.child number) paths :=
    fun _ _ => h.mem_above_iff.trans (and_iff_right nofun)
  refine ⟨fun number parent => ⟨?_, ?_, ?_⟩, fun path => isTarget_iff.trans h.mem_targets_iff,
    h.perm_targets.length_eq, fun others other hother hsame => ⟨?_, ?_, ?_⟩⟩
  · rw [answer_eq_descend_iff, habove]
  · rw [answer_eq_capture_iff, htarget, habove]
  · rw [answer_eq_skip_iff, htarget, habove]
  · funext number parent
    exact answer_eq (h.isTarget_eq hother hsame) number parent
  · exact funext (h.isTarget_eq hother hsame)
  · exact h.size_eq hother hsame

/-- A field 3 is given after a field inside it, and once more, and so is the root.  It is entered,
and the selection is the one that the two paths make in the other order. -/
theorem answer_of_built_overlapping :
    ∃ selection, Selection.ofTexts ["3:1", "", "3"] = .ok selection ∧
      (selection.add (.ofList [3])).answer 3 .root = .descend ∧
      (selection.add (.ofList [3])).answer 1 (.ofList [3]) = .capture ∧
      (selection.add (.ofList [3])).size = 2 ∧
      ((Selection.empty.add (.ofList [3])).add (.ofList [3, 1])).answer =
        (selection.add (.ofList [3])).answer := by
  have hread : ["3:1", "", "3"].mapM FieldPath.read =
      .ok [.ofList [3, 1], .root, .ofList [3]] := by decide +kernel
  have hfirst : Selection.ofTexts ["3:1", "", "3"] =
      .ok (.ofList [.ofList [3, 1], .root, .ofList [3]]) := by
    rw [Selection.ofTexts, hread]
    rfl
  have hbuilt := (Built.ofTexts hread hfirst).add (.ofList [3])
  obtain ⟨hanswer, -, hsize, hsame⟩ := answer_of_built hbuilt
  refine ⟨_, hfirst, (hanswer _ _).1.mpr ?_, (hanswer _ _).2.1.mpr ?_, hsize.trans ?_,
    (hsame [.ofList [3], .ofList [3, 1]] _
      ((Built.empty.add (.ofList [3])).add (.ofList [3, 1])) ?_).1⟩
  · exact ⟨.ofList [3, 1], by decide, by decide, by decide⟩
  · unfold LiesAbove
    decide
  · decide
  · intro path hroot
    simp [or_comm, hroot]

end FieldSieve
