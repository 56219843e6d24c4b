import FieldSieve.Proofs.Calls
import FieldSieve.Proofs.SlicedScan

/-!
# Entering fewer messages

A buffer that can be scanned can be scanned with fewer of its messages entered.  What was a message
becomes a payload and is passed as a whole, and it ends where the walk over its fields ended.

The two scans are not compared step by step, since one goes through a message where the other takes
one step.  They are compared as trees over the same bytes.  Out of fields as they stand come the
fields that stand there under the other rule (`Node.Shallower`): no more of them and no deeper, and
the scalars among them are those that no unentered message hides (`FieldPath.isReached`).
-/
namespace FieldSieve

namespace FieldPath

variable {rule : FieldPath → Decision} {path : FieldPath} {number : UInt64}

/-- A rule enters the message at a path, given from the inside out, and all messages around it. -/
def entersAll (rule : FieldPath → Decision) : List UInt64 → Bool
  | [] => true
  | number :: outer => rule ⟨number :: outer⟩ == .descend && entersAll rule outer

/-- A rule enters the message at the path and all messages around it. -/
def isEntered (rule : FieldPath → Decision) (path : FieldPath) : Bool :=
  entersAll rule path.innermostFirst

/-- A rule enters all messages around a field. -/
def isReached (rule : FieldPath → Decision) (path : FieldPath) : Bool :=
  path.parent.isEntered rule

theorem isEntered_child : (path.child number).isEntered rule = true ↔
    rule (path.child number) = .descend ∧ path.isEntered rule = true := by
  rw [show (path.child number).isEntered rule =
    (rule (path.child number) == .descend && path.isEntered rule) from rfl]
  simp

theorem isEntered_iff : path.isEntered rule = true ↔ ∀ message : FieldPath,
    message.isAncestorOrSelf path = true → message ≠ root → rule message = .descend := by
  obtain ⟨numbers⟩ := path
  simp only [isAncestorOrSelf, List.isSuffixOf_iff_suffix]
  induction numbers with
  | nil =>
    refine ⟨fun _ message hself hroot => absurd ?_ hroot, fun _ => rfl⟩
    exact congrArg FieldPath.mk (List.suffix_nil.mp hself)
  | cons number outer ih =>
    refine (show ((mk outer).child number).isEntered rule = true ↔ _ from isEntered_child).trans ?_
    refine (and_congr_right fun _ => ih).trans ?_
    constructor
    · rintro ⟨hself, houter⟩ message hmessage hroot
      rcases List.suffix_cons_iff.mp hmessage with heq | hmessage
      · rwa [show message = ⟨number :: outer⟩ from congrArg FieldPath.mk heq]
      · exact houter message hmessage hroot
    · intro hall
      refine ⟨hall _ (List.suffix_refl _) (by simp [root, child]), fun message hmessage => ?_⟩
      exact hall message (hmessage.trans (List.suffix_cons ..))

theorem isAncestorOrSelf_parent {message : FieldPath} (hroot : message ≠ root) :
    message.isAncestorOrSelf path.parent = true ↔ message.isAncestor path = true := by
  obtain ⟨numbers⟩ := message
  obtain ⟨_ | ⟨number, outer⟩⟩ := path
  · simp_all [isAncestor, isAncestorOrSelf, parent, root, List.isSuffixOf_iff_suffix]
  · simp only [isAncestor, isAncestorOrSelf, parent, List.tail_cons, Bool.and_eq_true,
      List.isSuffixOf_iff_suffix, bne_iff_ne, ne_eq, mk.injEq]
    constructor
    · intro hsuffix
      refine ⟨hsuffix.trans (List.suffix_cons ..), ?_⟩
      rintro rfl
      exact absurd hsuffix.length_le (by simp)
    · rintro ⟨hsuffix, hne⟩
      exact (List.suffix_cons_iff.mp hsuffix).resolve_left hne

/-- The messages around a field are those at the ancestors of its path, without the root. -/
theorem isReached_iff : path.isReached rule = true ↔ ∀ message : FieldPath,
    message.isAncestor path = true → message ≠ root → rule message = .descend := by
  rw [isReached, isEntered_iff]
  constructor
  · exact fun h message hancestor hroot =>
      h message ((isAncestorOrSelf_parent hroot).mpr hancestor) hroot
  · exact fun h message hself hroot =>
      h message ((isAncestorOrSelf_parent hroot).mp hself) hroot

end FieldPath

namespace Node

variable {rule fewer : FieldPath → Decision} {path : FieldPath} {offset : Nat}
  {number : UInt64} {value : Bytes} {delivered : Bool} {node leaf : Node}
  {fields inner shallow : List Node} {bytes piece rest : Bytes} {events : List Event}

theorem filter_isScalar_payload :
    ((payload number value delivered).calls path).filter Call.isScalar = [] := by
  cases delivered <;> rfl

/-- What is in a message is reached only if the message is entered. -/
theorem Spells.isEntered_of_mem (h : Spells offset path fields bytes events) {call : Call}
    (hcall : call ∈ callsAll path fields) (hreached : call.path.isReached rule = true) :
    path.isEntered rule = true := by
  induction h with
  | nil => cases hcall
  | scalar _ _ ih =>
    rcases List.mem_append.mp hcall with hcall | hcall
    · cases List.mem_singleton.mp hcall
      exact hreached
    · exact ih hcall
  | payload _ _ ih =>
    rcases List.mem_append.mp hcall with hcall | hcall
    · rwa [path_of_mem_calls_payload hcall] at hreached
    · exact ih hcall
  | message _ _ _ ihInner ih =>
    rcases List.mem_append.mp hcall with hcall | hcall
    · rcases List.mem_cons.mp hcall with rfl | hcall
      · exact hreached
      · exact (FieldPath.isEntered_child.mp (ihInner hcall)).2
    · exact ih hcall

/-- Some fields, and the fields that stand in the same bytes where a rule says which messages are
entered. -/
structure Shallower (rule : FieldPath → Decision) (offset : Nat) (path : FieldPath) (bytes : Bytes)
    (fields shallow : List Node) : Prop where
  spells : ∃ events, Spells offset path shallow bytes events
  answered : ∀ call ∈ callsAll path shallow, call.AnsweredBy rule
  count_le : countAll shallow ≤ countAll fields
  height_le : heightAll shallow ≤ heightAll fields
  scalars : (callsAll path shallow).filter Call.isScalar =
    ((callsAll path fields).filter Call.isScalar).filter fun call => call.path.isReached rule

theorem Shallower.cons (hrest : Shallower rule (offset + piece.length) path rest fields shallow)
    (hspells : ∀ {events : List Event}, Spells (offset + piece.length) path shallow rest events →
      ∃ more, Spells offset path (leaf :: shallow) (piece ++ rest) more)
    (hanswered : ∀ call ∈ leaf.calls path, call.AnsweredBy rule)
    (hcount : leaf.count ≤ node.count) (hheight : leaf.height ≤ node.height)
    (hscalars : (leaf.calls path).filter Call.isScalar =
      ((node.calls path).filter Call.isScalar).filter fun call => call.path.isReached rule) :
    Shallower rule offset path (piece ++ rest) (node :: fields) (leaf :: shallow) where
  spells := hspells hrest.spells.choose_spec
  answered := List.forall_mem_append.mpr ⟨hanswered, hrest.answered⟩
  count_le := Nat.add_le_add hcount hrest.count_le
  height_le := by
    have hle := hrest.height_le
    simp only [heightAll]
    omega
  scalars := by
    simp only [callsAll, List.filter_append, hscalars, hrest.scalars]

/-- A payload that is not entered, with the answer that a rule gives. -/
theorem answered_payload (h : rule (path.child number) ≠ .descend) :
    ∀ call ∈ (payload number value (rule (path.child number) == .capture)).calls path,
      call.AnsweredBy rule := by
  cases hanswer : rule (path.child number) with
  | descend => exact absurd hanswer h
  | skip => exact List.forall_mem_cons.mpr ⟨hanswer.symm, by simp⟩
  | capture => exact List.forall_mem_cons.mpr ⟨hanswer.symm, by simp [Call.AnsweredBy]⟩

/-- What is not entered becomes a payload, and hides the scalars in it. -/
theorem Shallower.cons_payload {head : Bytes}
    (hrest : Shallower rule (offset + (head ++ value).length) path rest fields shallow)
    (hwritten : Item.Written (.payload number value) (head ++ value))
    (hclosed : rule (path.child number) ≠ .descend)
    (hcount : 1 ≤ node.count) (hheight : 1 ≤ node.height)
    (hhidden : ∀ call ∈ node.calls path, call.isScalar = true →
      call.path.isReached rule ≠ true) :
    ∃ leaf, Shallower rule offset path (head ++ value ++ rest) (node :: fields)
      (leaf :: shallow) := by
  refine ⟨_, hrest.cons (fun h => ⟨_, .payload hwritten h⟩) (answered_payload hclosed) hcount
    hheight ?_⟩
  rw [filter_isScalar_payload]
  refine (List.filter_eq_nil_iff.mpr fun call hcall => ?_).symm
  obtain ⟨hmem, hscalar⟩ := List.mem_filter.mp hcall
  exact hhidden call hmem hscalar

/-- Where fewer messages are entered, the same bytes hold fewer fields, and shallower ones. -/
theorem exists_shallower (hfewer : ∀ path, fewer path = .descend → rule path = .descend)
    (h : Spells offset path fields bytes events)
    (hanswered : ∀ call ∈ callsAll path fields, call.AnsweredBy rule)
    (hentered : path.isEntered fewer = true) :
    ∃ shallow, Shallower fewer offset path bytes fields shallow := by
  induction h with
  | nil => exact ⟨[], ⟨_, .nil⟩, nofun, Nat.le_refl _, Nat.le_refl _, rfl⟩
  | @scalar offset path number value fields written rest events hwritten hrest ih =>
    obtain ⟨shallow, hshallow⟩ := ih (List.forall_mem_append.mp hanswered).2 hentered
    refine ⟨.scalar number value :: shallow, hshallow.cons (fun h => ⟨_, .scalar hwritten h⟩)
      (by simp [calls, Call.AnsweredBy]) (Nat.le_refl _) (Nat.le_refl _) ?_⟩
    refine (List.filter_eq_self.mpr ?_).symm
    intro call hcall
    cases List.mem_singleton.mp (List.mem_filter.mp hcall).1
    exact hentered
  | @payload offset path number value delivered fields head rest events hwritten hrest ih =>
    obtain ⟨hasked, hmore⟩ := List.forall_mem_append.mp hanswered
    obtain ⟨shallow, hshallow⟩ := ih hmore hentered
    have hclosed : fewer (path.child number) ≠ .descend := by
      intro hdescend
      cases delivered with
      | false => cases (hasked _ List.mem_cons_self).trans (hfewer _ hdescend)
      | true => cases (hasked _ List.mem_cons_self).trans (hfewer _ hdescend)
    have hhidden : ∀ call ∈ (payload number value delivered).calls path, call.isScalar = true →
        call.path.isReached fewer ≠ true := by
      intro call hcall hscalar
      have hmem := List.mem_filter.mpr ⟨hcall, hscalar⟩
      rw [filter_isScalar_payload] at hmem
      cases hmem
    obtain ⟨leaf, hleaf⟩ := hshallow.cons_payload hwritten hclosed (Nat.le_refl _) (Nat.le_refl _)
      hhidden
    exact ⟨_, hleaf⟩
  | @message offset path number value inner fields head rest _ _ hwritten hinner hrest ihInner ih =>
    obtain ⟨hasked, hmore⟩ := List.forall_mem_append.mp hanswered
    obtain ⟨shallow, hshallow⟩ := ih hmore hentered
    by_cases hopen : fewer (path.child number) = .descend
    · obtain ⟨within, hwithin⟩ := ihInner (List.forall_mem_cons.mp hasked).2
        (FieldPath.isEntered_child.mpr ⟨hopen, hentered⟩)
      exact ⟨.message number within :: shallow, hshallow.cons
        (fun h => ⟨_, .message hwritten hwithin.spells.choose_spec h⟩)
        (List.forall_mem_cons.mpr ⟨hopen.symm, hwithin.answered⟩)
        (Nat.succ_le_succ hwithin.count_le) (Nat.succ_le_succ hwithin.height_le) hwithin.scalars⟩
    · have hhidden : ∀ call ∈ (message number inner).calls path, call.isScalar = true →
          call.path.isReached fewer ≠ true := by
        intro call hcall hscalar hreached
        rcases List.mem_cons.mp hcall with rfl | hmem
        · cases hscalar
        · exact hopen (FieldPath.isEntered_child.mp (hinner.isEntered_of_mem hmem hreached)).1
      obtain ⟨leaf, hleaf⟩ := hshallow.cons_payload hwritten hopen (Nat.le_add_left ..)
        (Nat.le_add_left ..) hhidden
      exact ⟨_, hleaf⟩

end Node

section Scan

open Node

variable {σ τ : Type} {P : Policy σ} {Q : Policy τ} {rule fewer : FieldPath → Decision}
  {bytes : Bytes} {state : σ} {limits : Limits} {fields : List Node} {events : List Event}

/-- A scan of fields as they stand, if a rule by which the policy decides made them these. -/
theorem scan_of_answered (hP : P.DecidesBy rule) (h : Spells 0 .root fields bytes events)
    (hexcess : (Scan.ofBytes bytes limits).excess? = none)
    (hroom : (Walk.fresh bytes state limits).Allows (heightAll fields))
    (hanswered : ∀ call ∈ callsAll .root fields, call.AnsweredBy rule) :
    (scan P bytes state limits).result = .ok () ∧
    (scan P bytes state limits).visited = countAll fields ∧
    (scan P bytes state limits).calls = callsAll .root fields := by
  obtain ⟨last, hreplay⟩ := hP.exists_replay_iff.mpr hanswered
  obtain ⟨hok, -, hcalls, hvisited⟩ := scan_eq_of_spells h hexcess hroom hreplay
  exact ⟨hok, hvisited, hcalls⟩

/-- **Entering fewer messages never breaks a scan.**  Take two policies that decide by path, where
the second enters no message that the first does not enter.  If the first one's scan succeeds, so
does the second one's.  It visits no more fields, and of the scalars that the first one is given, it
is given those around which it enters all messages (`FieldPath.isReached_iff`), in the same
order. -/
theorem scan_of_fewer_descents (hP : P.DecidesBy rule) (hQ : Q.DecidesBy fewer)
    (hfewer : ∀ path, fewer path = .descend → rule path = .descend)
    (bytes : Bytes) (state : σ) (other : τ) (limits : Limits)
    (hok : (scan P bytes state limits).result = .ok ()) :
    (scan Q bytes other limits).result = .ok () ∧
    (scan Q bytes other limits).visited ≤ (scan P bytes state limits).visited ∧
    (scan Q bytes other limits).calls.filter Call.isScalar =
      ((scan P bytes state limits).calls.filter Call.isScalar).filter
        fun call => call.path.isReached fewer := by
  obtain ⟨hexcess, fields, events, last, hspells, hreplay, hroom⟩ := spelled_of_scan hok
  have hanswered : ∀ call ∈ callsAll .root fields, call.AnsweredBy rule :=
    hP.exists_replay_iff.mp ⟨last, hreplay⟩
  obtain ⟨-, hvisited, hcalls⟩ := scan_of_answered hP hspells hexcess hroom hanswered
  obtain ⟨shallow, hshallow⟩ := exists_shallower hfewer hspells hanswered rfl
  obtain ⟨_, hstands⟩ := hshallow.spells
  have hless : (Walk.fresh bytes other limits).Allows (heightAll shallow) :=
    Walk.Allows.mono hroom hshallow.height_le
  obtain ⟨hsucceeds, hfew, hmade⟩ := scan_of_answered hQ hstands hexcess hless hshallow.answered
  rw [hvisited, hcalls, hfew, hmade]
  exact ⟨hsucceeds, hshallow.count_le, hshallow.scalars⟩

/-- Of two messages, one in the other, only the outer one is entered, and the number in the inner
one is no longer delivered. -/
theorem scan_of_fewer_descents_nested :
    (scan (.ofRules [(.ofList [1], .descend)] .capture)
      [0x0a, 0x06, 0x12, 0x02, 0x18, 0x07, 0x08, 0x05] () {}).calls.filter Call.isScalar =
      [.delivered .varint 1 [0x05] (.ofList [1, 1])] := by
  have hok : (scan (.ofRules [] .descend) [0x0a, 0x06, 0x12, 0x02, 0x18, 0x07, 0x08, 0x05] ()
      {}).result = .ok () := by
    rw [scan_of_toEnd rfl, Walk.toEnd_of_ok rfl rfl, Walk.toEnd_of_ok rfl rfl,
      Walk.toEnd_of_ok rfl rfl, Walk.toEnd_of_ok rfl rfl, Walk.toEnd_of_atEnd rfl]
    rfl
  have hfewer : ∀ path : FieldPath, Policy.ruling [(.ofList [1], .descend)] .capture path =
      .descend → Policy.ruling [] .descend path = .descend := fun _ _ => rfl
  obtain ⟨-, -, hscalars⟩ := scan_of_fewer_descents (Policy.decidesBy_ofRules [] .descend)
    (Policy.decidesBy_ofRules _ .capture) hfewer
    _ () () {} hok
  exact hscalars.trans (by decide +kernel)

end Scan
end FieldSieve
