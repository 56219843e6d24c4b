/-!
# Field paths

A field in a tree of messages is named by the field numbers on the way to it from the root.  The
path of the root itself is empty.

A scan enters and leaves one field at a time, and hands out the path at every step, so a path is
kept from the inside out: a child is one step longer and shares the rest with its parent.  Read
through `toList` it runs from the root inwards, and that is how its laws are stated.
-/
namespace FieldSieve

/-- The numbers on the way to a field. -/
structure FieldPath where
  /-- The field's own number first, then its parent's, up to the root. -/
  innermostFirst : List UInt64
  deriving DecidableEq, Repr

namespace FieldPath

/-- The empty path. -/
def root : FieldPath := ⟨[]⟩

instance : Inhabited FieldPath := ⟨root⟩

/-- The path with these numbers, outermost first. -/
def ofList (numbers : List UInt64) : FieldPath := ⟨numbers.reverse⟩

/-- The numbers, outermost first. -/
def toList (path : FieldPath) : List UInt64 := path.innermostFirst.reverse

/-- The path of a field inside this one. -/
def child (path : FieldPath) (number : UInt64) : FieldPath := ⟨number :: path.innermostFirst⟩

/-- The path of the message around the field.  The root is its own parent. -/
def parent (path : FieldPath) : FieldPath := ⟨path.innermostFirst.tail⟩

/-- The field's own number. -/
def last? (path : FieldPath) : Option UInt64 := path.innermostFirst.head?

/-- How many numbers there are. -/
def length (path : FieldPath) : Nat := path.innermostFirst.length

/-- There are no numbers. -/
def isRoot (path : FieldPath) : Bool := path.innermostFirst.isEmpty

/-- The other path goes through this one or ends there. -/
def isAncestorOrSelf (path other : FieldPath) : Bool :=
  path.innermostFirst.isSuffixOf other.innermostFirst

/-- The other path goes through this one and further. -/
def isAncestor (path other : FieldPath) : Bool :=
  path.isAncestorOrSelf other && path != other

/-- The paths that this one goes through, outermost first, without the root. -/
def ancestors (path : FieldPath) : List FieldPath :=
  (List.range' 1 (path.length - 1)).map fun n => ofList (path.toList.take n)

variable {p q : FieldPath} {n : UInt64}

@[ext] theorem ext (h : p.toList = q.toList) : p = q := by
  cases p; cases q; simpa [toList] using h

@[simp] theorem toList_ofList (numbers : List UInt64) : (ofList numbers).toList = numbers := by
  simp [ofList, toList]

@[simp] theorem ofList_toList (p : FieldPath) : ofList p.toList = p := by
  simp [ofList, toList]

@[simp] theorem toList_root : root.toList = [] := rfl

@[simp] theorem toList_child : (p.child n).toList = p.toList ++ [n] := by
  simp [child, toList]

@[simp] theorem toList_parent : p.parent.toList = p.toList.dropLast := by
  simp [parent, toList]

@[simp] theorem last?_eq : p.last? = p.toList.getLast? := by
  simp [last?, toList]

@[simp] theorem length_toList : p.toList.length = p.length := by
  simp [toList, length]

@[simp] theorem parent_child : (p.child n).parent = p := rfl

theorem isRoot_iff : p.isRoot = true ↔ p = root := by
  cases p; simp [isRoot, root]

theorem isAncestorOrSelf_iff : p.isAncestorOrSelf q = true ↔ p.toList <+: q.toList := by
  simp [isAncestorOrSelf, toList, List.isSuffixOf_iff_suffix]

/-- An ancestor is a prefix that is not the whole. -/
theorem isAncestor_iff : p.isAncestor q = true ↔ p.toList <+: q.toList ∧ p ≠ q := by
  simp [isAncestor, isAncestorOrSelf_iff]

/-- No path is on the way to the root. -/
theorem ne_root_of_isAncestor (h : p.isAncestor q = true) : q ≠ root := by
  rintro rfl
  obtain ⟨hthrough, hne⟩ := isAncestor_iff.mp h
  exact hne (ext (List.prefix_nil.mp hthrough))

theorem mem_ancestors_iff : p ∈ q.ancestors ↔ p ≠ root ∧ p.isAncestor q = true := by
  rw [ancestors, List.mem_map, isAncestor_iff]
  constructor
  · rintro ⟨n, hn, rfl⟩
    obtain ⟨hpos, hlt⟩ : 1 ≤ n ∧ n < q.toList.length := by
      rw [List.mem_range'_1] at hn
      rw [length_toList]
      omega
    have hlength : (ofList (q.toList.take n)).toList.length = n := by
      rw [toList_ofList, List.length_take]
      omega
    refine ⟨fun hroot => ?_, ?_, fun hself => ?_⟩
    · rw [hroot, toList_root, List.length_nil] at hlength
      omega
    · rw [toList_ofList]
      exact List.take_prefix n _
    · rw [hself] at hlength
      omega
  · rintro ⟨hroot, hthrough, hne⟩
    refine ⟨p.length, ?_, FieldPath.ext ?_⟩
    · have hpos : p.toList.length ≠ 0 := fun h => hroot (ext (List.length_eq_zero_iff.mp h))
      have hlt : p.toList.length < q.toList.length :=
        Nat.lt_of_le_of_ne hthrough.length_le fun h => hne (ext (hthrough.eq_of_length h))
      rw [length_toList] at hpos hlt
      rw [length_toList] at hlt
      rw [List.mem_range'_1]
      omega
    · rw [toList_ofList, ← length_toList, ← List.prefix_iff_eq_take.mp hthrough]

end FieldPath
end FieldSieve
