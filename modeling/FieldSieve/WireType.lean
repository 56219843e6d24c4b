/-!
# Wire types

The low three bits of a key say how the value after it is stored.  Six of the eight numbers are
assigned; two of those mark the ends of a group and have no value of their own.
-/
namespace FieldSieve

/-- How a value is stored. -/
inductive WireType where
  /-- Seven bits a byte. -/
  | varint
  /-- Eight bytes. -/
  | fixed64
  /-- A length and that many bytes. -/
  | lengthDelimited
  /-- The start of a group. -/
  | startGroup
  /-- The end of a group. -/
  | endGroup
  /-- Four bytes. -/
  | fixed32
  deriving DecidableEq, Repr

namespace WireType

/-- The number in a key. -/
def id : WireType → Nat
  | varint => 0
  | fixed64 => 1
  | lengthDelimited => 2
  | startGroup => 3
  | endGroup => 4
  | fixed32 => 5

/-- The type with a given number. -/
def ofId? : Nat → Option WireType
  | 0 => some varint
  | 1 => some fixed64
  | 2 => some lengthDelimited
  | 3 => some startGroup
  | 4 => some endGroup
  | 5 => some fixed32
  | _ => none

/-- The name used in reports. -/
def name : WireType → String
  | varint => "varint"
  | fixed64 => "fixed64"
  | lengthDelimited => "length_delimited"
  | startGroup => "start_group"
  | endGroup => "end_group"
  | fixed32 => "fixed32"

/-- A value of this type is an integer. -/
def isScalar : WireType → Bool
  | varint | fixed64 | fixed32 => true
  | _ => false

/-- The type marks one end of a group. -/
def isGroup : WireType → Bool
  | startGroup | endGroup => true
  | _ => false

@[simp] theorem ofId?_id (type : WireType) : ofId? type.id = some type := by
  cases type <;> rfl

theorem id_of_ofId? {n : Nat} {type : WireType} (h : ofId? n = some type) : type.id = n := by
  unfold ofId? at h
  split at h <;> cases h <;> rfl

theorem ofId?_eq_none_iff {n : Nat} : ofId? n = none ↔ 6 ≤ n := by
  constructor
  · intro h
    unfold ofId? at h
    split at h <;> simp_all
    omega
  · intro h
    unfold ofId?
    split <;> first | rfl | omega

end WireType
end FieldSieve
