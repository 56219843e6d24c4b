import FieldSieve.Proofs.OpenedTrees
import FieldSieve.Proofs.Replays

/-!
# In which form values are delivered

What a policy is given of a field depends on the wire type: a number comes on its shortest bytes,
however it stood in the buffer, a value of fixed width on so many bytes, and a payload as it is.
Nothing is ever delivered of a group (`Walk.deliverable_of_field`).

So a value that is delivered is known by its type and the number that it stands for
(`CapturedField.Deliverable.value_eq`).  Bytes as such are not: two of them may stand for one
number.
-/
namespace FieldSieve

namespace CapturedField

variable {field other : CapturedField}

/-- Values of this type are delivered in this form. -/
def Deliverable (field : CapturedField) : Prop :=
  match field.wireType with
  | .varint => ∃ word : UInt64, field.value = Bytes.shortest word.toNat
  | .fixed64 => field.value.length = 8
  | .fixed32 => field.value.length = 4
  | .lengthDelimited => True
  | .startGroup | .endGroup => False

theorem deliverable_scalar (value : Scalar) (path : FieldPath) :
    Deliverable ⟨path, value.wireType, value.bytes⟩ := by
  cases value with
  | varint word => exact ⟨word, Scalar.bytes_varint word⟩
  | fixed64 word => exact Bytes.length_littleEndian 8 _
  | fixed32 word => exact Bytes.length_littleEndian 4 _

theorem Deliverable.isScalar (h : field.Deliverable) (hpayload : field.wireType ≠ .lengthDelimited) :
    field.wireType.isScalar = true := by
  rw [Deliverable] at h
  split at h <;> simp_all [WireType.isScalar]

/-- A number is delivered in one form. -/
theorem Deliverable.value_eq (h : field.Deliverable) (hother : other.Deliverable)
    (htype : other.wireType = field.wireType) (hscalar : field.wireType.isScalar = true)
    (hword : other.value.word = field.value.word) : other.value = field.value := by
  rw [Deliverable] at h hother
  rw [htype] at hother
  cases hfield : field.wireType with
  | varint =>
    simp only [hfield] at h hother
    obtain ⟨word, hvalue⟩ := h
    obtain ⟨same, hsame⟩ := hother
    rw [hvalue, hsame, Bytes.word_shortest, Bytes.word_shortest] at hword
    rw [hvalue, hsame, hword]
  | fixed64 =>
    simp only [hfield] at h hother
    rw [← Bytes.littleEndian_word64 h, ← Bytes.littleEndian_word64 hother, hword]
  | fixed32 =>
    simp only [hfield] at h hother
    rw [← Bytes.littleEndian_word32 h, ← Bytes.littleEndian_word32 hother, hword]
  | lengthDelimited | startGroup | endGroup =>
    rw [hfield] at hscalar
    cases hscalar

end CapturedField

/-- Whatever becomes of a field, what is delivered of it has the form of its type. -/
theorem Walk.deliverable_of_field {σ : Type} (P : Policy σ) (walk : Walk σ) :
    ∃ made, (stateAfter (field P walk)).calls = walk.calls ++ made ∧
      ∀ call ∈ made, ∀ field ∈ call.received?, field.Deliverable := by
  have houtcome := fieldOutcome P walk
  generalize field P walk = result at houtcome
  cases houtcome with
  | badKey => exact ⟨[], (List.append_nil _).symm, nofun⟩
  | tooDeep | noValue | noLength => exact ⟨[], calls_inside, nofun⟩
  | missing | outside => exact ⟨_, calls_inside, List.forall_mem_singleton.mpr nofun⟩
  | @scalar key value c d h hread =>
    refine ⟨_, calls_of_journal journal_close, List.forall_mem_singleton.mpr ?_⟩
    obtain ⟨behind, hbehind, -⟩ := Item.readBehind_eq_ok_iff.mp hread
    rintro field ⟨⟩
    rw [hbehind.wireType_eq]
    exact CapturedField.deliverable_scalar value _
  | skipped | descended =>
    exact ⟨_, calls_of_journal journal_close, List.forall_mem_singleton.mpr nofun⟩
  | captured h =>
    refine ⟨_, calls_of_journal journal_close, List.forall_mem_cons.mpr ⟨nofun, ?_⟩⟩
    refine List.forall_mem_singleton.mpr ?_
    rintro field ⟨⟩
    rw [h.wireType]
    trivial

end FieldSieve
