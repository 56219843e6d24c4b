import FieldSieve.Proofs.SlicedScan

/-!
# Scanning what was written

A tree that is written and scanned comes back: the scan succeeds, visits as many fields as the tree
has, and makes the calls of a walk over it.  The policy has to say which payloads are messages, so
it is asked for no more than the answers that stand in the tree, each at the call where it is due
(`Policy.replay`).

For every tree there is such a policy, one that gives its answers off a list (`Policy.scripted`).
-/
namespace FieldSieve

namespace Node

mutual

/-- The numbers of a field and of all fields in it. -/
def numbers : Node → List UInt64
  | scalar number _ => [number]
  | payload number _ _ => [number]
  | message number fields => number :: numbersAll fields

/-- The numbers of the fields of a message, at any depth. -/
def numbersAll : List Node → List UInt64
  | [] => []
  | node :: rest => node.numbers ++ numbersAll rest

end

/-- Fields as they are written are fields as they stand, at every depth. -/
theorem spells_encodeAll (fields : List Node) (offset : Nat) (path : FieldPath)
    (hnumbers : ∀ number ∈ numbersAll fields, number.toNat < 2 ^ 61)
    (hlength : (encodeAll fields).length < 2 ^ 64) :
    ∃ events, Spells offset path fields (encodeAll fields) events := by
  match fields with
  | [] => exact ⟨[], .nil⟩
  | .scalar number value :: rest =>
    simp only [numbersAll, numbers, List.cons_append, List.nil_append, List.forall_mem_cons]
      at hnumbers
    simp only [encodeAll, encode, List.length_append] at hlength
    have hwritten := Item.written_scalar value hnumbers.1
    obtain ⟨events, hrest⟩ := spells_encodeAll rest _ path hnumbers.2 (by omega)
    exact ⟨_, .scalar hwritten hrest⟩
  | .payload number value delivered :: rest =>
    simp only [numbersAll, numbers, List.cons_append, List.nil_append, List.forall_mem_cons]
      at hnumbers
    simp only [encodeAll, encode, Message.payload, List.length_append] at hlength
    have hwritten := Item.written_payload hnumbers.1 (show value.length < 2 ^ 64 by omega)
    obtain ⟨events, hrest⟩ := spells_encodeAll rest _ path hnumbers.2 (by omega)
    exact ⟨_, .payload hwritten hrest⟩
  | .message number inner :: rest =>
    simp only [numbersAll, numbers, List.cons_append, List.forall_mem_cons, List.forall_mem_append]
      at hnumbers
    simp only [encodeAll, encode, Message.payload, List.length_append] at hlength
    have hinside : (encodeAll inner).length < 2 ^ 64 := by omega
    have hwritten := Item.written_payload hnumbers.1 hinside
    obtain ⟨innerEvents, hinner⟩ := spells_encodeAll inner _ _ hnumbers.2.1 hinside
    obtain ⟨events, hrest⟩ := spells_encodeAll rest _ path hnumbers.2.2 (by omega)
    exact ⟨_, .message hwritten hinner hrest⟩

variable {σ : Type}

end Node
end FieldSieve
