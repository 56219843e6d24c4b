import FieldSieve.FieldPath.Text
import FieldSieve.Nesting

/-!
# The path text of the open frames

The path of the open frames is wanted as text now and then, while frames are opened and closed at
every field.  So the text is put together when someone asks for it, and it is kept for whoever asks
next.  Opening or closing a frame drops it.  Setting the end of a frame changes no number, and the
text stays.

The types do not say that a text that is kept belongs to the frames that are open now.  It is the
operations that see to it, each by dropping the text or by leaving the numbers alone.
-/
namespace FieldSieve

/-- Open frames, and the text of their path if it is known. -/
structure LabelledNesting where
  nesting : Nesting
  /-- The text that was put together last, unless it was dropped. -/
  label : Option String

namespace LabelledNesting

/-- No frame is open, and nobody has asked. -/
def empty : LabelledNesting := ⟨.empty, none⟩

/-- Opens a frame inside all others. -/
def push (labelled : LabelledNesting) (number : UInt64) (finish : Option Nat) : LabelledNesting :=
  ⟨labelled.nesting.push number finish, none⟩

/-- Sets the end of the innermost frame. -/
def setEnd (finish : Nat) : EStateM Fault LabelledNesting Unit := fun labelled =>
  match labelled.nesting.setEnd finish with
  | .ok nesting => .ok () { labelled with nesting }
  | .error fault => .error fault labelled

/-- Closes the innermost frame and gives it back, if there is one. -/
def pop : StateM LabelledNesting (Option Frame) := fun labelled =>
  match labelled.nesting.top? with
  | some frame => (some frame, ⟨labelled.nesting.pop, none⟩)
  | none => (none, labelled)

/-- The text of the path: the one that is kept, or a new one. -/
def text : StateM LabelledNesting String := fun labelled =>
  match labelled.label with
  | some label => (label, labelled)
  | none =>
    let label := labelled.nesting.path.text
    (label, { labelled with label := some label })

end LabelledNesting
end FieldSieve
