import FieldSieve.Text.CharRange

/-!
# Ignorable characters

The property `Default_Ignorable_Code_Point`: characters that show nothing at all unless something
around them asks for it.  Most are format marks or unassigned; the four fillers of the Korean script
are letters, and look like nothing all the same.
-/
namespace FieldSieve.Text

/-- The ranges of the property. -/
def defaultIgnorableRanges : List CharRange :=
  [(0xad, 0xad), (0x34f, 0x34f), (0x61c, 0x61c), (0x115f, 0x1160), (0x17b4, 0x17b5),
    (0x180b, 0x180f), (0x200b, 0x200f), (0x202a, 0x202e), (0x2060, 0x206f), (0x3164, 0x3164),
    (0xfe00, 0xfe0f), (0xfeff, 0xfeff), (0xffa0, 0xffa0), (0xfff0, 0xfff8), (0x1bca0, 0x1bca3),
    (0x1d173, 0x1d17a), (0xe0000, 0xe0fff)]

/-- The character shows nothing by itself. -/
def isDefaultIgnorable (c : Char) : Bool :=
  CharRange.holds defaultIgnorableRanges c

example : CharRange.separated defaultIgnorableRanges := by decide

end FieldSieve.Text
