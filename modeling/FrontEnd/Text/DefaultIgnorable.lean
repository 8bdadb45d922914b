import FrontEnd.Text.Unprintable

/-!
# Characters to be ignored in display

The characters with the property Default_Ignorable_Code_Point: joiners, variation selectors, fillers
and other characters that leave no mark where they are not supported. Most are of a category without
glyphs; the Hangul fillers are letters.

## Main definitions

* `FrontEnd.Text.defaultIgnorableRanges` — the ranges of their code points, first and last included.
* `FrontEnd.Text.isDefaultIgnorable` — whether a character is one of them.
-/

namespace FrontEnd.Text

/-- The ranges of the characters to be ignored in display, in ascending order. -/
def defaultIgnorableRanges : List (Nat × Nat) :=
  [(0xad, 0xad), (0x34f, 0x34f), (0x61c, 0x61c), (0x115f, 0x1160), (0x17b4, 0x17b5),
    (0x180b, 0x180f), (0x200b, 0x200f), (0x202a, 0x202e), (0x2060, 0x206f), (0x3164, 0x3164),
    (0xfe00, 0xfe0f), (0xfeff, 0xfeff), (0xffa0, 0xffa0), (0xfff0, 0xfff8), (0x1bca0, 0x1bca3),
    (0x1d173, 0x1d17a), (0xe0000, 0xe0fff)]

/-- Whether a character is to be ignored in display. -/
def isDefaultIgnorable (c : Char) : Bool :=
  inRanges defaultIgnorableRanges c

end FrontEnd.Text
