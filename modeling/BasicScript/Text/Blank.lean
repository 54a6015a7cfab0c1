import BasicScript.Text.Ranges

/-!
# Blank characters

The white space of all scripts: the ASCII blanks, the next-line control, the no-break space, the
spaces of other widths, and the line and paragraph separators.  A space of no width is not blank.
-/

namespace BasicScript.Text

/-- The blank characters. -/
def blankRanges : Ranges :=
  [(0x9, 0xD), (0x20, 0x20), (0x85, 0x85), (0xA0, 0xA0), (0x1680, 0x1680), (0x2000, 0x200A),
   (0x2028, 0x2029), (0x202F, 0x202F), (0x205F, 0x205F), (0x3000, 0x3000)]

def isBlank (c : Char) : Bool := blankRanges.holds c

end BasicScript.Text
