/-!
# Sets of characters as ranges

A property of characters is a list of ranges of code points, ascending and apart.  The properties in
this folder are those of Unicode 14.0.
-/

namespace BasicScript.Text

/-- Ranges of code points, each with its first and its last. -/
abbrev Ranges := List (Nat × Nat)

/-- The ranges behind a code point, from the widths of what is between them and of themselves in
turn. -/
def Ranges.ofWidths (start : Nat) : List Nat → Ranges
  | gap :: width :: rest => (start + gap, start + gap + width - 1) ::
    ofWidths (start + gap + width) rest
  | _ => []

/-- Whether a character is in one of the ranges. -/
def Ranges.holds (ranges : Ranges) (c : Char) : Bool :=
  ranges.any fun (first, last) => first ≤ c.toNat && c.toNat ≤ last

end BasicScript.Text
