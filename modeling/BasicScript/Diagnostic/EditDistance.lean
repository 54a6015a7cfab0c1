/-!
# Edit distance

The number of single-character insertions, deletions and substitutions between two texts, computed
row by row: the row of a front part of one text holds its distances to all front parts of the other.
-/

namespace BasicScript.EditDistance

/-- The rest of the row of one more character `c`.  `left` is the entry just computed, `corner` the
one above it, and the list holds the entries above those still to come. -/
def fillRow (c : Char) : List Char → Nat → Nat → List Nat → List Nat
  | d :: rest, left, corner, above :: aboves =>
    let entry := if c = d then corner else min corner (min left above) + 1
    entry :: fillRow c rest entry above aboves
  | _, _, _, _ => []

/-- The row of one more character, from the row before it. -/
def nextRow (other : List Char) (row : List Nat) (c : Char) : List Nat :=
  match row with
  | [] => []
  | first :: rest => (first + 1) :: fillRow c other (first + 1) first rest

/-- The row of the empty text: as many insertions as there are characters. -/
def firstRow (other : List Char) : List Nat :=
  List.range (other.length + 1)

/-- The row of a text. -/
def lastRow (text other : List Char) : List Nat :=
  text.foldl (nextRow other) (firstRow other)

/-- The edit distance between two texts.  No table is needed for equal texts and for an empty
one. -/
def distance (a b : String) : Nat :=
  if a = b then 0
  else if a.isEmpty then b.length
  else if b.isEmpty then a.length
  else (lastRow a.toList b.toList).getLast?.getD 0

end BasicScript.EditDistance
