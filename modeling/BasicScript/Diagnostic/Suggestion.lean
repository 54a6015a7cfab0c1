import BasicScript.Diagnostic.EditDistance
import BasicScript.Sequence
import BasicScript.Text.Case

/-!
# Suggestions for a misspelt word

The words of a vocabulary that lie near to a word, the nearest first and words at the same distance
in the order of the vocabulary.
-/

namespace BasicScript.Suggestion

/-- The distance of two words without regard to case. -/
def distance (word candidate : String) : Nat :=
  EditDistance.distance (Text.upper word) (Text.upper candidate)

/-- The words within `reach`, each with its distance. -/
def scored (word : String) (vocabulary : List String) (reach : Int) : List (Nat × String) :=
  (vocabulary.map fun candidate => (distance word candidate, candidate)).filter
    fun (steps, _) => (steps : Int) ≤ reach

/-- The nearest words of a vocabulary, `limit` of them at most; a negative limit leaves out that
many at the end. -/
def nearestWords (word : String) (vocabulary : List String) (reach limit : Int) : List String :=
  let nearest := (scored word vocabulary reach).mergeSort fun a b => a.1 ≤ b.1
  (Sequence.slice nearest none (some limit)).map (·.2)

/-- How far a suggestion may lie from the word, where nothing else is asked for. -/
def usualReach : Int := 2

/-- How many suggestions are made, where nothing else is asked for. -/
def usualLimit : Int := 3

/-- The suggestions for a word of the source. -/
def suggest (word : String) (vocabulary : List String) : List String :=
  nearestWords word vocabulary usualReach usualLimit

end BasicScript.Suggestion
