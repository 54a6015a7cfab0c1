import BasicScript.Vocabulary.BuiltinRows
import BasicScript.Vocabulary.Keyword

/-!
# The vocabulary

Every word that may be suggested in place of an unknown one: the keywords and the builtin functions,
in code point order.
-/

namespace BasicScript.Vocabulary

/-- The names of the builtins that are not keywords as well. -/
def ownBuiltinNames : List String :=
  builtins.keys.filter fun name => !keywords.contains name

/-- All words, sorted. -/
def words : List String :=
  (keywords ++ ownBuiltinNames).mergeSort fun a b => decide (a ≤ b)

end BasicScript.Vocabulary
