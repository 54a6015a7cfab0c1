import BasicScript.Proofs.Expression

/-!
# The vocabulary letter by letter

Whether a word is a keyword, a builtin function or reserved is checked for many words at once, by
their characters (`Letters`).
-/

namespace BasicScript

open List

variable {word : String} {text : List Char}

namespace Vocabulary

def keywordLetters : Letters keywords := by
  apply Subtype.mk
  case property =>
    unfold keywords consoleWords flowWords procedureWords dataWords typeWords logicalWords
      deviceWords fileWords graphicsWords errorWords memoryWords defaultTypeWords screenWords
      colorWords inputWords soundWords systemWords mathWords conversionWords clockWords
    repeat' first | apply letters_append | apply letters_cons
    all_goals exact map_nil.symm

def builtinLetters : Letters (builtinRows.map (·.name)) := by
  apply Subtype.mk
  case property =>
    unfold builtinRows mathRows conversionRows stringRows clockRows extendedMathRows
      arrayRows systemRows fileRows truthRows deviceRows colorRows imageRows memoryRows soundRows
      errorRows binaryRows
    simp only [map_append, map_cons, map_nil]
    repeat' first | apply letters_append | apply letters_cons
    all_goals exact map_nil.symm

def templateLetters : Letters (builtinRows.map (·.template)) := by
  apply Subtype.mk
  case property =>
    unfold builtinRows mathRows conversionRows stringRows clockRows extendedMathRows
      arrayRows systemRows fileRows truthRows deviceRows colorRows imageRows memoryRows soundRows
      errorRows binaryRows roundHalfEven secondsOfDay
    simp only [map_append, map_cons, map_nil]
    repeat' first | apply letters_append | apply letters_cons | apply letters_join
    all_goals first | exact map_nil.symm | exact rfl | exact text_append rfl

/-- The characters of the capital form of a word. -/
def capital (text : List Char) : List Char := text.flatMap Text.upperChar

theorem upper_ofList (text : List Char) :
    Text.upper (String.ofList text) = String.ofList (capital text) := by
  rw [Text.upper, String.toList_ofList, capital]

theorem contains_upper_ofList :
    keywords.contains (Text.upper (String.ofList text)) = true ↔
      capital text ∈ keywordLetters.1 := by
  rw [upper_ofList, contains_iff_mem]
  exact keywordLetters.mem_iff

theorem builtin?_ofList (h : capital text ∉ builtinLetters.1) :
    builtin? (String.ofList text) = none := by
  rw [builtin?, upper_ofList, Option.eq_none_iff_forall_ne_some]
  intro row hrow
  have hmem : String.ofList (capital text) ∈ builtinRows.map (·.name) := by
    obtain ⟨row', hrow', heq⟩ := mem_map.1 (mem_of_get? hrow)
    exact mem_map.2 ⟨row', hrow', congrArg Prod.fst heq⟩
  exact h (builtinLetters.mem_iff.1 hmem)

end Vocabulary

namespace Script

def reservedLetters : Letters reserved := by
  apply Subtype.mk
  case property =>
    unfold reserved
    repeat' apply letters_cons
    all_goals exact map_nil.symm

end Script

end BasicScript
