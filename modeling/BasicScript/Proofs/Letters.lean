/-!
# Texts letter by letter

Checks that many texts have something in common are made on their characters.  To take a literal
apart is slow there, so texts are paired with their characters once and for all (`Letters`), and the
checks compare characters.
-/

namespace BasicScript

open List

variable {word : String} {words others : List String} {texts more : List (List Char)}
    {text front back : List Char}

/-- Words with their characters.  Those of a literal are found when the pair is made. -/
abbrev Letters (words : List String) : Type :=
  { texts : List (List Char) // words = texts.map String.ofList }

theorem text_append (h : word = String.ofList front) :
    word ++ String.ofList back = String.ofList (front ++ back) := by
  rw [h, String.ofList_append]

theorem letters_cons (h : words = texts.map String.ofList) :
    String.ofList text :: words = (text :: texts).map String.ofList := by
  rw [h, map_cons]

theorem letters_join (hword : word = String.ofList front) (h : words = texts.map String.ofList) :
    (word ++ String.ofList back) :: words = ((front ++ back) :: texts).map String.ofList := by
  rw [text_append hword, letters_cons h]

theorem letters_append (h : words = texts.map String.ofList)
    (h' : others = more.map String.ofList) :
    words ++ others = (texts ++ more).map String.ofList := by
  rw [h, h', map_append]

/-- What is cut out of words, with its characters. -/
def Letters.flatMap (letters : Letters words) (f : List Char → List (List Char)) :
    Letters (words.flatMap fun word => (f word.toList).map String.ofList) :=
  ⟨letters.1.flatMap f, by
    obtain ⟨texts, rfl⟩ := letters
    simp only [flatMap_map, String.toList_ofList, map_flatMap]⟩

theorem Letters.mem_iff (letters : Letters words) :
    String.ofList text ∈ words ↔ text ∈ letters.1 := by
  obtain ⟨texts, rfl⟩ := letters
  simp [String.ofList_inj]

/-- What holds of the characters of all words. -/
theorem Letters.forall_mem {P : String → Prop} (letters : Letters words)
    (h : ∀ text ∈ letters.1, P (String.ofList text)) : ∀ word ∈ words, P word := by
  obtain ⟨texts, rfl⟩ := letters
  simpa using h

end BasicScript
