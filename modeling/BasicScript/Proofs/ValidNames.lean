import BasicScript.Proofs.NamesInScope
import BasicScript.Proofs.VocabularyTexts

/-!
# JavaScript names

A declared name is made from a word of the source, so it begins with a letter or an underscore, and
it is no word that JavaScript forbids: those words are reserved, or they are keywords, which no name
of the source is.  A numeric suffix becomes a tail at the end of a word only.  In a name with points
it can also stand in front of a point, and there it is written as it is, although no JavaScript name
has such a character.

* `Tape.Words.spelled`: names without an underscore inside them are spelled by the source, letter by
  letter.
* `declared_names_valid`: which declared names are JavaScript names.
-/

namespace BasicScript

open Emit

open Lexer (isLetter isWordChar isWordSuffix)

open Script (mangle suffixTail? reserved)

variable {tape : Tape} {key w x : String}

/-! ### Forbidden words -/

namespace Script

/-- Words that strict JavaScript forbids as names, inside an asynchronous function. -/
def forbidden : List String :=
  ["arguments", "await", "break", "case", "catch", "class", "const", "continue", "debugger",
    "default", "delete", "do",
   "else", "enum", "eval", "export", "extends", "false", "finally", "for", "function",
   "if", "implements", "import", "in", "instanceof", "interface", "let", "new", "null", "package",
   "private", "protected", "public", "return", "static", "super", "switch", "this", "throw", "true",
   "try", "typeof", "var", "void", "while", "with", "yield"]

def forbiddenLetters : Letters forbidden := by
  apply Subtype.mk
  case property =>
    unfold forbidden
    repeat' apply letters_cons
    exact List.map_nil.symm

/-- A forbidden word is reserved, or it is a keyword without an underscore. -/
theorem forbidden_facts : ∀ x ∈ forbidden, x ∈ reserved ∨ '_' ∉ x.toList.tail ∧
    "FN".toList.isPrefixOf x.toList = false ∧
      Vocabulary.keywords.contains (Text.upper x) = true := by
  have hall : ∀ text ∈ forbiddenLetters.1, text ∈ reservedLetters.1 ∨ '_' ∉ text.tail ∧
      "FN".toList.isPrefixOf text = false ∧
        Vocabulary.capital text ∈ Vocabulary.keywordLetters.1 := by
    decide +kernel
  refine forbiddenLetters.forall_mem fun text htext => ?_
  rw [reservedLetters.mem_iff, Vocabulary.contains_upper_ofList, String.toList_ofList]
  exact hall text htext

end Script

/-! ### Words -/

namespace Tape

/-- **Spelled names.**  A name without an underscore inside it that does not begin like that of a
one-line function is spelled by a token of the source. -/
theorem Words.spelled (h : tape.Words key w) (hx : mangle w = x) (hinside : '_' ∉ x.toList.tail)
    (hfunction : "FN".toList.isPrefixOf x.toList = false) :
    ∃ token, tape.Names token ∧ token.text = x := by
  have hinner {a b : List Char} (ha : a ≠ []) (htext : x.toList = a ++ '_' :: b) : False := by
    rw [htext, List.tail_append_of_ne_nil ha] at hinside
    exact hinside (by simp)
  rcases Script.mangle_eq_iff.1 hx with hreplaced | ⟨rfl, -⟩
  · -- What replaces a word has an underscore behind it.
    cases hreplaced with
    | @suffix front tail c hsuffix =>
      have hfirst : ∀ p ∈ Script.tails, p.2.toList.head? = some '_' := by decide
      obtain ⟨rest, hrest⟩ :=
        List.head?_eq_some_iff.1 (hfirst _ (Script.suffixTail?_eq_some_iff.1 hsuffix))
      exact (hinner (h.lettered.front_ne_nil hsuffix) (by rw [String.toList_append, hrest])).elim
    | reserved hword => exact (hinner h.lettered.ne_nil (by rw [String.toList_append]; rfl)).elim
  · cases h with
    | name hname =>
      cases hname with
      | word htoken => exact ⟨_, htoken, (Script.undotted_of_chars htoken.word.chars).symm⟩
      | @dotted name token hname hmem hword =>
        refine (hinner hname.lettered.ne_nil (b := (Script.undotted token.text).toList) ?_).elim
        rw [Script.undotted_append, Script.undotted_append, String.toList_append,
          String.toList_append]
        simp [Script.undotted]
    | title htitle =>
      cases htitle with
      | name htoken => exact ⟨_, htoken, rfl⟩
      | function htoken => simp at hfunction
    | result htitle =>
      exact (hinner htitle.word.lettered.mangle.ne_nil (by rw [String.toList_append]; rfl)).elim

/-- No declared name is forbidden. -/
theorem Words.mangle_not_forbidden (h : tape.Words key w) : mangle w ∉ Script.forbidden := by
  -- A forbidden word that is not reserved is a keyword, which the source does not spell as a name.
  intro hmem
  rcases Script.forbidden_facts _ hmem with hreserved | ⟨hinside, hfunction, hkeyword⟩
  · exact (Script.settled_mangle w).unreserved hreserved
  · obtain ⟨token, htoken, htext⟩ := h.spelled rfl hinside hfunction
    rw [← htext, htoken.unknown] at hkeyword
    cases hkeyword

end Tape

/-! ### Declared names -/

/-- **Declared names.**  Wherever a statement of a source can begin, and at the end of the pass,
every declared name is made from a word of the source and is no forbidden word.  It is a JavaScript
name exactly if no numeric suffix stands inside the word; so are the names of parameters,
procedures, one-line functions and record types. -/
theorem declared_names_valid (source : String) (hread : (Lexer.scan source).fault = none)
    (collector : Collector) (s : State)
    (hobserved : Observed (Lexer.scan source).tokens.toArray collector s) :
    (∀ x ∈ s.declaredNames, ∃ key word, (Tape.ofSource source hread).Words key word ∧
      x = mangle word ∧ x ∉ Script.forbidden ∧
      (Script.isIdentifier x = true ↔ ∀ c ∈ word.toList.dropLast, suffixTail? c = none)) ∧
    ∀ x ∈ s.titles, Script.isIdentifier x = true := by
  obtain ⟨s₀, page, hvisited, rfl⟩ := hobserved.exists_visited hread
  constructor
  · intro x hx
    obtain ⟨key, word, hword, rfl⟩ := hvisited.calls hx
    exact ⟨key, word, hword, rfl, hword.mangle_not_forbidden,
      Script.isIdentifier_mangle_iff hword.lettered⟩
  · intro x hx
    obtain ⟨key, htitled⟩ := hvisited.titled hx
    exact htitled.isIdentifier

/-- The declared names, those that are titles, the lines of the page, and whether there is no
error. -/
def State.declares (s : State) : List String × List String × List String × Bool :=
  (s.declaredNames, s.titles, s.page.render Script.indentUnit,
    decide (¬HasError s.collector.toList))

/-- A one-line function, and a function that is called like a word of JavaScript and reads a
variable with a keyword in its name. -/
def reservedFunction : String := "DEF FNa%(n) = n\nFUNCTION new(a%)\nnew = b.if\nEND FUNCTION"

theorem reserved_function_has_names :
    ∃ s hread, pass (Lexer.scan reservedFunction).tokens.toArray {} = .ok () s ∧
      ¬HasError s.collector.toList ∧
      s.titles = ["a_int", "new_", "FNa_int"] ∧ (∀ x ∈ s.titles, Script.isIdentifier x = true) ∧
      "new__result" ∈ s.declaredNames ∧ "b_IF" ∈ s.declaredNames ∧
      ∃ key word, (Tape.ofSource reservedFunction hread).Words key word ∧ "b_IF" = mangle word ∧
        "b_IF" ∉ Script.forbidden ∧ ∀ c ∈ word.toList.dropLast, suffixTail? c = none := by
  have hdeclares : ending? reservedFunction State.declares =
      some (["n", "a_int", "new__result", "b_IF", "FNa_int",
      "new__result", "b_IF", "a_int", "new_", "FNa_int"], ["a_int", "new_", "FNa_int"],
      ["  const FNa_int = async (n) => n;", "  async function new_(a_int) \x7b",
        "    let b_IF = 0;", "    let new__result = 0;", "    new__result = b_IF;",
        "    return new__result;", "  \x7d"], true) := by
    decide +kernel
  obtain ⟨s, hread, hpass, hs⟩ := pass_of_ending? hdeclares
  simp only [State.declares, Prod.mk.injEq, decide_eq_true_eq] at hs
  obtain ⟨hnames, htitles, -, herrors⟩ := hs
  obtain ⟨hvalid, hidentifiers⟩ :=
    declared_names_valid reservedFunction hread {} s (.finished hpass)
  obtain ⟨key, word, hword, hx, hallowed, hiff⟩ := hvalid "b_IF" (by simp [hnames])
  exact ⟨s, hread, hpass, herrors, htitles, hidentifiers,
    by simp [hnames], by simp [hnames], key, word, hword, hx, hallowed, hiff.1 (by decide)⟩

/-- A name with a numeric suffix in front of a point. -/
def suffixInside : String := "a%.b = 1"

/-- Without any report, a variable is declared under a name that JavaScript does not have. -/
theorem suffix_inside_name_kept :
    ∃ s, (Lexer.scan suffixInside).fault = none ∧
      pass (Lexer.scan suffixInside).tokens.toArray {} = .ok () s ∧
      ¬HasError s.collector.toList ∧ "a%_b" ∈ s.declaredNames ∧ Script.isIdentifier "a%_b" = false ∧
      s.page.render Script.indentUnit = ["  let a%_b = 1;"] := by
  have hdeclares : ending? suffixInside State.declares =
      some (["a%_b", "a%_b"], [], ["  let a%_b = 1;"], true) := by
    decide +kernel
  obtain ⟨s, hread, hpass, hs⟩ := pass_of_ending? hdeclares
  simp only [State.declares, Prod.mk.injEq, decide_eq_true_eq] at hs
  obtain ⟨hnames, -, hlines, herrors⟩ := hs
  exact ⟨s, hread, hpass, herrors, by simp [hnames], by decide, hlines⟩

end BasicScript
