import BasicScript.Proofs.Mangling
import BasicScript.Proofs.Tape

/-!
# How a source calls what it declares

A JavaScript name is made from a word of the source (`Tape.Words`): a name, whose points are written
as underscores, the name of a one-line function, or the name of a procedure with the tail of its
result.  The key under which the pass keeps what is called so is the capital form of the name.

* `Tape.Titled`: the JavaScript names of procedures, one-line functions and record types.
* `Tape.Called`: the JavaScript names of everything that is declared, variables and parameters
  included.
-/

namespace BasicScript

open Text List
open Lexer (isLetter isWordChar isWordSuffix)

open Script (Wordy mangle)

variable {tape : Tape} {key js w name : String}

/-! ### Characters of names -/

/-- A letter, and characters of words and suffixes behind it. -/
structure Lettered (text : List Char) : Prop where
  exists_first : ∃ first rest, text = first :: rest ∧ isLetter first = true ∧
    ∀ c ∈ rest, isWordChar c = true ∨ isWordSuffix c = true

theorem Word.lettered {text : List Char} (h : Word text) : Lettered text := by
  have hchars := h.chars
  obtain ⟨first, body, suffix, rfl, hfirst, -⟩ := h.exists_parts
  exact ⟨first, _, rfl, hfirst, fun c hc => hchars c (.tail _ hc)⟩

namespace Lettered

variable {text more : List Char}

theorem chars (h : Lettered text) : ∀ c ∈ text, isWordChar c = true ∨ isWordSuffix c = true := by
  obtain ⟨first, rest, rfl, hfirst, hrest⟩ := h.exists_first
  exact forall_mem_cons.2 ⟨.inl (by simp [isWordChar, hfirst]), hrest⟩

theorem append (h : Lettered text)
    (hmore : ∀ c ∈ more, isWordChar c = true ∨ isWordSuffix c = true) :
    Lettered (text ++ more) := by
  obtain ⟨first, rest, rfl, hfirst, hrest⟩ := h.exists_first
  exact ⟨first, rest ++ more, rfl, hfirst, forall_mem_append.2 ⟨hrest, hmore⟩⟩

theorem ne_nil (h : Lettered text) : text ≠ [] := by
  obtain ⟨first, rest, rfl, -⟩ := h.exists_first
  exact cons_ne_nil _ _

theorem wordy (h : Lettered w.toList) : Wordy w :=
  ⟨fun hempty => h.ne_nil (by rw [hempty]; rfl),
    fun c hc => Lexer.plain_of_isWordChar (h.chars c hc)⟩

/-- A numeric suffix is not all of a name. -/
theorem front_ne_nil {front tail : String} {c : Char} (h : Lettered (front.push c).toList)
    (htail : Script.suffixTail? c = some tail) : front.toList ≠ [] := by
  intro hnil
  obtain ⟨first, rest, htext, hfirst, -⟩ := h.exists_first
  rw [String.toList_push, hnil] at htext
  cases htext
  have hall : ∀ p ∈ Script.tails, isLetter p.1 = false := by decide
  rw [hall _ (Script.suffixTail?_eq_some_iff.1 htail)] at hfirst
  cases hfirst

theorem append_all (h : Lettered text) {tail : List Char} (htail : tail.all isWordChar = true) :
    Lettered (text ++ tail) :=
  h.append fun c hc => .inl (all_eq_true.1 htail c hc)

theorem tail_all {c : Char} {tail : String} (h : Script.suffixTail? c = some tail) :
    tail.toList.all isWordChar = true := by
  have hall : ∀ p ∈ Script.tails, p.2.toList.all isWordChar = true := by decide
  exact hall _ (Script.suffixTail?_eq_some_iff.1 h)

/-- The JavaScript name of a word is spelled like one. -/
theorem mangle (h : Lettered w.toList) : Lettered (mangle w).toList := by
  rcases Script.settled_or_replaced w with hsettled | ⟨x, hreplaced⟩
  · rwa [hsettled.mangle]
  rw [hreplaced.mangle]
  cases hreplaced with
  | @suffix front tail c htail =>
    obtain ⟨first, rest, htext, hfirst, hrest⟩ := h.exists_first
    obtain ⟨d, ds, hfront⟩ := exists_cons_of_ne_nil (h.front_ne_nil htail)
    have hlettered : Lettered front.toList := by
      rw [String.toList_push, hfront, cons_append] at htext
      obtain ⟨rfl, rfl⟩ := List.cons.inj htext
      exact ⟨d, ds, hfront, hfirst, fun c hc => hrest c (mem_append_left _ hc)⟩
    rw [String.toList_append]
    exact hlettered.append_all (tail_all htail)
  | reserved hword =>
    rw [String.toList_append]
    exact h.append_all (by decide)

end Lettered

/-! ### Points -/

namespace Script

/-- A name with underscores for its points. -/
def undotted (name : String) : String :=
  String.ofList (name.toList.map fun c => if c = '.' then '_' else c)

theorem identifier_eq (name : String) : identifier name = mangle (undotted name) := rfl

theorem toList_undotted (name : String) :
    (undotted name).toList = name.toList.map fun c => if c = '.' then '_' else c :=
  String.toList_ofList

theorem undotted_append (a b : String) : undotted (a ++ b) = undotted a ++ undotted b := by
  simp [undotted, String.ofList_append]

theorem undotted_of_chars (h : ∀ c ∈ name.toList, isWordChar c = true ∨ isWordSuffix c = true) :
    undotted name = name := by
  rw [← String.toList_inj, toList_undotted]
  conv_rhs => rw [← map_id' name.toList]
  refine map_congr_left fun c hc => if_neg ?_
  rintro rfl
  have hpoint := h '.' hc
  revert hpoint
  decide

theorem identifier_of_lettered (h : Lettered name.toList) : identifier name = mangle name := by
  rw [identifier_eq, undotted_of_chars h.chars]

end Script

/-! ### Names of a source -/

theorem Token.kind_of_isWord {token : Token} (h : token.isWord = true) :
    token.kind = .identifier ∨ token.kind = .keyword := by
  simpa [Token.isWord] using h

/-- A token of the tape is a name. -/
structure Tape.Names (tape : Tape) (token : Token) : Prop where
  mem : token ∈ tape.tokens
  kind : token.kind = .identifier

namespace Tape.Names

variable {token : Token}

theorem wordy (h : tape.Names token) : Wordy token.text :=
  (tape.fits token h.mem).wordy (.inl h.kind)

theorem word (h : tape.Names token) : Word token.text.toList :=
  (tape.fits token h.mem).word (.inl h.kind)

theorem unknown (h : tape.Names token) : Vocabulary.keywords.contains (upper token.text) = false :=
  (tape.fits token h.mem).unknown h.kind

end Tape.Names

/-- A name that the source spells: a token, or several with points between them. -/
inductive Tape.HasName (tape : Tape) : String → Prop where
  | word {token : Token} (h : tape.Names token) : tape.HasName token.text
  | dotted {name : String} {token : Token} (h : tape.HasName name) (hmem : token ∈ tape.tokens)
      (hword : token.isWord = true) : tape.HasName (name ++ "." ++ token.text)

/-- A word for a procedure, a one-line function or a record type, and its key. -/
inductive Tape.Titles (tape : Tape) : (key word : String) → Prop where
  | name {token : Token} (h : tape.Names token) : tape.Titles (upper token.text) token.text
  | function {token : Token} (h : tape.Names token) :
      tape.Titles (upper ("FN" ++ token.text)) ("FN" ++ token.text)

/-- A word for which a JavaScript name is made, and its key. -/
inductive Tape.Words (tape : Tape) : (key word : String) → Prop where
  | name {name : String} (h : tape.HasName name) : tape.Words (upper name) (Script.undotted name)
  | title {key word : String} (h : tape.Titles key word) : tape.Words key word
  | result {key word : String} (h : tape.Titles key word) :
      tape.Words key (mangle word ++ "_result")

/-- The JavaScript name of a procedure, a one-line function or a record type. -/
def Tape.Titled (tape : Tape) (key js : String) : Prop :=
  ∃ word, tape.Titles key word ∧ js = mangle word

/-- The JavaScript name of something that is declared. -/
def Tape.Called (tape : Tape) (key js : String) : Prop :=
  ∃ word, tape.Words key word ∧ js = mangle word

/-- The JavaScript name of something that is declared under some key. -/
def Tape.Calls (tape : Tape) (js : String) : Prop := ∃ key, tape.Called key js

namespace Tape

theorem Titles.word (h : tape.Titles key w) : Word w.toList := by
  cases h with
  | name hname => exact hname.word
  | function hname =>
    obtain ⟨first, body, suffix, htext, hfirst, hbody, hsuffix⟩ := hname.word.exists_parts
    refine ⟨'F', 'N' :: first :: body, suffix, by simp [htext], rfl, ?_, hsuffix⟩
    simp only [forall_mem_cons]
    exact ⟨rfl, by simp [isWordChar, hfirst], hbody⟩

theorem HasName.lettered (h : tape.HasName name) : Lettered (Script.undotted name).toList := by
  induction h with
  | word hname =>
    rw [Script.undotted_of_chars hname.word.chars]
    exact hname.word.lettered
  | @dotted name token _ hmem hword ih =>
    have hpart := (tape.fits token hmem).word (Token.kind_of_isWord hword)
    rw [Script.undotted_append, Script.undotted_append, Script.undotted_of_chars hpart.chars,
      String.toList_append, String.toList_append]
    exact (ih.append_all (by decide)).append hpart.chars

theorem Words.lettered (h : tape.Words key w) : Lettered w.toList := by
  cases h with
  | name hname => exact hname.lettered
  | title htitle => exact htitle.word.lettered
  | result htitle =>
    rw [String.toList_append]
    exact htitle.word.lettered.mangle.append_all (by decide)

theorem Called.wordy (h : tape.Called key js) : Wordy js := by
  obtain ⟨word, hword, rfl⟩ := h
  exact hword.lettered.mangle.wordy

theorem Calls.wordy (h : tape.Calls js) : Wordy js := by
  obtain ⟨key, hcalled⟩ := h
  exact hcalled.wordy

theorem Titled.called (h : tape.Titled key js) : tape.Called key js := by
  obtain ⟨word, hword, rfl⟩ := h
  exact ⟨word, .title hword, rfl⟩

theorem Titled.wordy (h : tape.Titled key js) : Wordy js := h.called.wordy

/-- The name of a function's result is its own JavaScript name. -/
theorem Titled.result (h : tape.Titled key js) : tape.Called key (js ++ "_result") := by
  obtain ⟨word, hword, rfl⟩ := h
  refine ⟨_, .result hword, ?_⟩
  have hfree : ∀ w ∈ Script.reserved, "_result".toList.isSuffixOf w.toList = false := by
    decide +kernel
  refine (Script.Settled.mangle ⟨fun hmem => ?_, ?_⟩).symm
  · have hends : "_result".toList.isSuffixOf (mangle word ++ "_result").toList = true := by simp
    rw [hfree _ hmem] at hends
    cases hends
  · rw [String.toList_append, getLast?_append_of_ne_nil _ (by decide)]
    exact Option.bind_eq_none_iff.1 (by decide)

theorem HasName.called (h : tape.HasName name) :
    tape.Called (upper name) (Script.identifier name) :=
  ⟨_, .name h, rfl⟩

theorem Names.titled {token : Token} (h : tape.Names token) :
    tape.Titled (upper token.text) (mangle token.text) :=
  ⟨_, .name h, rfl⟩

end Tape

end BasicScript
