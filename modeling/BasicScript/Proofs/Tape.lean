import BasicScript.Proofs.Numeral
import BasicScript.Proofs.Wording

/-!
# The tape of a source

The tokens that the pass walks over come from reading a source, and not every array of tokens does.
A tape (`Tape`) is an array of tokens with what reading guarantees and the pass relies on: the end
of the input is the last token and only that, names, keywords and numbers are words, a number is a
numeral, a name is none of the keywords, lines are counted from one, only the end of a line leads to
the next one, and every token stands behind those in front of it.  Reading a source gives a tape
whenever it gives tokens at all (`Tape.ofSource`).
-/

namespace BasicScript

open Text List
open Script (Wordy Plain)

open Lexer (isLetter isWordChar isWordSuffix)

variable {c : Char} {rest : List Char} {text : String} {piece : Piece} {kind : Kind} {place : Place}

/-- A word of the source: a letter, then letters and digits, then a type suffix. -/
structure Word (text : List Char) : Prop where
  exists_parts : ∃ first body suffix, text = first :: (body ++ suffix) ∧ isLetter first = true ∧
    (∀ c ∈ body, isWordChar c = true) ∧ (suffix = [] ∨ ∃ c, suffix = [c] ∧ isWordSuffix c = true)

/-- The line of what stands behind a token. -/
def Token.lineBehind (token : Token) : Int :=
  if token.kind = .newline then token.line + 1 else token.line

/-- A token stands in front of another. -/
def Token.Precedes (token other : Token) : Prop :=
  token.line < other.line ∨ token.line = other.line ∧ token.column < other.column

/-- What reading guarantees of one token. -/
structure Token.Fits (token : Token) : Prop where
  wordy : token.kind = .identifier ∨ token.kind = .keyword ∨ token.kind = .number → Wordy token.text
  numeral : token.kind = .number → Numeral token.text.toList
  word : token.kind = .identifier ∨ token.kind = .keyword → Word token.text.toList
  unknown : token.kind = .identifier → Vocabulary.keywords.contains (upper token.text) = false

/-- The tokens of a source. -/
structure Tape where
  tokens : Array Token
  size_pos : 0 < tokens.size
  kind_iff : ∀ (i : Nat) (h : i < tokens.size), tokens[i].kind = .endOfInput ↔ i + 1 = tokens.size
  fits : ∀ token ∈ tokens, token.Fits
  line_pos : ∀ token ∈ tokens, 0 < token.line
  line_next : ∀ (i : Nat) (token next : Token), tokens[i]? = some token →
    tokens[i + 1]? = some next → next.line = token.lineBehind
  rising : tokens.toList.Pairwise Token.Precedes

namespace Lexer

/-! ### Pieces -/

theorem split_all (test : Char → Bool) (source : List Char) :
    ∀ c ∈ (split test source).1, test c = true := by
  induction source with
  | nil => simp [split]
  | cons c rest ih =>
    simp only [split]
    split
    · simpa using ⟨‹_›, ih⟩
    · simp

theorem splitOne_cases (test : Char → Bool) (source : List Char) :
    (splitOne test source).1 = [] ∨ ∃ c, (splitOne test source).1 = [c] ∧ test c = true := by
  cases source with
  | nil => exact .inl rfl
  | cons c rest =>
    simp only [splitOne]
    split
    · exact .inr ⟨c, rfl, ‹_›⟩
    · exact .inl rfl

/-- What a piece looks like, as far as its token needs it. -/
def Piece.Fits (piece : Piece) : Prop :=
  match piece.shape with
  | .number => Numeral piece.text
  | .word => Word piece.text
  | _ => True

/-- A fact of every character that words have is one of every ASCII character. -/
theorem forall_wordChar {P : Char → Prop}
    (h : ∀ n < 0x80, isWordChar (Char.ofNat n) = true ∨ isWordSuffix (Char.ofNat n) = true →
      P (Char.ofNat n))
    (hc : isWordChar c = true ∨ isWordSuffix c = true) : P c := by
  have hlt : c.toNat < 0x80 := by
    simp only [isWordChar, isLetter, isDigit, isWordSuffix, Bool.or_eq_true, Bool.and_eq_true,
      decide_eq_true_eq] at hc
    rcases hc with (((hc | hc) | hc) | hc) | hc
    · exact Nat.lt_of_le_of_lt hc.2 (by decide)
    · exact Nat.lt_of_le_of_lt hc.2 (by decide)
    · subst hc; decide
    · exact Nat.lt_of_le_of_lt hc.2 (by decide)
    · rcases hc with (((rfl | rfl) | rfl) | rfl) | rfl <;> decide
  exact Script.ascii_forall (P := fun c => isWordChar c = true ∨
    isWordSuffix c = true → P c) h hlt hc

theorem plain_of_isWordChar (h : isWordChar c = true ∨ isWordSuffix c = true) :
    Script.isPlain c = true :=
  forall_wordChar (P := fun c => Script.isPlain c = true) (by decide +kernel) h

end Lexer

/-! ### Words -/

namespace Word

variable {text : List Char}

theorem chars (h : Word text) : ∀ c ∈ text, isWordChar c = true ∨ isWordSuffix c = true := by
  obtain ⟨first, body, suffix, rfl, hfirst, hbody, hsuffix⟩ := h.exists_parts
  simp only [forall_mem_cons, forall_mem_append]
  refine ⟨.inl (by simp [isWordChar, hfirst]), fun c hc => .inl (hbody c hc), fun c hc => .inr ?_⟩
  rcases hsuffix with rfl | ⟨d, rfl, hd⟩
  · cases hc
  · rwa [mem_singleton.1 hc]

theorem plain (h : Word text) : Plain text := fun c hc => Lexer.plain_of_isWordChar (h.chars c hc)

theorem wordy (h : Word text) : Wordy (String.ofList text) := by
  refine Script.wordy_ofList ?_ h.plain
  obtain ⟨first, body, suffix, rfl, -⟩ := h.exists_parts
  simp

/-- A change of letters keeps what makes a word. -/
def Recases (f : Char → Char) (c : Char) : Prop :=
  (isLetter c = true → isLetter (f c) = true) ∧ (isWordChar c = true → isWordChar (f c) = true) ∧
    (isWordSuffix c = true → isWordSuffix (f c) = true)

theorem map {f : Char → Char} (h : Word text) (hf : ∀ c ∈ text, Recases f c) :
    Word (text.map f) := by
  obtain ⟨first, body, suffix, rfl, hfirst, hbody, hsuffix⟩ := h.exists_parts
  simp only [forall_mem_cons, forall_mem_append] at hf
  refine ⟨f first, body.map f, suffix.map f, by simp, hf.1.1 hfirst, ?_, ?_⟩
  · simp only [forall_mem_map]
    exact fun c hc => (hf.2.1 c hc).2.1 (hbody c hc)
  · rcases hsuffix with rfl | ⟨d, rfl, hd⟩
    · exact .inl rfl
    · exact .inr ⟨f d, rfl, (hf.2.2 d (by simp)).2.2 hd⟩

theorem upperChar_facts (h : isWordChar c = true ∨ isWordSuffix c = true) :
    upperChar c = [c.toUpper] ∧ Recases Char.toUpper c :=
  Lexer.forall_wordChar (P := fun c => upperChar c = [c.toUpper] ∧ Recases Char.toUpper c)
    (by unfold Recases; decide +kernel) h

theorem lowerChar_facts (h : isWordChar c = true ∨ isWordSuffix c = true) :
    c ≠ 'Σ' ∧ lowerChar c = [c.toLower] ∧ Recases Char.toLower c :=
  Lexer.forall_wordChar (P := fun c => c ≠ 'Σ' ∧ lowerChar c = [c.toLower] ∧ Recases Char.toLower c)
    (by unfold Recases; decide +kernel) h

theorem flatMap_upperChar (h : Word text) : text.flatMap upperChar = text.map Char.toUpper := by
  rw [map_eq_flatMap, flatMap_def, flatMap_def]
  exact congrArg List.flatten (map_congr_left fun c hc => (upperChar_facts (h.chars c hc)).1)

theorem upper (h : Word text) : Word (text.flatMap upperChar) := by
  rw [h.flatMap_upperChar]
  exact h.map fun c hc => (upperChar_facts (h.chars c hc)).2

theorem lowerAfter_eq_map (h : ∀ c ∈ text, isWordChar c = true ∨ isWordSuffix c = true)
    (before : List Char) : lowerAfter before text = text.map Char.toLower := by
  induction text generalizing before with
  | nil => rfl
  | cons c rest ih =>
    obtain ⟨hc, hrest⟩ := forall_mem_cons.1 h
    obtain ⟨hsigma, hlower, -⟩ := lowerChar_facts hc
    simp [lowerAfter, hsigma, hlower, ih hrest]

theorem lower (h : Word text) : Word (lowerAfter [] text) := by
  rw [lowerAfter_eq_map h.chars]
  exact h.map fun c hc => (lowerChar_facts (h.chars c hc)).2.2

end Word

namespace Lexer

theorem cutNumber_fits (h : startsNumber (c :: rest) = true) : (cutNumber (c :: rest)).1.Fits := by
  have hwhole := split_all isDigit (c :: rest)
  have hpoint := splitOne_cases (· = '.') (split isDigit (c :: rest)).2
  simp only [cutNumber, Piece.Fits]
  split
  · rename_i hempty
    refine ⟨_, _, [], _, rfl, hwhole, by simp, ?_, ?_, splitOne_cases _ _⟩
    · exact .inl ⟨List.isEmpty_iff.1 hempty, rfl⟩
    · refine .inl fun hnil => ?_
      simp only [startsNumber, Bool.or_eq_true, Bool.and_eq_true, decide_eq_true_eq] at h
      rcases h with h | ⟨rfl, -⟩
      · simp [split_pass h] at hnil
      · have hd : isDigit '.' = false := by decide
        simp [split, hd, splitOne] at hempty
  · rename_i hpoint'
    refine ⟨_, _, _, _, rfl, hwhole, split_all _ _, ?_, ?_, splitOne_cases _ _⟩
    · rcases hpoint with hnil | ⟨d, hd, hdot⟩
      · simp [hnil] at hpoint'
      · rw [hd]
        simp only [decide_eq_true_eq] at hdot
        exact .inr (by rw [hdot])
    · simp only [startsNumber, Bool.or_eq_true, Bool.and_eq_true, decide_eq_true_eq] at h
      rcases h with h | ⟨rfl, h⟩
      · exact .inl (by simp [split_pass h])
      · have hd : isDigit '.' = false := by decide
        refine .inr ?_
        cases rest with
        | nil => cases h
        | cons d rest => simp [split, hd, splitOne, show isDigit d = true from h]

theorem cutWord_fits (h : isLetter c = true) : (cutWord (c :: rest)).1.Fits := by
  have hpass : isWordChar c = true := by simp [isWordChar, h]
  simp only [cutWord, Piece.Fits, split_pass hpass]
  exact ⟨c, _, _, rfl, h, split_all isWordChar rest, splitOne_cases isWordSuffix _⟩

theorem cut_fits (c : Char) (rest : List Char) : (cut c rest).1.Fits := by
  fun_cases cut c rest with
  | case4 => exact cutNumber_fits ‹_›
  | case7 => exact cutWord_fits ‹_›
  | case10 source => fun_cases cutOperator source <;> trivial
  | _ => trivial

theorem pieces_fit (source : List Char) : ∀ piece ∈ pieces source, piece.Fits := by
  fun_induction pieces source with
  | case1 => simp
  | case2 c rest ih => simpa using ⟨cut_fits c rest, ih⟩

theorem pieces_ne_nil (source : List Char) : ∀ piece ∈ pieces source, piece.text ≠ [] := by
  fun_induction pieces source with
  | case1 => simp
  | case2 c rest ih => exact forall_mem_cons.2 ⟨(cut_parts c rest).2, ih⟩

/-! ### Tokens -/

theorem isDigit_natToString (n : Nat) : ∀ c ∈ (toString n).toList, isDigit c = true := by
  rw [Nat.toString_eq_repr, Nat.repr_eq_ofList_toDigits, String.toList_ofList]
  intro c hc
  have hd := Nat.isDigit_of_mem_toDigits (by decide) (by decide) hc
  simpa [Char.isDigit, isDigit, Char.le_def] using hd

theorem numeral_natToString (n : Nat) : Numeral (toString n).toList :=
  ⟨_, [], [], [],
    by simp, isDigit_natToString n, by simp, .inl ⟨rfl, rfl⟩, .inl (by simp), .inl rfl⟩

theorem Numeral.plain {chars : List Char} (h : Numeral chars) : chars ≠ [] ∧ Plain chars := by
  obtain ⟨whole, point, fraction, suffix, rfl, hw, hf, hp, hne, hs⟩ := h.exists_parts
  have hdigit : ∀ {c}, isDigit c = true → Script.isPlain c = true := fun hd =>
    plain_of_isWordChar (.inl (by simp [isWordChar, hd]))
  refine ⟨by rcases hne with h | h <;> simp [h], ?_⟩
  refine (((Plain.append ?_ ?_).append ?_).append ?_)
  · exact fun c hc => hdigit (hw c hc)
  · rcases hp with ⟨rfl, -⟩ | rfl <;> decide
  · exact fun c hc => hdigit (hf c hc)
  · rcases hs with rfl | ⟨c, rfl, hc⟩
    · decide
    · simp only [isNumberSuffix, Bool.or_eq_true, decide_eq_true_eq] at hc
      rcases hc with ((rfl | rfl) | rfl) | rfl <;> decide

theorem Numeral.fits (h : Numeral text.toList) (line column : Int) :
    Token.Fits ⟨.number, text, line, column⟩ :=
  ⟨fun _ => ⟨by simpa using (Numeral.plain h).1, (Numeral.plain h).2⟩, fun _ => h, by simp, by simp⟩

/-- What a piece that fits contributes: never the end of the input, and a token that fits. -/
theorem reading_fits (h : piece.Fits) (hr : piece.reading = .token kind text) (line column : Int) :
    kind ≠ .endOfInput ∧ Token.Fits ⟨kind, text, line, column⟩ := by
  obtain ⟨shape, chars⟩ := piece
  cases shape <;> simp only [Piece.reading, reduceCtorEq, Reading.token.injEq] at hr
  case newline | string | mark | operator =>
    obtain ⟨rfl, rfl⟩ := hr
    exact ⟨by simp, by simp, by simp, by simp, by simp⟩
  case number =>
    obtain ⟨rfl, rfl⟩ := hr
    exact ⟨by simp, Numeral.fits (by rw [String.toList_ofList]; exact h) _ _⟩
  case hexadecimal =>
    simp only [readHexadecimal] at hr
    split at hr
    · simp only [Reading.token.injEq] at hr
      obtain ⟨rfl, rfl⟩ := hr
      exact ⟨by simp, Numeral.fits (numeral_natToString _) _ _⟩
    · simp at hr
  case word =>
    simp only [readWord] at hr
    split at hr <;> simp only [Reading.token.injEq] at hr <;> obtain ⟨rfl, rfl⟩ := hr
    all_goals have hword : Word chars := h
    · refine ⟨by simp, fun _ => hword.wordy.upper, by simp, fun _ => ?_, by simp⟩
      rw [upper, String.toList_ofList, String.toList_ofList]
      exact hword.upper
    · refine ⟨by simp, fun _ => hword.wordy, by simp, fun _ => ?_, fun _ => Bool.eq_false_iff.2 ‹_›⟩
      rwa [String.toList_ofList]
  case query =>
    obtain ⟨rfl, rfl⟩ := hr
    have hprint : Word ['P', 'R', 'I', 'N', 'T'] :=
      ⟨'P', ['R', 'I', 'N', 'T'], [], rfl, by decide, all_eq_true.1 (by decide), .inl rfl⟩
    refine ⟨by simp, fun _ => hprint.wordy, by simp, fun _ => ?_, by simp⟩
    rwa [String.toList_ofList]

/-- The tokens of pieces that fit: the end of the input is the last one only. -/
theorem scanFrom_tokens {pieces : List Piece} (h : ∀ piece ∈ pieces, piece.Fits)
    (hf : (scanFrom place pieces).fault = none) :
    ∃ front last, (scanFrom place pieces).tokens = front ++ [last] ∧ last.kind = .endOfInput ∧
      last.Fits ∧ ∀ token ∈ front, token.kind ≠ .endOfInput ∧ token.Fits := by
  induction pieces generalizing place with
  | nil => exact ⟨[], _, rfl, rfl, ⟨by simp, by simp, by simp, by simp⟩, by simp⟩
  | cons piece rest ih =>
    have hrest : ∀ piece ∈ rest, piece.Fits := fun p hp => h p (by simp [hp])
    simp only [scanFrom] at hf ⊢
    cases hr : piece.reading with
    | nothing =>
      simp only [hr] at hf ⊢
      exact ih hrest hf
    | fault fault => simp [hr] at hf
    | token kind text =>
      simp only [hr, Scan.before] at hf ⊢
      obtain ⟨front, last, htokens, hkind, hlast, hfront⟩ := ih hrest hf
      have htoken := reading_fits (h piece (by simp)) hr place.line place.column
      refine ⟨⟨kind, text, place.line, place.column⟩ :: front, last,
        by simp [htokens], hkind, hlast, ?_⟩
      simpa using ⟨htoken, hfront⟩

/-- A token stands at a place or behind it. -/
def Place.Reaches (place : Place) (token : Token) : Prop :=
  place.line < token.line ∨ place.line = token.line ∧ place.column ≤ token.column

/-- What is behind a piece is behind its place. -/
theorem Place.Reaches.before {token : Token} (h : (place.after piece).Reaches token) :
    place.Reaches token := by
  unfold Place.Reaches Place.after at *
  split at h <;> grind

/-- No token stands in front of the place where reading begins. -/
theorem scanFrom_reaches (pieces : List Piece) (place : Place) :
    ∀ token ∈ (scanFrom place pieces).tokens, place.Reaches token := by
  induction pieces generalizing place with
  | nil => simp [scanFrom, Place.Reaches]
  | cons piece rest ih =>
    have hrest : ∀ token ∈ (scanFrom (place.after piece) rest).tokens, place.Reaches token :=
      fun token htoken => (ih _ token htoken).before
    unfold scanFrom
    split
    · exact hrest
    · exact forall_mem_cons.2 ⟨.inr ⟨rfl, Int.le_refl _⟩, hrest⟩
    · simp

/-- The tokens of pieces that are not empty stand one behind the other. -/
theorem scanFrom_rising {pieces : List Piece} (h : ∀ piece ∈ pieces, piece.text ≠ [])
    (place : Place) : (scanFrom place pieces).tokens.Pairwise Token.Precedes := by
  induction pieces generalizing place with
  | nil => simp [scanFrom]
  | cons piece rest ih =>
    obtain ⟨hpiece, hrest⟩ := forall_mem_cons.1 h
    have hlength := length_pos_iff.2 hpiece
    have hrising := ih hrest (place.after piece)
    unfold scanFrom
    split
    · exact hrising
    · refine pairwise_cons.2 ⟨fun token htoken => ?_, hrising⟩
      have hreaches := scanFrom_reaches rest _ token htoken
      unfold Place.Reaches Place.after at hreaches
      unfold Token.Precedes
      split at hreaches <;> grind
    · simp

/-- What is passed over lies in its line. -/
theorem after_line_of_nothing (h : piece.reading = .nothing) (place : Place) :
    (place.after piece).line = place.line := by
  unfold Place.after
  split
  · rename_i hshape
    simp [Piece.reading, hshape] at h
  · rfl

/-- Behind a token its line goes on, unless it is the end of one. -/
theorem after_line_of_token
    (h : piece.reading = .token kind text) (place : Place) :
    (place.after piece).line = Token.lineBehind ⟨kind, text, place.line, place.column⟩ := by
  obtain ⟨shape, chars⟩ := piece
  cases shape with
  | blank | comment | stray => cases h
  | newline | number | string | query | mark | operator => cases h; rfl
  | hexadecimal =>
    simp only [Piece.reading, readHexadecimal] at h
    split at h <;> cases h
    rfl
  | word =>
    simp only [Piece.reading, readWord] at h
    split at h <;> cases h <;> rfl

/-- The first token is on the line where reading begins, and each one on the line behind the one
before it. -/
theorem scanFrom_lines (pieces : List Piece) (place : Place) :
    (∀ token ∈ (scanFrom place pieces).tokens[0]?, token.line = place.line) ∧
      ∀ (i : Nat) (token next : Token), (scanFrom place pieces).tokens[i]? = some token →
        (scanFrom place pieces).tokens[i + 1]? = some next → next.line = token.lineBehind := by
  induction pieces generalizing place with
  | nil => simp [scanFrom]
  | cons piece rest ih =>
    obtain ⟨hfirst, hnext⟩ := ih (place.after piece)
    unfold scanFrom
    split
    · rename_i hr
      rw [after_line_of_nothing hr] at hfirst
      exact ⟨hfirst, hnext⟩
    · rename_i kind text hr
      rw [after_line_of_token hr] at hfirst
      refine ⟨by simp [Scan.before], fun i token next htoken hfollowing => ?_⟩
      simp only [Scan.before, singleton_append] at htoken hfollowing
      cases i with
      | zero => cases htoken; exact hfirst next hfollowing
      | succ i => exact hnext i token next htoken hfollowing
    · simp

end Lexer

namespace Tape

/-- The tape of a source that can be read to its end. -/
def ofSource (source : String) (h : (Lexer.scan source).fault = none) : Tape where
  tokens := (Lexer.scan source).tokens.toArray
  size_pos := by
    obtain ⟨front, last, htokens, -⟩ := Lexer.scanFrom_tokens (Lexer.pieces_fit _) h
    simp [Lexer.scan, htokens]
  kind_iff := by
    intro i hi
    obtain ⟨front, last, htokens, hlast, -, hfront⟩ :=
      Lexer.scanFrom_tokens (Lexer.pieces_fit _) h
    simp only [Lexer.scan, htokens, getElem_toArray, size_toArray, length_append,
      length_singleton] at hi ⊢
    rw [getElem_append]
    split
    · rename_i hlt
      have hne := (hfront _ (getElem_mem hlt)).1
      exact ⟨fun h => absurd h hne, fun h => absurd h (by omega)⟩
    · rename_i hge
      have : i = front.length := by omega
      simp [this, hlast]
  fits := by
    obtain ⟨front, last, htokens, -, hlast, hfront⟩ :=
      Lexer.scanFrom_tokens (Lexer.pieces_fit _) h
    intro token htoken
    simp only [Lexer.scan, htokens, mem_toArray, mem_append, mem_singleton] at htoken
    rcases htoken with hmem | rfl
    · exact (hfront token hmem).2
    · exact hlast
  line_pos token htoken := by
    have hreaches := Lexer.scanFrom_reaches _ {} token (mem_toArray.1 htoken)
    unfold Lexer.Place.Reaches at hreaches
    grind
  line_next i token next htoken hnext := by
    rw [getElem?_toArray] at htoken hnext
    exact (Lexer.scanFrom_lines _ {}).2 i token next htoken hnext
  rising := Lexer.scanFrom_rising (Lexer.pieces_ne_nil _) {}

end Tape

end BasicScript
