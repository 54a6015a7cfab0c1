import BasicScript.Proofs.Extent
import BasicScript.Proofs.Spelling

/-!
# Writing the tokens of a source back

The tokens of a source are written with one blank between them, strings in quotes and every other
token as its text (`respelled`), and read again.  The text need not be the source: keywords are in
capitals, hexadecimal numbers are in decimal, and open strings are closed.  Yet every token is read
as itself when it stands apart (`Token.Stable`), whatever piece of a source it came from
(`stable_of_cut`), so reading the text gives the tokens again, without a warning (`scan_respelled`).
Only `REM` is lost, where it was a word and not a remark: with a blank behind it, it is a remark.
-/

namespace BasicScript

open Lexer List

variable {chars rest : List Char} {kind : Kind} {c : Char} {place : Place} {tokens : List Token}

/-- The tokens of a source as a text, with one blank between them. -/
def respelled (tokens : List Token) : String :=
  String.ofList (List.intercalate [' '] ((tokens.filter (·.kind ≠ .endOfInput)).map Token.source))

/-- A token that is read as itself where it stands apart. -/
structure Token.Stable (token : Token) : Prop where
  readAs : ∃ piece, token.ReadAs piece
  plain : ∀ c ∈ token.source, plainChar c = c

/-! ### Look-alikes and capitals -/

/-- A plain character is no look-alike. -/
theorem Lexer.plainChar_plainChar (c : Char) : plainChar (plainChar c) = plainChar c := by
  have hcases : plainChar c = '$' ∨ plainChar c = '"' ∨ plainChar c = '\'' ∨ plainChar c = c := by
    simp only [plainChar]
    split_ifs <;> simp
  rcases hcases with h | h | h | h
  · rw [h]; decide
  · rw [h]; decide
  · rw [h]; decide
  · rw [h, h]

/-- The capital form of a word is its own capital form. -/
theorem Word.upper_upper {w : String} (h : Word w.toList) :
    Text.upper (Text.upper w) = Text.upper w := by
  have htwice : ∀ c ∈ w.toList, c.toUpper.toUpper = c.toUpper := fun c hc =>
    forall_wordChar (P := fun c => c.toUpper.toUpper = c.toUpper) (by decide +kernel) (h.chars c hc)
  have hupper : Word ((w.toList.flatMap Text.upperChar)) := h.upper
  have hmap := hupper.flatMap_upperChar
  rw [h.flatMap_upperChar, List.map_map] at hmap
  rw [Text.upper, Text.upper, String.toList_ofList, h.flatMap_upperChar, hmap]
  exact congrArg String.ofList (List.map_congr_left htwice)

/-! ### The token of a piece -/

section Stable

variable {text : String} {line column : Int}

theorem stable_newline : Token.Stable ⟨.newline, "\n", line, column⟩ where
  readAs := by
    refine ⟨⟨.newline, ['\n']⟩, rfl, fun _ => rfl, fun rest _ => ?_⟩
    rw [Token.source, show "\n".toList = ['\n'] from rfl]
    exact pieces_newline
  plain := by
    rw [Token.source, show "\n".toList = ['\n'] from rfl]
    exact List.forall_mem_singleton.2 (by decide)

theorem stable_numeral (h : Numeral text.toList) : Token.Stable ⟨.number, text, line, column⟩ where
  readAs := ⟨_, @numeral_readAs text h⟩
  plain := numeral_chars h

theorem stable_quotation (hquote : '"' ∉ text.toList) (hnewline : '\n' ∉ text.toList)
    (hplain : ∀ c ∈ text.toList, plainChar c = c) : Token.Stable ⟨.string, text, line, column⟩ where
  readAs := by
    refine ⟨_, @quotation_readAs text fun c hc => ⟨?_, ?_, hplain c hc⟩⟩
    · rintro rfl
      exact hquote hc
    · rintro rfl
      exact hnewline hc
  plain := by
    rw [Token.source, forall_mem_cons, forall_mem_append, forall_mem_singleton]
    exact ⟨by decide, hplain, by decide⟩

theorem stable_keyword (hword : Word text.toList) (hupper : Text.upper text = text)
    (hkeyword : Vocabulary.keywords.contains text = true) (hremark : text ≠ "REM") :
    Token.Stable ⟨.keyword, text, line, column⟩ where
  readAs := ⟨_, keyword_readAs hword hupper hkeyword hremark⟩
  plain := fun c hc => (word_chars hword c hc).2.2

/-- A word is read as the keyword or the name that it was, unless it is `REM`. -/
theorem stable_word (h : Word chars) (hreading : Piece.reading ⟨.word, chars⟩ = .token kind text)
    (hremark : Token.isKeyword ⟨kind, text, line, column⟩ "REM" = false) :
    Token.Stable ⟨kind, text, line, column⟩ := by
  obtain ⟨word, rfl⟩ : ∃ word : String, chars = word.toList :=
    ⟨String.ofList chars, String.toList_ofList.symm⟩
  simp only [Piece.reading, String.ofList_toList, readWord] at hreading
  split at hreading
  · rename_i hkeyword
    obtain ⟨rfl, rfl⟩ := Reading.token.inj hreading
    have hcapitals : Word (Text.upper word).toList := by
      rw [Text.upper, String.toList_ofList]
      exact h.upper
    exact stable_keyword hcapitals h.upper_upper hkeyword (by simpa [Token.isKeyword] using hremark)
  · rename_i hkeyword
    obtain ⟨rfl, rfl⟩ := Reading.token.inj hreading
    exact ⟨⟨_, named_readAs ⟨h, Bool.eq_false_iff.2 hkeyword⟩⟩, fun c hc => (word_chars h c hc).2.2⟩

/-- The word that the question mark is short for. -/
theorem stable_print : Token.Stable ⟨.keyword, "PRINT", line, column⟩ := by
  obtain ⟨hne, hletters, hupper, hkeyword, hremark⟩ := treeWords_facts "PRINT" (by decide)
  exact stable_keyword (word_of_letters hne (all_eq_true.1 hletters)) hupper hkeyword hremark

theorem stable_mark (h : isMark c = true) :
    Token.Stable ⟨.punctuation, String.ofList [c], line, column⟩ where
  readAs := ⟨_, mark_readAs (w := String.ofList [c]) String.toList_ofList h⟩
  plain := by
    rw [Token.source, String.toList_ofList, forall_mem_singleton]
    simp only [isMark, Bool.or_eq_true, decide_eq_true_eq] at h
    rcases h with (((((rfl | rfl) | rfl) | rfl) | rfl) | rfl) | rfl <;> decide

theorem stable_sign (h : text ∈ treeSigns) : Token.Stable ⟨.operator, text, line, column⟩ where
  readAs := ⟨_, sign_readAs h⟩
  plain := by
    have hall : ∀ w ∈ treeSigns, w.toList.all (fun c => decide (plainChar c = c)) = true := by
      decide +kernel
    exact fun c hc => of_decide_eq_true (all_eq_true.1 (hall text h) c hc)

/-- What is cut as an operator is one of the operators. -/
theorem cutOperator_sign (rest : List Char) (h : isOperator c = true) :
    (cutOperator (c :: rest)).1.shape = .operator ∧
      String.ofList (cutOperator (c :: rest)).1.text ∈ treeSigns := by
  unfold cutOperator
  split
  · exact ⟨rfl, (by decide : String.ofList ['<', '='] ∈ treeSigns)⟩
  · exact ⟨rfl, (by decide : String.ofList ['>', '='] ∈ treeSigns)⟩
  · exact ⟨rfl, (by decide : String.ofList ['<', '>'] ∈ treeSigns)⟩
  · refine ⟨rfl, ?_⟩
    change String.ofList [c] ∈ treeSigns
    simp only [isOperator, Bool.or_eq_true, decide_eq_true_eq] at h
    rcases h with (((((((rfl | rfl) | rfl) | rfl) | rfl) | rfl) | rfl) | rfl) | rfl <;> decide

/-- The text of a string, closed or not, has no quote and no line end. -/
theorem stable_string {closed : Bool} {after : List Char}
    (hcut : Piece.Cut ⟨.string closed, chars⟩ after) (hplain : ∀ c ∈ chars, plainChar c = c) :
    Token.Stable ⟨.string, String.ofList (insideQuotes closed chars), line, column⟩ := by
  obtain ⟨inside, hquote, hnewline, htext⟩ := hcut
  have hinside : insideQuotes closed chars = inside ∧ ∀ c ∈ inside, plainChar c = c := by
    cases closed with
    | true =>
      obtain rfl : chars = '"' :: inside ++ ['"'] := htext
      exact ⟨by simp [insideQuotes], fun c hc => hplain c (by simp [hc])⟩
    | false =>
      obtain rfl : chars = '"' :: inside := htext.1
      exact ⟨rfl, fun c hc => hplain c (by simp [hc])⟩
  refine stable_quotation ?_ ?_ ?_ <;> rw [String.toList_ofList, hinside.1]
  · exact hquote
  · exact hnewline
  · exact hinside.2

theorem stable_hexadecimal
    (hreading : Piece.reading ⟨.hexadecimal, chars⟩ = .token kind text) :
    Token.Stable ⟨kind, text, line, column⟩ := by
  simp only [Piece.reading, readHexadecimal] at hreading
  split at hreading
  · obtain ⟨rfl, rfl⟩ := Reading.token.inj hreading
    exact stable_numeral (numeral_natToString _)
  · cases hreading

/-- **The token of a piece is read as itself**, whatever the piece, unless it is the word `REM`. -/
theorem stable_of_cut (hplain : ∀ d ∈ c :: rest, plainChar d = d)
    (hreading : (cut c rest).1.reading = .token kind text)
    (hremark : Token.isKeyword ⟨kind, text, line, column⟩ "REM" = false) :
    Token.Stable ⟨kind, text, line, column⟩ := by
  have hfits := cut_fits c rest
  have hcut := cut_cut c rest
  have hchars : ∀ d ∈ (cut c rest).1.text, plainChar d = d := fun d hd => by
    refine hplain d ?_
    rw [← (cut_parts c rest).1]
    exact List.mem_append_left _ hd
  revert hreading hfits hcut hchars
  fun_cases cut c rest with
  | case1 =>
    rintro ⟨⟩ - - -
    exact stable_newline
  | case2 | case3 | case11 => rintro ⟨⟩
  | case4 source =>
    intro hreading hfits _ _
    obtain ⟨rfl, rfl⟩ := Reading.token.inj hreading
    exact stable_numeral (by rwa [String.toList_ofList])
  | case5 source => exact fun hreading _ _ _ => stable_hexadecimal hreading
  | case6 source =>
    intro hreading _ hcut hchars
    obtain ⟨rfl, rfl⟩ := Reading.token.inj hreading
    exact stable_string hcut hchars
  | case7 source =>
    intro hreading hfits _ _
    exact stable_word hfits hreading hremark
  | case8 =>
    rintro ⟨⟩ - - -
    exact stable_print
  | case9 source _ _ _ _ _ _ _ _ hmark =>
    rintro ⟨⟩ - - -
    exact stable_mark hmark
  | case10 source _ _ _ _ _ _ _ _ _ hoperator =>
    intro hreading _ _ _
    obtain ⟨hshape, hsign⟩ := cutOperator_sign rest hoperator
    rw [Piece.reading, hshape] at hreading
    obtain ⟨rfl, rfl⟩ := Reading.token.inj hreading
    exact stable_sign hsign

end Stable

/-! ### The tokens of a source -/

/-- The tokens of pieces: one for each piece that is read as one, and the end of the input. -/
theorem scanFrom_stable {source : List Char} (hplain : ∀ c ∈ source, plainChar c = c)
    (hfault : (scanFrom place (pieces source)).fault = none)
    (hremark : ∀ t ∈ (scanFrom place (pieces source)).tokens, t.isKeyword "REM" = false) :
    ∃ front last, (scanFrom place (pieces source)).tokens = front ++ [last] ∧
      last.bare = .inputEnd ∧ ∀ t ∈ front, t.kind ≠ .endOfInput ∧ t.Stable := by
  fun_induction pieces source generalizing place with
  | case1 => exact ⟨[], _, rfl, rfl, List.forall_mem_nil _⟩
  | case2 c rest ih =>
    have hrest : ∀ d ∈ (cut c rest).2, plainChar d = d := fun d hd => by
      refine hplain d ?_
      rw [← (cut_parts c rest).1]
      exact List.mem_append_right _ hd
    simp only [scanFrom] at hfault hremark ⊢
    cases hreading : (cut c rest).1.reading with
    | nothing =>
      simp only [hreading] at hfault hremark ⊢
      exact ih hrest hfault hremark
    | fault fault => simp [hreading] at hfault
    | token kind text =>
      simp only [hreading, Scan.before, List.singleton_append,
        List.forall_mem_cons] at hfault hremark ⊢
      obtain ⟨front, last, htokens, hlast, hfront⟩ := ih hrest hfault hremark.2
      have hkind := (reading_fits (cut_fits c rest) hreading place.line place.column).1
      refine ⟨⟨kind, text, place.line, place.column⟩ :: front, last,
        by rw [htokens, List.cons_append], hlast, ?_⟩
      exact List.forall_mem_cons.2 ⟨⟨hkind, stable_of_cut hplain hreading hremark.1⟩, hfront⟩

/-- What stands behind the first of some tokens: a blank and a token, again and again. -/
def writtenBehind (tokens : List Token) : List Char := tokens.flatMap fun t => ' ' :: t.source

theorem setOff_writtenBehind (tokens : List Token) : SetOff (writtenBehind tokens) := by
  cases tokens with
  | nil => exact setOff_nil
  | cons token tokens => exact setOff_blank _

theorem intercalate_source (token : Token) (tokens : List Token) :
    [' '].intercalate ((token :: tokens).map Token.source) = token.source ++
      writtenBehind tokens := by
  induction tokens generalizing token with
  | nil => simp [writtenBehind]
  | cons next tokens ih =>
    rw [List.map_cons, List.map_cons, List.intercalate_cons_cons, ← List.map_cons, ih]
    simp [writtenBehind]

/-- A reading that gives some tokens, apart from their places, and warns of nothing. -/
structure Lexer.Scan.ReadsBack (scan : Scan) (tokens : List Token) : Prop where
  tokens : scan.tokens.map Token.bare = tokens.map Token.bare ++ [.inputEnd]
  warnings : scan.warnings = []
  fault : scan.fault = none

theorem Token.ReadAs.readsBack {token : Token} {piece : Piece} (h : token.ReadAs piece)
    (hrest : SetOff rest)
    (hbehind : (Lexer.scanFrom (place.after piece) (pieces rest)).ReadsBack tokens) :
    (Lexer.scanFrom place (pieces (token.source ++ rest))).ReadsBack (token :: tokens) := by
  rw [h.scanFrom place hrest]
  refine ⟨?_, hbehind.warnings, hbehind.fault⟩
  rw [Scan.before, List.map_append, hbehind.tokens]
  rfl

/-- Tokens with a blank in front of each are read one after the other. -/
theorem readsBack_writtenBehind (h : ∀ t ∈ tokens, t.Stable) (place : Place) :
    (scanFrom place (pieces (writtenBehind tokens))).ReadsBack tokens := by
  induction tokens generalizing place with
  | nil =>
    rw [writtenBehind, List.flatMap_nil, pieces]
    exact ⟨rfl, rfl, rfl⟩
  | cons token tokens ih =>
    obtain ⟨htoken, htokens⟩ := List.forall_mem_cons.1 h
    obtain ⟨piece, hpiece⟩ := htoken.readAs
    have hbehind : writtenBehind (token :: tokens) = ' ' ::
        (token.source ++ writtenBehind tokens) := rfl
    rw [hbehind, scanFrom_blank]
    exact hpiece.readsBack (setOff_writtenBehind tokens) (ih htokens _)

theorem readsBack_intercalate (h : ∀ t ∈ tokens, t.Stable) (place : Place) :
    (scanFrom place (pieces ([' '].intercalate (tokens.map Token.source)))).ReadsBack tokens := by
  cases tokens with
  | nil => exact readsBack_writtenBehind h place
  | cons token tokens =>
    obtain ⟨htoken, htokens⟩ := List.forall_mem_cons.1 h
    obtain ⟨piece, hpiece⟩ := htoken.readAs
    rw [intercalate_source]
    exact hpiece.readsBack (setOff_writtenBehind tokens) (readsBack_writtenBehind htokens _)

/-- The text of tokens has no look-alikes. -/
theorem plain_intercalate (h : ∀ t ∈ tokens, t.Stable) :
    ∀ c ∈ [' '].intercalate (tokens.map Token.source), plainChar c = c := by
  cases tokens with
  | nil => exact List.forall_mem_nil _
  | cons token tokens =>
    obtain ⟨htoken, htokens⟩ := List.forall_mem_cons.1 h
    rw [intercalate_source, List.forall_mem_append]
    refine ⟨htoken.plain, fun c hc => ?_⟩
    obtain ⟨t, ht, hc⟩ := List.mem_flatMap.1 hc
    rcases List.mem_cons.1 hc with rfl | hc
    · decide
    · exact (htokens t ht).plain c hc

/-- **Tokens written back are read again.**  Where the tokens of a source have no `REM` among them,
the text of the tokens with one blank between them has the same tokens, apart from their places, and
nothing to warn of. -/
theorem scan_respelled (source : String) (hfault : (scan source).fault = none)
    (hremark : ∀ t ∈ (scan source).tokens, t.isKeyword "REM" = false) :
    (scan (respelled (scan source).tokens)).tokens.map Token.bare =
    (scan source).tokens.map Token.bare ∧
      (scan (respelled (scan source).tokens)).warnings = [] ∧
      (scan (respelled (scan source).tokens)).fault = none := by
  have hplain : ∀ c ∈ source.toList.map plainChar, plainChar c = c := by
    simp only [List.forall_mem_map]
    exact fun c _ => plainChar_plainChar c
  obtain ⟨front, last, htokens, hlast, hfront⟩ := scanFrom_stable hplain hfault hremark
  have hstable : ∀ t ∈ front, t.Stable := fun t ht => (hfront t ht).2
  have hwritten : respelled (scan source).tokens =
      String.ofList ([' '].intercalate (front.map Token.source)) := by
    have hfilter : (front ++ [last]).filter (·.kind ≠ .endOfInput) = front := by
      have hend : last.kind = .endOfInput := congrArg Token.kind hlast
      rw [List.filter_append, List.filter_eq_self.2 fun t ht => decide_eq_true (hfront t ht).1]
      simp [hend]
    rw [respelled, scan, htokens, hfilter]
  have hback := readsBack_intercalate hstable {}
  have hchars : (respelled (scan source).tokens).toList.map plainChar =
      [' '].intercalate (front.map Token.source) := by
    rw [hwritten, String.toList_ofList]
    exact (List.map_congr_left (plain_intercalate hstable)).trans (List.map_id _)
  have hscan : scan (respelled (scan source).tokens) =
      scanFrom {} (pieces ([' '].intercalate (front.map Token.source))) := by rw [scan, hchars]
  rw [hscan]
  refine ⟨?_, hback.warnings, hback.fault⟩
  rw [hback.tokens, scan, htokens, List.map_append, List.map_singleton, hlast]

/-- The text of a source with a question mark, two numbers side by side, a hexadecimal number and an
open string. -/
theorem scan_respelled_open_string :
    (scan "?1.2.3<=&hfF\u201Ca 'b\nx$").warnings.length = 1 ∧
      respelled (scan "?1.2.3<=&hfF\u201Ca 'b\nx$").tokens = "PRINT 1.2 .3 <= 255 \"a 'b\" \n x$" ∧
      (scan (respelled (scan "?1.2.3<=&hfF\u201Ca 'b\nx$").tokens)).tokens.map Token.bare =
        (scan "?1.2.3<=&hfF\u201Ca 'b\nx$").tokens.map Token.bare ∧
      (scan (respelled (scan "?1.2.3<=&hfF\u201Ca 'b\nx$").tokens)).warnings = [] :=
  have h := scan_respelled "?1.2.3<=&hfF\u201Ca 'b\nx$" (by decide +kernel) (by decide +kernel)
  ⟨by decide +kernel, by decide +kernel, h.1, h.2.1⟩

end BasicScript
