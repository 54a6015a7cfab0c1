import BasicScript.Proofs.Layout
import BasicScript.Proofs.ProgramReading

/-!
# Structured programs are translated

A source whose tokens spell a program tree is translated into the lines of the tree, and nothing is
reported.  The lines call a variable as it was declared.  They are those that call it by its first
spelling, everywhere, if and only if each variable that is declared at the top was first met with
the spelling of its declaration (`structured_program_translated`); an assignment that first meets
its own variable in another spelling on its right breaks this (`assignment_misses_declaration`).
-/

namespace BasicScript

open Emit Lexer List

/-- A token of a program tree that can be written and read: a name that is neither keyword nor
builtin, a number that is not too long, a string on one line. -/
structure Token.Ordinary (token : Token) : Prop where
  lexical : token.Lexical
  plain : token.Plain

/-- A program tree whose tokens are those of a source. -/
structure Body.SpelledIn (p : Body) (source : String) : Prop where
  tokens : ∃ written, p.SpelledBy written ∧
    (scan source).tokens.map Token.bare = written ++ [.inputEnd]
  fault : (scan source).fault = none

namespace Body

/-- A program, with a blank behind each token. -/
def text (p : Body) : String := textOf p.spelling

/-- The lines of a program that call each variable by its first spelling. -/
def translation (p : Body) : List Script.Line := p.lines fun _ => p.finalLedger.firstName

theorem spells_text {p : Body} (h : ∀ t ∈ p.spelling, t.Lexical) :
    p.SpelledIn p.text ∧ (scan p.text).warnings = [] := by
  obtain ⟨htokens, hwarnings, hfault⟩ := scan_textOf p.inTree h
  exact ⟨⟨⟨p.spelling, .inl rfl, htokens⟩, hfault⟩, hwarnings⟩

end Body

theorem Body.SpelledIn.plain {source : String} {p : Body} (h : p.SpelledIn source)
    (hplain : ∀ t ∈ p.spelling, t.Plain) : ∀ t ∈ (scan source).tokens.toArray, t.Plain := by
  obtain ⟨⟨written, hwritten, htokens⟩, -⟩ := h
  intro t ht
  have hmem : t.bare ∈ written ++ [Token.inputEnd] := htokens ▸ mem_map_of_mem (mem_toArray.1 ht)
  rcases mem_append.1 hmem with hmem | hmem
  · have hbare := hplain t.bare (hwritten.subset hmem)
    exact ⟨hbare.builtin, hbare.number⟩
  · have hkind : t.kind = .endOfInput := congrArg Token.kind (mem_singleton.1 hmem)
    constructor <;> simp [hkind]

/-- **Structured programs are translated.**  A program tree can be written as a text.  From every
source that spells the tree, the pass comes to its end, adds nothing to the warnings of the scan,
and leaves the lines of the tree, in which a variable is called as it was declared.  These lines
call each variable by its first spelling if and only if each variable declared at the top has the
first spelling there. -/
theorem structured_program_translated (p : Body) (hordinary : ∀ t ∈ p.spelling, t.Ordinary) :
    p.SpelledIn p.text ∧ (scan p.text).warnings = [] ∧
      ∀ source, p.SpelledIn source →
        ∃ s, pass (scan source).tokens.toArray (Collector.empty.addAll (scan source).warnings) =
          .ok () s ∧ s.collector.toList = (scan source).warnings ∧
          s.page.lines.toList = p.lines Ledger.nameOf ∧
          (s.page.lines.toList = p.translation ↔
            ∀ name ∈ p.finalLedger.hoisted, p.finalLedger.firstName name =
            Script.identifier name) := by
  obtain ⟨hspells, hwarnings⟩ := p.spells_text fun t ht => (hordinary t ht).lexical
  refine ⟨hspells, hwarnings, fun source hsource => ?_⟩
  obtain ⟨⟨written, hwritten, htokens⟩, -⟩ := id hsource
  obtain ⟨s, hpass, hcollector, hlines, -⟩ := pass_tracks
    (hsource.plain fun t ht => (hordinary t ht).plain) hwritten htokens
    (Collector.empty.addAll (scan source).warnings)
  refine ⟨s, hpass, ?_, hlines, ?_⟩
  · rw [hcollector, Collector.toList_addAll]
    rfl
  · rw [hlines]
    exact p.lines_nameOf_iff

/-- A check that a token is ordinary.  It knows only the numbers that are digits. -/
def Token.looksOrdinary (token : Token) : Bool :=
  let text := token.text.toList
  match token.kind with
  | .identifier =>
    text.head?.any isLetter && text.tail.dropLast.all isWordChar &&
      text.tail.getLast?.all (fun c => isWordChar c || isWordSuffix c) &&
      !Vocabulary.keywords.contains (Text.upper token.text) &&
        (Vocabulary.builtin? token.text).isNone
  | .number => text.all isDigit && !text.isEmpty && decide (text.length ≤ digitLimit)
  | .string => text.all fun c => c ≠ '"' && c ≠ '\n' && plainChar c == c
  | _ => true

theorem word_of_parts {text : List Char} (hfirst : text.head?.any isLetter = true)
    (hbody : text.tail.dropLast.all isWordChar = true)
    (hlast : text.tail.getLast?.all (fun c => isWordChar c || isWordSuffix c) = true) :
    Word text := by
  obtain _ | ⟨first, body⟩ := text
  · cases hfirst
  · rcases List.eq_nil_or_concat body with rfl | ⟨front, last, rfl⟩
    · exact ⟨first, [], [], rfl, hfirst, nofun, .inl rfl⟩
    · simp only [List.tail_cons, List.concat_eq_append, List.dropLast_concat,
        List.all_eq_true] at hbody
      simp only [List.tail_cons, List.concat_eq_append, List.getLast?_concat, Option.all_some,
        Bool.or_eq_true] at hlast
      rcases hlast with hlast | hlast
      · refine ⟨first, front ++ [last], [], by simp, hfirst, ?_, .inl rfl⟩
        simpa [or_imp, forall_and] using ⟨hbody, hlast⟩
      · exact ⟨first, front, [last], by simp, hfirst, hbody, .inr ⟨last, rfl, hlast⟩⟩

theorem Token.ordinary_of_looks {token : Token} (h : token.looksOrdinary = true) :
    token.Ordinary := by
  obtain ⟨kind, text, line, column⟩ := token
  cases kind with
  | identifier =>
    simp only [looksOrdinary, Bool.and_eq_true, Bool.not_eq_true', Option.isNone_iff_eq_none] at h
    obtain ⟨⟨⟨⟨hfirst, hbody⟩, hlast⟩, hkeyword⟩, hbuiltin⟩ := h
    exact ⟨⟨word_of_parts hfirst hbody hlast, hkeyword⟩, ⟨fun _ => hbuiltin, nofun⟩⟩
  | number =>
    simp only [looksOrdinary, Bool.and_eq_true, List.all_eq_true, Bool.not_eq_true',
      List.isEmpty_eq_false_iff, decide_eq_true_eq] at h
    have hwritable : Writable text := writable_digits h.1.1 h.1.2 h.2
    exact ⟨hwritable.1, ⟨nofun, fun _ => hwritable⟩⟩
  | string =>
    simp only [looksOrdinary, List.all_eq_true, Bool.and_eq_true,
      decide_eq_true_eq, beq_iff_eq] at h
    exact ⟨fun c hc => ⟨(h c hc).1.1, (h c hc).1.2, (h c hc).2⟩, nofun, nofun⟩
  | _ => exact ⟨trivial, nofun, nofun⟩

/-- A loop around a single-line `IF` and a selection with another loop. -/
def tally : Body :=
  .next (.counting "i" (.number "1") (.number "3") none
    (.next (.line (.ifThen (.binary (.compare .greater) (.name "i") (.number "1"))
        (.ifElse (.binary (.compare .equal) (.name "m$") (.string "a")) (.print (.name "I"))
          (.assign "t" (.binary .plus (.name "t") (.name "i"))))))
      (.next (.selection (.name "i")
          (.case (.value (.number "1")) [.compare true .greater (.number "2")]
            (.next (.doLoop (.back ⟨true, .binary (.compare .greater) (.name "T") (.number "5")⟩)
              (.next (.line (.assign "t" (.binary .plus (.name "t") (.number "1")))) .done)) .done)
            (.otherwise (.next (.line (.print (.string "none"))) .done))))
        .done))
    (some ⟨"I", rfl⟩)) .done

/-- The source of `tally`, without an end of its last line. -/
def tallySource : String :=
  "FOR i = 1 TO 3\nIF i > 1 THEN IF m$ = \"a\" THEN PRINT I ELSE t = t + i\n" ++
    "SELECT CASE i\nCASE 1, IS > 2\n" ++
    "DO\nt = t + 1\nLOOP UNTIL T > 5\nCASE ELSE\nPRINT \"none\"\nEND SELECT\nNEXT I"

/-- The `ELSE` belongs to the second `IF`, and the loops and the selection stand in one another. -/
theorem tally_translated :
    tally.SpelledIn tallySource ∧
      ∃ s, pass (scan tallySource).tokens.toArray
        (Collector.empty.addAll (scan tallySource).warnings) = .ok () s ∧
        s.collector.toList = [] ∧ s.page.lines.toList = tally.translation ∧
        tally.translation =
          [⟨1, "let i = 0;"⟩, ⟨1, "let m$ = \"\";"⟩, ⟨1, "let t = 0;"⟩,
            ⟨1, "for (i = 1; (1 >= 0) ? i <= 3 : i >= 3; i += 1) \x7b"⟩, ⟨2, "if ((i > 1)) \x7b"⟩,
            ⟨3, "if ((m$ === \"a\")) \x7b"⟩, ⟨4, "_print(i, true);"⟩, ⟨3, "\x7d else \x7b"⟩,
            ⟨4, "t = (t + i);"⟩, ⟨3, "\x7d"⟩, ⟨2, "\x7d"⟩, ⟨2, "\x7b"⟩, ⟨3, "const _select_1 = i;"⟩,
            ⟨3, "if (_select_1 === 1 || _select_1 > 2) \x7b"⟩, ⟨4, "do \x7b"⟩, ⟨5, "t = (t + 1);"⟩,
            ⟨4, "\x7d while (!((t > 5)));"⟩, ⟨3, "\x7d else \x7b"⟩, ⟨4, "_print(\"none\", true);"⟩,
            ⟨3, "\x7d"⟩, ⟨2, "\x7d"⟩, ⟨1, "\x7d"⟩] := by
  have hscan : (fun found : Scan => (found.tokens.map Token.bare, found.warnings, found.fault))
      (scan tallySource) =
      (tally.spelling.dropLast ++ [.inputEnd], [], none) := by
    decide +kernel
  obtain ⟨htokens, hwarnings, hfault⟩ : _ = _ ∧ _ = _ ∧ _ = _ := by
    simpa only [Prod.mk.injEq] using hscan
  have hspelled : tally.SpelledIn tallySource := ⟨⟨_, .inr rfl, htokens⟩, hfault⟩
  have hlooks : tally.spelling.all Token.looksOrdinary = true := by decide +kernel
  obtain ⟨-, -, htranslated⟩ := structured_program_translated tally
    fun t ht => Token.ordinary_of_looks (all_eq_true.1 hlooks t ht)
  obtain ⟨s, hpass, hcollector, -, hiff⟩ := htranslated tallySource hspelled
  exact ⟨hspelled, s, hpass, hcollector.trans hwarnings, hiff.2 (by decide +kernel),
    by decide +kernel⟩

/-- The variable of an assignment is first met on its left, where it is not declared yet.  Another
spelling on its right declares it, and the assignment keeps the first. -/
theorem assignment_misses_declaration :
    ∃ p : Body, p.SpelledIn "foo = FOO + 1" ∧
      p.translation = [⟨1, "let foo = 0;"⟩, ⟨1, "foo = (foo + 1);"⟩] ∧
      ∃ s, pass (scan "foo = FOO + 1").tokens.toArray {} = .ok () s ∧ ¬HasError s.collector.toList ∧
        s.page.render Script.indentUnit = ["  let FOO = 0;", "  foo = (FOO + 1);"] := by
  refine ⟨.next (.line (.assign "foo" (.binary .plus (.name "FOO") (.number "1")))) .done,
    ⟨⟨_, .inr rfl, by decide +kernel⟩, by decide +kernel⟩, by decide +kernel, ?_⟩
  have houtcome : outcome? "foo = FOO + 1" =
      some (["  let FOO = 0;", "  foo = (FOO + 1);"], false) := by
    decide +kernel
  obtain ⟨s, hpass, hlines, herrs⟩ := pass_of_outcome? false houtcome
  exact ⟨s, hpass, fun herror => Bool.false_ne_true (herrs.1 herror), hlines⟩

end BasicScript
