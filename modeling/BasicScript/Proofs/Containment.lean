import BasicScript.Proofs.Program
import BasicScript.Proofs.ProgramReading

/-!
# Errors stay in their line

In a source without record types no statement leaves its line, and neither does what is done about a
statement that was rejected: one turn of the loop over statements passes the end of a line at most
with its last token (`statementTurn_stays`).  So the loop begins a turn at the start of every line,
outside all single-line `IF`s, whatever stands in the lines before; only a number that has no
literal keeps it from there (`every_line_begun_or_tooManyDigits`).
-/

namespace BasicScript

open Emit Lexer List

variable {tape : Tape} {s s₁ s' : State} {α : Type} {place : Int} {n : Nat}

/-! ### One turn -/

/-- A source without record types. -/
def Tape.Typeless (tape : Tape) : Prop := ∀ token ∈ tape.tokens, token.isKeyword "TYPE" = false

/-- What is left of a line by an action that began in it.  If it failed, the cursor is still in that
line. -/
def Stays (tape : Tape) (s : State) : EStateM.Result Failure State α → Prop
  | .ok _ s' => Path tape .full s s' ∧ s.position < s'.position ∧
    tape.InLine s.position (s'.position - 1)
  | .error _ s' => tape.InLine s.position s'.position

theorem Tape.InLine.take {start stop stop' : Int} (h : tape.InLine start stop)
    (hle : stop' ≤ stop) : tape.InLine start stop' :=
  fun p hstart hstop => h p hstart (by omega)

/-- A statement stays in its line, rejected or not. -/
theorem guardedStatement_stays (htypeless : tape.Typeless) (hs : Sound tape s)
    (hmore : s.position + 1 < tape.tokens.size)
    (hlast : s.lastRejectedLine = 0 ∨ HasError s.collector.toList)
    (hstarts : s.floors = [] → Starts tape s) : Stays tape s (guardedStatement tape.tokens s) := by
  obtain ⟨hmeets, -⟩ := endedStatement_does (.inr ⟨rfl, htypeless⟩) hstarts hs
  unfold guardedStatement rescuing
  cases hr : endedStatement tape.tokens s with
  | ok _ s₁ =>
    rw [hr] at hmeets
    exact ⟨hmeets.1.rise (by decide), hmeets.2.1, hmeets.1.inLine.take (by omega)⟩
  | error failure s₁ =>
    rw [hr] at hmeets
    obtain ⟨hpath, hexcuse⟩ := hmeets
    cases hexcuse with
    | number => exact hpath.inLine
    | rejected hplace =>
      obtain ⟨s₂, hrecover, hpath₂, hmoved, hline, -⟩ :=
        recover_completes (hpath.sound hs) hplace (hpath.grows.unrejected hlast)
      have hpos₁ := hpath.grows.position
      have hpos₂ := hpath₂.grows.position
      change Stays tape s (recover _ tape.tokens (s₁.catching _))
      rw [of_below hrecover]
      exact ⟨(hpath.rise (by decide)).trans hpath₂, by omega, hpath.inLine.trans hline⟩

/-- What a turn of the loop over statements comes to in a source without record types. -/
def TurnStays (tape : Tape) (s : State) : EStateM.Result Failure State (Turn Unit Unit) → Prop
  | .ok (.done _) _ => s.position + 1 = tape.tokens.size
  | .ok (.again _) s' => Stays tape s (.ok () s')
  | .error failure s' => Stays tape s (.error (α := Unit) failure s')

/-- **One turn.**  It ends the loop at the end of the input, or it passes the end of a line at most
with its last token. -/
theorem statementTurn_stays (htypeless : tape.Typeless) (hs : Sound tape s)
    (hturn : AtTurn tape s) : TurnStays tape s (statementTurn () tape.tokens s) := by
  obtain ⟨token, hcurrent, ht⟩ := current_sees hs
  have hend := ht.lt_size_iff hs
  rw [statementTurn, bind_ok (of_below hcurrent)]
  split
  · rename_i hk
    have hlt := hs.position_lt
    have hlast := mt hend.1 (not_not_intro hk)
    change s.position + 1 = tape.tokens.size
    omega
  rename_i hk
  split
  · obtain ⟨_, s₁, hadvance, hpath, -, hpos⟩ := advance_completes ht (.inl rfl) hs
    rw [if_neg hk] at hpos
    rw [bind_ok (of_below hadvance)]
    exact ⟨hpath, by omega, .of_le (by omega)⟩
  · have hinside : endsData token = false := by simp_all [endsData, Token.endsLine]
    have hstays := guardedStatement_stays htypeless hs (hend.2 hk) hturn.rejected fun _ =>
      hturn.starts ht hinside
    cases hr : guardedStatement tape.tokens s with
    | ok _ s₁ =>
      rw [hr] at hstays
      rw [bind_ok hr]
      exact hstays
    | error failure s₁ =>
      rw [hr] at hstays
      rw [bind_error hr]
      exact hstays

/-! ### The loop -/

/-- The start of a line: the first place, or one behind the end of a line. -/
def StartsLine (tokens : Array Token) (place : Nat) : Prop :=
  place = 0 ∨ ∃ front token, place = front + 1 ∧ tokens[front]? = some token ∧ token.kind = .newline

/-- The loop over statements of a pass begins a turn in a state. -/
def BeginsTurn (tokens : Array Token) (collector : Collector) (s : State) : Prop :=
  ∃ start, announce tokens { collector } = .ok () start ∧ Runs tokens start s

/-- The loop begins a turn at the start of each line that is still ahead, unless it fails in a line
before it. -/
theorem iterate_begins (htypeless : tape.Typeless) (turns : Nat) (s : State) (hs : Sound tape s)
    (hat : AtTurn tape s) (hturns : (tape.tokens.size : Int) < turns + s.position)
    (hplace : s.position ≤ place) (hsize : place < tape.tokens.size)
    (hstart : place = s.position ∨ tape.EndsLine (place - 1)) :
    (∃ s', Runs tape.tokens s s' ∧ s'.position = place ∧ s'.floors = s.floors) ∨
      ∃ failure s', Emit.iterate statementTurn turns () tape.tokens s = .error failure s' ∧
      s'.position < place := by
  induction turns generalizing s with
  | zero =>
    have hlt := hs.position_lt
    omega
  | succ turns ih =>
    rcases Int.lt_or_eq_of_le hplace with hlt | heq
    case inr => exact .inl ⟨s, .refl s, heq, rfl⟩
    have hends : tape.EndsLine (place - 1) := hstart.resolve_left (by omega)
    have hturn := statementTurn_stays htypeless hs hat
    have hnext := (statementTurn_does hat hs).1
    rw [Emit.iterate]
    cases hr : statementTurn () tape.tokens s with
    | error failure s₁ =>
      rw [hr] at hturn
      refine .inr ⟨failure, s₁, bind_error hr _, ?_⟩
      by_contra hge
      exact hturn (place - 1) (by omega) (by omega) hends
    | ok result s₁ =>
      rw [hr] at hturn hnext
      cases result with
      | done =>
        have hlast : s.position + 1 = tape.tokens.size := hturn
        omega
      | again =>
        obtain ⟨hpath, hmoved, hline⟩ := hturn
        -- a turn uses up no end of a line but its last token
        have hahead : s₁.position ≤ place := by
          by_contra hpassed
          exact hline (place - 1) (by omega) (by omega) hends
        rw [bind_ok hr]
        refine (ih s₁ (hpath.sound hs) hnext.2.2 (by omega) hahead (.inr hends)).imp_left ?_
        rintro ⟨s', hruns, hpos, hfloors⟩
        exact ⟨s', .turn hr hmoved hruns, hpos, hfloors.trans hpath.grows.floors⟩

theorem StartsLine.lt_size (h : StartsLine tape.tokens n) : n < tape.tokens.size := by
  rcases h with rfl | ⟨front, token, rfl, hfront, hk⟩
  · exact tape.size_pos
  · obtain ⟨hlt, rfl⟩ := Array.getElem?_eq_some_iff.1 hfront
    have hnot : front + 1 ≠ tape.tokens.size := fun h => by
      rw [(tape.kind_iff front hlt).2 h] at hk
      cases hk
    omega

/-- The pass over a tape begins a turn at the start of every line, or it fails before that. -/
theorem begins_or_faults (htypeless : tape.Typeless) (collector : Collector)
    (hstart : StartsLine tape.tokens n) :
    (∃ s, BeginsTurn tape.tokens collector s ∧ s.position = n ∧ s.floors = []) ∨
      ∃ fault s, pass tape.tokens collector = .error (.fault fault) s ∧ Faults tape fault ∧
        (s.position < n ∨ announce tape.tokens { collector } = .error (.fault fault) s) := by
  have hs := sound_start tape collector
  have hannounce : Does tape .full { collector } announce fun _ => Unwritten { collector } :=
    announce_does
  rcases hannounce.ok_or_faults .announce hs with ⟨_, s₁, hr₁, hpath₁, hunwritten⟩ |
    ⟨fault, s₁, hr₁, -, hfault⟩
  case inr => exact .inr ⟨fault, s₁, bind_error hr₁ _, hfault, .inr hr₁⟩
  have hs₁ := hpath₁.sound hs
  have hpos₁ : s₁.position = 0 := hunwritten.position
  have hends : (n : Int) = s₁.position ∨ tape.EndsLine ((n : Int) - 1) := by
    rcases hstart with rfl | ⟨front, token, rfl, hfront, hk⟩
    · exact .inl hpos₁.symm
    · exact .inr ⟨token, by simpa using hfront, hk⟩
  have hsize := hstart.lt_size
  have hturn := atTurn_of_announced hpath₁ hunwritten
  rcases iterate_begins htypeless (tape.tokens.size + 1) s₁ hs₁ hturn (by omega)
    (by omega) (by omega) hends with
    ⟨s, hruns, hpos, hfloors⟩ | ⟨failure, s, herror, hlt⟩
  · exact .inl ⟨s, ⟨s₁, hr₁, hruns⟩, hpos, hfloors.trans hpath₁.grows.floors⟩
  · have hstatements : statements tape.tokens s₁ = .error failure s := herror
    rcases (statements_does hturn).ok_or_faults .statements hs₁ with ⟨_, s₂, hok, -⟩ |
      ⟨fault, s₂, hfails, -, hfault⟩
    · cases hstatements.symm.trans hok
    · cases hstatements.symm.trans hfails
      exact .inr ⟨fault, s, (bind_ok hr₁ _).trans (bind_error hstatements _), hfault, .inl hlt⟩

/-- **Errors stay in their line.**  In a source without record types the loop over statements begins
a turn at the start of every line, and no single-line `IF` is open there: no statement of the lines
before, rejected or not, uses up a token of this one.  Or the pass fails in a line before, or before
the first line, and then only because of a number without a point that has too many digits. -/
theorem every_line_begun_or_tooManyDigits (source : String) (hread : (scan source).fault = none)
    (htypeless : ∀ token ∈ (scan source).tokens, token.isKeyword "TYPE" = false)
    (collector : Collector) (place : Nat) (hstart : StartsLine (scan source).tokens.toArray place) :
    (∃ s, BeginsTurn (scan source).tokens.toArray collector s ∧ s.position = place ∧
      s.floors = []) ∨
      ∃ token ∈ (scan source).tokens, token.kind = .number ∧ '.' ∉ token.text.toList ∧
        digitLimit < (token.text.toList.filter isDigit).length ∧
        ∃ s, pass (scan source).tokens.toArray collector =
            .error (.fault (.tooManyDigits (token.text.toList.filter isDigit).length)) s ∧
          (s.position < place ∨ announce (scan source).tokens.toArray { collector } =
            .error (.fault (.tooManyDigits (token.text.toList.filter isDigit).length)) s) := by
  have htape : (Tape.ofSource source hread).Typeless :=
    fun token ht => htypeless token (mem_toArray.1 ht)
  refine (begins_or_faults htape collector hstart).imp_right ?_
  rintro ⟨fault, s, hpass, hfault, hbefore⟩
  obtain ⟨token, ht, hk, hpoint, hlimit, rfl⟩ := hfault.tooManyDigits
  exact ⟨token, mem_toArray.1 ht, hk, hpoint, hlimit, s, hpass, hbefore⟩

/-- A loop without a bound, the end of a procedure inside a single-line `IF`, and stray signs. -/
def garbledLines : String := "FOR i = 1 TO\nIF x THEN END SUB ELSE )\nDATA 1,\n).(\nPRINT 1"

/-- None of this keeps the loop from the last line. -/
theorem garbled_lines_begun :
    ∃ s, BeginsTurn (scan garbledLines).tokens.toArray {} s ∧ s.position = 22 ∧ s.floors = [] := by
  have hread : (scan garbledLines).fault = none := by decide +kernel
  have htypeless : ∀ token ∈ (scan garbledLines).tokens, token.isKeyword "TYPE" = false := by
    decide +kernel
  have hshort : ∀ token ∈ (scan garbledLines).tokens, token.kind = .number →
      ¬ digitLimit < (token.text.toList.filter isDigit).length := by
    decide +kernel
  have hnewline : ((scan garbledLines).tokens.toArray[21]?).map Token.kind = some .newline := by
    decide +kernel
  obtain ⟨token, htoken, hk⟩ := Option.map_eq_some_iff.1 hnewline
  rcases every_line_begun_or_tooManyDigits _ hread htypeless {} 22
    (.inr ⟨21, token, rfl, htoken, hk⟩) with
    hbegun | ⟨token, ht, hk, -, hlimit, -⟩
  · exact hbegun
  · exact absurd hlimit (hshort token ht hk)

/-! ### A literal that ends the pass -/

/-- A statement with a literal of too many digits is not rejected but ends the loop. -/
theorem statementTurn_tooManyDigits {tokens : Array Token} {text : String} {rest : List Token}
    (hdigits : ∀ c ∈ text.toList, isDigit c = true) (hlimit : digitLimit < text.toList.length)
    (hahead : Ahead tokens s.position (.word "WHILE" :: .numeral text :: rest)) :
    statementTurn () tokens s = .error (.fault (.tooManyDigits text.toList.length))
      ((s.moved 1).moved 1) := by
  obtain ⟨t, ht, hcurrent, hadvance⟩ := advance_gives hahead nofun
  have hk : t.kind = .keyword := congrArg Token.kind ht
  have htext : t.text = "WHILE" := congrArg Token.text ht
  have hexpression := expression_tooManyDigits (s := s.moved 1) hdigits hlimit hahead.tail
  have hstatement : statement tokens s = .error (.fault (.tooManyDigits text.toList.length))
      ((s.moved 1).moved 1) := by
    refine (bind_ok hcurrent _).trans ?_
    rw [hk, htext]
    exact (bind_ok hadvance _).trans (bind_error (bind_error hexpression _) _)
  have hguarded : guardedStatement tokens s =
      .error (.fault (.tooManyDigits text.toList.length)) ((s.moved 1).moved 1) := by
    unfold guardedStatement rescuing endedStatement
    simp only [bind_error hstatement]
  refine (bind_ok hcurrent _).trans ?_
  rw [if_neg (by simp [hk]), if_neg (by simp [hk, Token.isMark])]
  exact bind_error hguarded _

/-- A line with a literal, and one more line. -/
def literalLine (text : String) : List Token :=
  [.word "WHILE", .numeral text, .lineEnd, .word "PRINT"]

section Literal

variable {text : String} (hdigits : ∀ c ∈ text.toList, isDigit c = true)
  (hlimit : digitLimit < text.toList.length)

theorem typeless_literalLine :
    ∀ t ∈ literalLine text ++ [.inputEnd], t.isKeyword "TYPE" = false := by
  intro t ht
  simp only [literalLine, cons_append, nil_append, mem_cons, not_mem_nil, or_false] at ht
  rcases ht with rfl | rfl | rfl | rfl | rfl <;> rfl

include hdigits hlimit

/-- Tokens of a tree around a literal of digits can be written and read. -/
theorem lexical_literal (front back : List Token) (hfixed : ∀ t ∈ front ++ back, t ∈ treeTokens) :
    (∀ t ∈ front ++ .numeral text :: back, t.InTree) ∧
      ∀ t ∈ front ++ .numeral text :: back, t.Lexical := by
  have hne : text.toList ≠ [] := ne_nil_of_length_pos (Nat.lt_of_le_of_lt (Nat.zero_le _) hlimit)
  have hkinds : ∀ t ∈ treeTokens, t.kind ≠ .identifier ∧ t.kind ≠ .number ∧ t.kind ≠ .string := by
    decide +kernel
  constructor
  all_goals
    intro t ht
    rcases mem_cons.1 (perm_middle.subset ht) with rfl | ht
  · exact .number _
  · exact .fixed (hfixed t ht)
  · exact ⟨text.toList, [], [], [],
      by simp [Token.numeral], hdigits, by simp, .inl ⟨rfl, rfl⟩, .inl hne, .inl rfl⟩
  · have hkind := hkinds t (hfixed t ht)
    unfold Token.Lexical
    split <;> simp_all

/-- Behind a literal with too many digits the loop begins no turn: its first turn is the last. -/
theorem begins_first_turn_only :
    (scan (textOf (literalLine text))).fault = none ∧
      (∀ token ∈ (scan (textOf (literalLine text))).tokens, token.isKeyword "TYPE" = false) ∧
      StartsLine (scan (textOf (literalLine text))).tokens.toArray 3 ∧
      ∀ s, BeginsTurn (scan (textOf (literalLine text))).tokens.toArray {} s → s.position = 0 := by
  obtain ⟨htree, hlexical⟩ : (∀ t ∈ literalLine text, t.InTree) ∧
    ∀ t ∈ literalLine text, t.Lexical :=
    lexical_literal hdigits hlimit [.word "WHILE"] [.lineEnd, .word "PRINT"] (by decide +kernel)
  obtain ⟨htokens, -, hfault⟩ := scan_textOf htree hlexical
  generalize (scan (textOf (literalLine text))).tokens = list at htokens
  have hahead : Ahead list.toArray (State.position {}) (literalLine text) :=
    ⟨0, rfl, _, htokens.symm⟩
  refine ⟨hfault, fun token ht => ?_, ?_, ?_⟩
  · exact typeless_literalLine token.bare (htokens ▸ mem_map_of_mem ht)
  · obtain ⟨token, htoken, hk⟩ : ∃ token, list[2]? = some token ∧ token.bare = .lineEnd := by
      have hget := congrArg (·[2]?) htokens
      simpa [literalLine] using hget
    exact .inr ⟨2, token, rfl, by simpa using htoken, congrArg Token.kind hk⟩
  · rintro s ⟨start, hannounce, hruns⟩
    cases hannounce.symm.trans (announce_gives htree htokens)
    cases hruns with
    | refl => rfl
    | turn hturn =>
      cases hturn.symm.trans (statementTurn_tooManyDigits hdigits hlimit hahead)

end Literal

theorem toList_tooManyOnes : tooManyOnes.toList = List.replicate 4301 '1' := String.toList_ofList

theorem isDigit_tooManyOnes : ∀ c ∈ tooManyOnes.toList, isDigit c = true := by
  intro c hc
  rw [toList_tooManyOnes] at hc
  rw [eq_of_mem_replicate hc]
  rfl

theorem digitLimit_lt_tooManyOnes : digitLimit < tooManyOnes.toList.length := by
  rw [toList_tooManyOnes, length_replicate]
  decide

/-- **What keeps the loop from a line**: a literal of 4301 digits in the line before it. -/
theorem line_behind_literal_not_begun :
    (scan (textOf (literalLine tooManyOnes))).fault = none ∧
      (∀ token ∈ (scan (textOf (literalLine tooManyOnes))).tokens, token.isKeyword "TYPE" = false) ∧
      StartsLine (scan (textOf (literalLine tooManyOnes))).tokens.toArray 3 ∧
      ¬ ∃ s, BeginsTurn (scan (textOf (literalLine tooManyOnes))).tokens.toArray {} s ∧
        s.position = 3 ∧ s.floors = [] := by
  obtain ⟨hfault, htypeless, hstart, hfirst⟩ := begins_first_turn_only isDigit_tooManyOnes
    digitLimit_lt_tooManyOnes
  refine ⟨hfault, htypeless, hstart, ?_⟩
  rintro ⟨s, hbegins, hposition, -⟩
  rw [hfirst s hbegins] at hposition
  cases hposition

end BasicScript
