import BasicScript.Proofs.DataTable

/-!
# Text of the source stays in literals

Text of the source comes into the program in strings, in data and in `//` remarks.  A line of the
program is read here as a JavaScript reader cuts it (`Cut`): code, string literals in double quotes,
and a remark up to the end of the line, in which a literal is told by its quotes in the same way.
Outside the literals there is only printed ASCII, and code has no other kind of quote, so a literal
begins and ends where the line says.

`text_in_literals`: no line of the body and no line of data ends early, and every other character
than printed ASCII stands in a literal that is closed on its line.
-/

namespace BasicScript.Script

variable {c : Char} {rest : List Char} {r r' : Reader} {text : String}

/-! ### Literals in a line -/

/-- A text that is cut into printed characters and literals, in a remark or in code.  Code has no
other quote and no backslash, and two slashes begin a remark. -/
inductive Cut : Bool → List Char → Prop where
  | nil {remark : Bool} : Cut remark []
  | char {remark : Bool} {c : Char} {rest : List Char} (hprinted : isPrinted c = true)
      (hquote : c ≠ '"')
      (hcode : remark = false → isForeign c = false ∧ (c = '/' → rest.head? ≠ some '/'))
      (h : Cut remark rest) : Cut remark (c :: rest)
  | remark {rest : List Char} (h : Cut true rest) : Cut false ('/' :: '/' :: rest)
  | literal {remark : Bool} {body rest : List Char} (hbody : LiteralBody body)
      (h : Cut remark rest) : Cut remark ('"' :: (body ++ '"' :: rest))

/-- A character with `front` in front of it and `back` behind it stands in a literal that is closed
behind it.  The quote in front of it begins a literal, since what is in front of the quote is
cut. -/
def InLiteral (front : List Char) (c : Char) (back : List Char) : Prop :=
  ∃ before inner behind after, front = before ++ '"' :: inner ∧ back = behind ++ '"' :: after ∧
    Cut false before ∧ LiteralBody (inner ++ c :: behind)

/-- A character that is not printed does not stand in the place of one that is. -/
theorem exists_front_of_printed {first : Char} {front back : List Char}
    (h : first :: rest = front ++ c :: back) (hfirst : isPrinted first = true)
    (hc : isPrinted c = false) :
    ∃ front', front = first :: front' ∧ rest = front' ++ c :: back := by
  cases front with
  | nil =>
    obtain ⟨rfl, -⟩ := List.cons.inj h
    cases hfirst.symm.trans hc
  | cons _ front' =>
    obtain ⟨rfl, hrest⟩ := List.cons.inj h
    exact ⟨front', rfl, hrest⟩

namespace Cut

variable {remark : Bool} {cs : List Char}

/-- In a text that is cut, only literals have characters that are not printed. -/
theorem exists_literal (h : Cut remark cs) :
    ∀ {front back : List Char} {c : Char}, cs = front ++ c :: back →
    isPrinted c = false → ∃ before inner behind after, front = before ++ '"' :: inner ∧
      back = behind ++ '"' :: after ∧ Cut remark before ∧ LiteralBody (inner ++ c :: behind) := by
  induction h with
  | nil =>
    intro front back c hcs
    exact absurd hcs.symm (List.append_ne_nil_of_right_ne_nil _ (List.cons_ne_nil _ _))
  | @char remark d rest hprinted hquote hcode _ ih =>
    intro front back c hcs hc
    obtain ⟨front', rfl, hrest⟩ := exists_front_of_printed hcs hprinted hc
    obtain ⟨before, inner, behind, after, rfl, rfl, hbefore, hbody⟩ := ih hrest hc
    refine ⟨d :: before, inner, behind, after, rfl, rfl,
      .char hprinted hquote (fun hremark => ?_) hbefore, hbody⟩
    obtain ⟨hforeign, hnext⟩ := hcode hremark
    refine ⟨hforeign, fun hslash => ?_⟩
    -- what stands behind the slash stands there in the shorter text too, if anything does
    cases before with
    | nil => exact nofun
    | cons second before =>
      subst hrest
      exact hnext hslash
  | remark _ ih =>
    intro front back c hcs hc
    obtain ⟨front₁, rfl, hcs₁⟩ := exists_front_of_printed hcs rfl hc
    obtain ⟨front₂, rfl, hcs₂⟩ := exists_front_of_printed hcs₁ rfl hc
    obtain ⟨before, inner, behind, after, rfl, rfl, hbefore, hbody⟩ := ih hcs₂ hc
    exact ⟨'/' :: '/' :: before, inner, behind, after, rfl, rfl, .remark hbefore, hbody⟩
  | @literal remark body rest hbody _ ih =>
    intro front back c hcs hc
    obtain ⟨front', rfl, hrest⟩ := exists_front_of_printed hcs rfl hc
    rcases List.append_eq_append_iff.1 hrest with ⟨front'', rfl, hbehind⟩ | ⟨behind, rfl, hbehind⟩
    · -- the character stands behind the literal
      obtain ⟨front₁, rfl, hcs₁⟩ := exists_front_of_printed hbehind rfl hc
      obtain ⟨before, inner, behind, after, rfl, rfl, hbefore, hinner⟩ := ih hcs₁ hc
      exact ⟨'"' :: (body ++ '"' :: before), inner, behind, after,
        by simp, rfl, .literal hbody hbefore, hinner⟩
    · cases behind with
      | nil =>
        obtain ⟨rfl, -⟩ := List.cons.inj hbehind
        cases hc
      | cons second behind =>
        obtain ⟨rfl, rfl⟩ := List.cons.inj hbehind
        exact ⟨[], front', behind, rest, rfl, rfl, .nil, hbody⟩

theorem blanks (n : Nat) (h : Cut false cs) : Cut false (List.replicate n ' ' ++ cs) := by
  induction n with
  | zero => exact h
  | succ n ih =>
    exact .char rfl (by decide) (fun _ => ⟨rfl, fun hslash => absurd hslash (by decide)⟩) ih

end Cut

/-! ### What the reader says of them -/

/-- What the rest of a line is for a reader that will end outside a literal. -/
def Reader.Rest (r : Reader) (cs : List Char) : Prop :=
  match r.mode with
  | .quote => ∃ body rest, cs = body ++ '"' :: rest ∧ LiteralBody body ∧ Cut r.remark rest
  | .escape => ∃ c body rest, cs = c :: (body ++ '"' :: rest) ∧ LiteralBody body ∧ Cut r.remark rest
  | .slash => r.remark = false → Cut false ('/' :: cs)
  | .fresh | .shut | .code | .brace => Cut r.remark cs

theorem Reader.rest_settled {opened : List Char}
    (h : Reader.Rest { r with mode := settled c, opened } rest) : Cut r.remark rest := by
  unfold settled at h
  split at h <;> exact h

/-- A character of code is cut off: the second slash of a remark, or a character that stands for
itself. -/
theorem Reader.CodeStep.cut {q : Reader} (h : CodeStep r c q) (hprinted : isPrinted c = true)
    (hrest : q.Rest rest) : (c = '/' ∧ r.mode = .slash ∧ Cut true rest) ∨
      (Cut r.remark (c :: rest) ∧ (r.mode = .slash → r.remark = false → c ≠ '/')) := by
  have hplain (hquote : c ≠ '"') (hforeign : isForeign c = false) (hslash : c ≠ '/')
      (hcut : Cut r.remark rest) :
      Cut r.remark (c :: rest) ∧ (r.mode = .slash → r.remark = false → c ≠ '/') :=
    ⟨.char hprinted hquote (fun _ => ⟨hforeign, fun hc => absurd hc hslash⟩) hcut,
      fun _ _ => hslash⟩
  cases h with
  | quote hc =>
    subst hc
    obtain ⟨body, back, rfl, hbody, hback⟩ := hrest
    exact .inr ⟨.literal hbody hback, fun _ _ => by decide⟩
  | remark hc hr =>
    have hcut : Cut r.remark rest := rest_settled hrest
    rw [hr] at hcut ⊢
    exact .inr ⟨.char hprinted hc nofun hcut, nofun⟩
  | slash hc hr hm =>
    subst hc
    rw [hr]
    exact .inr ⟨hrest hr, fun hslash => absurd hslash hm⟩
  | comment hc hr hm => exact .inl ⟨hc, hm, hrest⟩
  | opening hc hr =>
    have hcut : Cut r.remark rest := rest_settled hrest
    simp only [isOpening, Bool.or_eq_true, decide_eq_true_eq] at hc
    rcases hc with (rfl | rfl) | rfl <;>
      exact .inr (hplain (by decide) (by decide) (by decide) hcut)
  | closing hc hr =>
    simp only [isClosing, Bool.or_eq_true, decide_eq_true_eq] at hc
    rcases hc with (rfl | rfl) | rfl <;>
      exact .inr (hplain (by decide) (by decide) (by decide) hrest)
  | plain hc hr =>
    obtain ⟨hquote, hslash, -, -, hforeign⟩ := hc
    exact .inr (hplain hquote hforeign hslash hrest)

/-- **What is read to a place outside literals is cut.** -/
theorem Reader.rest_of_read {cs : List Char} (h : r.read cs = some r')
    (hquote : r'.mode ≠ .quote) (hescape : r'.mode ≠ .escape) : r.Rest cs := by
  induction cs generalizing r with
  | nil =>
    obtain rfl : r = r' := Option.some.inj h
    cases hm : r.mode <;> simp only [Rest, hm]
    case quote => exact absurd hm hquote
    case escape => exact absurd hm hescape
    case slash => exact fun _ => .char rfl (by decide) (fun _ => ⟨rfl, nofun⟩) .nil
    all_goals exact .nil
  | cons c rest ih =>
    rw [read_cons] at h
    obtain ⟨q, hq, h⟩ := Option.bind_eq_some_iff.1 h
    have hrest := ih h
    -- behind a backslash, inside a literal, in code
    rcases step_cases hq with ⟨hm, -, rfl⟩ | ⟨hm, -, rfl⟩ | ⟨hm, hm', -, -, hprinted, hcode⟩
    · obtain ⟨body, back, rfl, hbody, hback⟩ := hrest
      simp only [Rest, hm]
      exact ⟨c, body, back, rfl, hbody, hback⟩
    · simp only [Rest, hm]
      by_cases hc : c = '"'
      · rw [if_pos hc] at hrest
        exact ⟨[], rest, by rw [hc, List.nil_append], .nil, hrest⟩
      rw [if_neg hc] at hrest
      by_cases hc' : c = '\\'
      · rw [if_pos hc'] at hrest
        obtain ⟨d, body, back, rfl, hbody, hback⟩ := hrest
        exact ⟨'\\' :: d :: body, back, by rw [hc']; rfl, .escape hbody, hback⟩
      · rw [if_neg hc'] at hrest
        obtain ⟨body, back, rfl, hbody, hback⟩ := hrest
        exact ⟨c :: body, back, rfl, .char hc hc' hbody, hback⟩
    · rcases hcode.cut hprinted hrest with ⟨rfl, hslash, hcut⟩ | ⟨hcut, hne⟩
      · simp only [Rest, hslash]
        exact fun _ => .remark hcut
      · cases hmode : r.mode <;> simp only [Rest, hmode]
        case quote => exact absurd hmode hm'
        case escape => exact absurd hmode hm
        case slash =>
          intro hr
          rw [hr] at hcut
          refine .char rfl (by decide) (fun _ => ⟨rfl, fun _ hhead => ?_⟩) hcut
          exact hne hmode hr (Option.some.inj hhead)
        all_goals exact hcut

/-! ### Lines -/

/-- What a line may be for the text of the source to stay where it is put: it does not end early,
and only its literals have characters that are not printed. -/
structure Encloses (line : String) : Prop where
  single : ∀ c ∈ line.toList, isLineEnd c = false
  inLiteral : ∀ (front back : List Char) (c : Char), line.toList = front ++ c :: back →
    isPrinted c = false → InLiteral front c back

theorem Encloses.of_cut {line : String} (hsingle : ∀ c ∈ line.toList, isLineEnd c = false)
    (hcut : Cut false line.toList) : Encloses line :=
  ⟨hsingle, fun _ _ _ hline hc => hcut.exists_literal hline hc⟩

/-- A line that the reader reads is cut at any depth. -/
theorem encloses_of_read (h : Reads r text r') (hr : r.mode = .fresh ∨ r.mode = .shut)
    (hremark : r.remark = false) (hr' : r'.mode = .code ∨ r'.mode = .brace) (depth : Nat) :
    Encloses (Line.render indentUnit ⟨depth, text⟩) := by
  have hrest : r.Rest text.toList := by
    apply Reader.rest_of_read h <;> rcases hr' with hr' | hr' <;> rw [hr'] <;> decide
  have hcut : Cut false text.toList := by
    rcases hr with hr | hr <;> simpa only [Reader.Rest, hr, hremark] using hrest
  refine .of_cut (single_render (Reader.isLineEnd_of_read h)) ?_
  rw [toList_render]
  exact hcut.blanks _

theorem Flat.encloses (h : Flat text) (depth : Nat) :
    Encloses (Line.render indentUnit ⟨depth, text⟩) := by
  obtain ⟨remark, h⟩ := h
  exact encloses_of_read h (.inl rfl) rfl (.inl rfl) depth

theorem Nested.encloses {ok : String → String → Prop} {base : Nat} {opened opened' : List String}
    {lines : List Line} (h : Nested ok base opened lines opened') :
    ∀ line ∈ lines.map (Line.render indentUnit), Encloses line := by
  induction h with
  | nil => exact fun _ hline => nomatch hline
  | cons hshift _ ih =>
    refine List.forall_mem_cons.2 ⟨?_, ih⟩
    cases hshift with
    | flat h => exact h.encloses _
    | opens h => exact encloses_of_read h (.inl rfl) rfl (.inr rfl) _
    | closes h => exact encloses_of_read h (.inr rfl) rfl (.inl rfl) _
    | turns h => exact encloses_of_read h (.inr rfl) rfl (.inr rfl) _

end BasicScript.Script

namespace BasicScript

open Emit Script

/-! ### The line of data -/

theorem DataValue.sealed {item : List Token} {value : String} (h : DataValue item value) :
    Sealed value := by
  cases h with
  | number _ hvalue | positive _ _ hvalue => exact (wordy_of_number hvalue).solid.1
  | negative _ _ hvalue => exact Sealed.append (Reads.start rfl) (wordy_of_number hvalue).solid.1
  | text => exact (literal_solid _).1

/-- The line of data is a line of code, whatever the data. -/
theorem flat_dataLine {values : List String} (h : ∀ value ∈ values, Sealed value) :
    Flat (Target.dataLine values) :=
  .intro ((Reads.start rfl).within (inner_commas h) rfl)

/-! ### Programs -/

/-- **The text of a source stays in literals.**  Either nothing is generated for a source, as it
cannot be read or has a number with too many digits, or for every target the line of data and the
lines of the body have no character that ends a line, and all characters that are not printed ASCII
stand in literals that are closed on their line. -/
theorem text_in_literals (source : String) :
    (∃ fault, Fails source fault ∧ ∀ target,
        (Generated.ofScan target (Lexer.scan source)).failure = some (.fault fault) ∧
        (Generated.ofScan target (Lexer.scan source)).code = "") ∨
      ∃ values : List String,
        tableOf (Lexer.scan source).tokens.toArray
          (announcedSpans (Lexer.scan source).tokens.toArray) = .ok values ∧
        (∀ target, (Generated.ofScan target (Lexer.scan source)).failure = none ∧
          (Generated.ofScan target (Lexer.scan source)).code = Text.joinWith "\n"
          (target.preamble values ++
            (lastState source).page.render indentUnit ++ target.postamble)) ∧
        ∀ line ∈ Target.dataLine values :: (lastState source).page.render indentUnit,
          Encloses line := by
  rcases generated_cases source with ⟨fault, hfails, hfailed⟩ |
    ⟨hread, s, -, hfinished, hpass, hlast, -⟩
  · refine .inl ⟨fault, hfails, fun target => ?_⟩
    rw [hfailed target]
    exact ⟨rfl, rfl⟩
  · obtain ⟨values, htable, hgenerated⟩ := exists_announced hread hpass
    obtain ⟨es, hrun⟩ := hfinished.path
    obtain ⟨opened, hdrawn, -⟩ := hrun.tidy (sound_start _ _) ⟨[], .start _ _, rfl⟩
    rw [hlast]
    refine .inr ⟨values, htable, hgenerated,
      List.forall_mem_cons.2 ⟨?_, hdrawn.hoistModule.encloses⟩⟩
    have hvalues := fun value hvalue =>
      (exists_dataValue htable value hvalue).elim fun _ h => h.sealed
    exact (flat_dataLine hvalues).encloses 0

-- A remark has the text of the source in its quotes too.
example : (lastState "ON \"é\u2028\" GOTO a").page.render indentUnit =
    ["  // ON \"é\\u2028\" GOTO a (not supported)"] := by
  decide +kernel

end BasicScript
