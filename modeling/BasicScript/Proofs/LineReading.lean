import BasicScript.Proofs.Ledger

/-!
# Reading statements on one line

The emitter reads the statements that stand on one line, with single-line `IF`s to any depth
(`Inline.read`).  An `ELSE` is found by the innermost `IF` that has none yet, and the tree has it
there.
-/

namespace BasicScript

open Emit Script List

variable {tokens : Array Token} {s s₁ s' : State} {l : Ledger} {name : String}
    {rows : List Row} {closed : Bool}
  {next first : Token} {depth count made : Nat} {rest : List Token} {e : Expr}

/-! ### Tokens that end a statement -/

/-- The end of a line: the token for it, or the end of the input. -/
def Token.IsLineEnd (token : Token) : Prop := token = .lineEnd ∨ token = .inputEnd

/-- How many tokens the end of a line is.  The end of the input stays where it is. -/
def Token.skips (token : Token) : Nat := if token.kind = .newline then 1 else 0

@[simp] theorem Token.skips_lineEnd : Token.lineEnd.skips = 1 := rfl

namespace Token.IsLineEnd

variable {token : Token} (h : token.IsLineEnd)

include h

theorem stops : Stops 0 token := by rcases h with rfl | rfl <;> exact stops_of_continues rfl

theorem endsLine : token.endsLine = true := by rcases h with rfl | rfl <;> rfl

theorem endsStatement : token.endsStatement = true := by rcases h with rfl | rfl <;> rfl

theorem isKeyword (text : String) : token.isKeyword text = false := by
  rcases h with rfl | rfl <;> rfl

theorem isMark (text : String) : token.isMark text = false := by rcases h with rfl | rfl <;> rfl

theorem kind : token.kind ≠ .identifier := by rcases h with rfl | rfl <;> nofun

end Token.IsLineEnd

/-- The token behind a statement: the end of its line, or an `ELSE` behind one that an `ELSE` can
follow. -/
def Follows (closed : Bool) (next : Token) : Prop :=
  next.IsLineEnd ∨ closed = true ∧ next = .word "ELSE"

theorem Follows.stops (h : Follows closed next) : Stops 0 next := by
  rcases h with h | ⟨-, rfl⟩
  · exact h.stops
  · exact stops_of_continues rfl

theorem Follows.endsStatement (h : Follows closed next) : next.endsStatement = true := by
  rcases h with h | ⟨-, rfl⟩
  · exact h.endsStatement
  · rfl

/-- A statement at a depth.  One that stands directly in the program is in no block and no
single-line `IF`. -/
structure Stands (s : State) (depth : Nat) : Prop where
  indent : s.page.indent = depth
  top : s.floors = [] ∧ s.blocks = [] ↔ depth = topDepth
  pos : topDepth ≤ depth

theorem Stands.congr (h : Stands s depth) (hindent : s'.page.indent = s.page.indent)
    (hfloors : s'.floors = s.floors) (hblocks : s'.blocks = s.blocks) : Stands s' depth :=
  ⟨hindent.trans h.indent, by rw [hfloors, hblocks]; exact h.top, h.pos⟩

theorem Reached.stands (h : Stands s depth) (h' : Reached s s' count rows made l) :
    Stands s' depth :=
  h.congr (h'.went.indent_eq rfl) h'.went.floors h'.blocks

/-! ### Keywords and names -/

section Heads

variable {inner : Emit Bool} {text : String}

/-- A statement that begins with the keyword of a verb. -/
theorem statementOver_word {verb : Verb} (inner : Emit Bool)
    (hahead : Ahead tokens s.position (.word text :: rest))
    (hverb : Verb.ofWord? text = some verb) :
    ∃ t, ∀ s', Gives tokens (s.moved 1) (verb.run inner t) () s' →
      Gives tokens s (statementOver inner) verb.needsEnd s' := by
  obtain ⟨t, ht, hcurrent, hadvance⟩ := advance_gives hahead nofun
  have hk : t.kind = .keyword := congrArg Token.kind ht
  have htext : t.text = text := congrArg Token.text ht
  refine ⟨t, fun s' hrun => hcurrent.bind ?_⟩
  rw [hk, htext, hverb]
  exact hadvance.bind (hrun.bind .pure)

theorem peek_gives {second : Token} (hahead : Ahead tokens s.position (first :: second :: rest)) :
    ∃ t, t.bare = second ∧ Gives tokens s (peek 1) t s := by
  obtain ⟨t, ht, hat⟩ := hahead.tail.exists_token
  have hlt : ¬ (tokens.size : Int) ≤ s.position + 1 := by
    obtain ⟨n, hn, hfront⟩ := hahead
    have := hfront.length_le
    simp only [length_cons, length_map, length_drop, Array.length_toList] at this
    omega
  refine ⟨t, ht, .read_bind (.get_bind ?_)⟩
  extract_lets next place
  have hplace : place = s.position + 1 := if_neg hlt
  rw [hplace, hat]
  exact .pure

theorem atLineStart_gives (hahead : Ahead tokens s.position (first :: rest)) :
    ∃ b, Gives tokens s atLineStart b s := by
  obtain ⟨n, hn, hfront⟩ := hahead
  have hlt : n < tokens.size := by
    have := hfront.length_le
    simp only [length_cons, length_map, length_drop, Array.length_toList] at this
    omega
  suffices hprevious : ∃ front, Gives tokens s previous front s by
    obtain ⟨front, hfront⟩ := hprevious
    cases front with
    | none => exact ⟨true, hfront.bind .pure⟩
    | some t => exact ⟨_, hfront.bind .pure⟩
  by_cases hzero : s.position = 0
  · refine ⟨none, .get_bind ?_⟩
    rw [if_pos hzero]
    exact .pure
  · obtain ⟨m, rfl⟩ : ∃ m, n = m + 1 := Nat.exists_eq_succ_of_ne_zero (by omega)
    have hat : Sequence.at? tokens (s.position - 1) = some tokens[m] := by
      have hpos : s.position - 1 = (m : Int) := by omega
      have hm : m < tokens.size := by omega
      simp [hpos, Sequence.at?, Sequence.resolve_natCast, hm]
    refine ⟨some tokens[m], .get_bind ?_⟩
    rw [if_neg hzero]
    refine .read_bind ?_
    rw [hat]
    exact .pure

/-- A statement that begins with a name and an equals sign is an assignment. -/
theorem statementOver_assignment (h : Tracks s l)
    (hahead : Ahead tokens s.position (.named text :: .sign "=" :: rest))
    (hrun : Gives tokens s assignment () s') : Gives tokens s (statementOver inner) true s' := by
  obtain ⟨t, ht, hcurrent⟩ := current_gives hahead
  obtain ⟨following, hfollowing, hpeek⟩ := peek_gives hahead
  have hk : t.kind = .identifier := congrArg Token.kind ht
  have hcolon : following.isMark ":" = false := congrArg (Token.isMark · ":") hfollowing
  have hequals : following.isOperator "=" = true := congrArg (Token.isOperator · "=") hfollowing
  refine hcurrent.bind ?_
  rw [hk]
  obtain ⟨b, hstart⟩ := atLineStart_gives hahead
  refine hpeek.bind (hstart.bind ?_)
  rw [hcolon, Bool.false_and, if_neg Bool.false_ne_true]
  refine .get_bind ?_
  rw [h.procedures]
  change Gives tokens s (plainNameStatement t following) true s'
  rw [plainNameStatement, hequals]
  exact hrun.bind .pure

end Heads

/-! ### Assignments -/

theorem expectName_gives (what : String) (hahead : Ahead tokens s.position (.named name :: rest)) :
    ∃ t, t.text = name ∧ Gives tokens s (expectName what) t (s.moved 1) := by
  obtain ⟨t, ht, hcurrent, hadvance⟩ := advance_gives hahead nofun
  have hk : t.kind = .identifier := congrArg Token.kind ht
  refine ⟨t, congrArg Token.text ht, hcurrent.bind ?_⟩
  rw [hk]
  exact hadvance

/-- The place of a name in front of an equals sign. -/
theorem place_gives (h : Tracks s l)
    (hahead : Ahead tokens s.position (.named name :: .sign "=" :: rest)) :
    ∃ p, Gives tokens s place p (s.moved 1) ∧ p.code = l.nameOf name ∧
      (p.fresh = none ∧ l.declares name = true ∨
        p.fresh = some name ∧ l.declares name = false ∧ p.isText = isTextName name) := by
  obtain ⟨t, rfl, hname⟩ := expectName_gives "variable" hahead
  have hequals : Ahead tokens (s.moved 1).position (.sign "=" :: rest) := hahead.tail
  have hpoint : Gives tokens (s.moved 1) (atMark ".") false (s.moved 1) := atMark_gives hequals
  have hindex : Gives tokens (s.moved 1) (atMark "(") false (s.moved 1) := atMark_gives hequals
  have hlookup :
      Gives tokens (s.moved 1) (Emit.lookup t.text) (s.scopes.find? t.text) (s.moved 1) := rfl
  have hplace :
      Gives tokens (s.moved 1) (placeName t) (t.text, s.scopes.find? t.text) (s.moved 1) := by
    refine hlookup.bind (hpoint.bind ?_)
    rw [Bool.false_and, if_neg Bool.false_ne_true]
    exact .pure
  cases hfind : s.scopes.find? t.text with
  | some v =>
    rw [hfind] at hplace
    have hmembers : Gives tokens (s.moved 1) (members (typeOf v)) ⟨"", typeOf v⟩ (s.moved 1) :=
      membersOf_gives hequals rfl
    refine ⟨⟨v.name ++ "", v.isText, none⟩,
      hname.bind (hplace.bind (hindex.bind (hmembers.bind .pure))), ?_, .inl ⟨rfl, ?_⟩⟩
    · rw [← h.scriptName, Scopes.scriptName_of_some hfind, String.append_empty]
    · rw [h.declares_eq, hfind]
      rfl
  | none =>
    rw [hfind] at hplace
    refine ⟨⟨identifier t.text, isTextName t.text, some t.text⟩, hname.bind (hplace.bind ?_), ?_,
      .inr ⟨rfl, ?_, rfl⟩⟩
    · refine .get_bind ?_
      rw [show (s.moved 1).procedures = [] from h.procedures]
      exact hindex.bind .pure
    · rw [← h.scriptName, Scopes.scriptName_of_none hfind]
    · rw [h.declares_eq, hfind]
      rfl

theorem atScopeBase_gives (h : Tracks s l) (hstands : Stands s depth) :
    Gives tokens s atScopeBase (depth = topDepth) s := by
  have hcurrent : s.scopes.current.base = 0 := by
    rw [Scopes.current, h.inner]
    exact h.base
  have htest : (s.floors.isEmpty && decide (s.blocks.length = s.scopes.current.base)) =
      decide (depth = topDepth) := by
    rw [hcurrent, Bool.eq_iff_iff]
    simp [hstands.top.symm]
  exact congrArg (EStateM.Result.ok · s) htest

/-- A new name is assigned to: it is declared here, or at the top and assigned here. -/
theorem emitDeclaration_reached (tokens : Array Token) (h : Tracks s l) (hstands : Stands s depth)
    (hnone : s.scopes.find? name = none) (value : String) :
    ∃ ref s', Gives tokens s (emitDeclaration name (.implicit name) value) ref s' ∧
      Reached s s' 0 [⟨depth, identifier name ++ " = " ++ value ++ ";", depth = topDepth⟩] 0
        (l.assign (depth ≠ topDepth) name) := by
  have hbase : Gives tokens s atScopeBase (depth = topDepth) s := atScopeBase_gives h hstands
  by_cases hdepth : depth = topDepth
  · simp only [hdepth, decide_true] at hbase
    let d : Declaration :=
      ⟨Text.upper name, .plain, "let " ++ identifier name ++ " = " ++ value ++ ";", false⟩
    have htracks : Tracks { s with scopes := (s.scopes.declare name (.implicit name)).2.note d }
        (l.assign false name) := (h.declare hnone).note d
    obtain ⟨s', hline, hreached⟩ := line_reached tokens d.text htracks hstands.indent (by simp [d])
    have hintroduce : Gives tokens s (introduce name (.implicit name) .plain d.text false)
        (s.scopes.declare name (.implicit name)).1 s' := Gives.map (fun _ => _) hline
    refine ⟨(s.scopes.declare name (.implicit name)).1, s', hbase.bind ?_,
      hreached.went.ofScopes.ofLines ?_, hreached.blocks, ?_⟩
    · rw [if_pos rfl, Variable.name_implicit]
      exact hintroduce
    · simp [d, Row.line, hdepth, String.append_assoc]
    · simpa [hdepth] using hreached.tracks
  · simp only [hdepth, decide_false] at hbase
    obtain ⟨s', hline, hreached⟩ := line_reached tokens
      ((Variable.implicit name).name ++ " = " ++ value ++ ";") (h.declareTop hnone)
        hstands.indent (by simp)
    have hintroduce : Gives tokens s
        (introduce name (.implicit name) .plain (Variable.implicit name).declaration true)
        (s.scopes.declare name (.implicit name)).1 { s with scopes := s.scopes.declareTop name } :=
          rfl
    refine ⟨(s.scopes.declare name (.implicit name)).1, s', hbase.bind ?_,
      hreached.went.ofScopes.ofLines ?_, hreached.blocks, ?_⟩
    · rw [if_neg Bool.false_ne_true]
      exact hintroduce.bind (hline.bind .pure)
    · simp [Row.line, hdepth, Variable.name_implicit]
    · simpa [hdepth] using hreached.tracks

/-- A value is assigned to a place, whose name is declared if it still is not. -/
theorem store_reached (tokens : Array Token) (h : Tracks s l) (hstands : Stands s depth) {p : Place}
    (hplace : p.fresh = none ∧ l.declares name = true ∨
      p.fresh = some name ∧ p.code = identifier name ∧ p.isText = isTextName name)
    (value : String) :
    ∃ s', Gives tokens s (store p value) () s' ∧
      Reached s s' 0
        [⟨depth, p.code ++ " = " ++ value ++ ";", depth = topDepth && !l.declares name⟩] 0
          (l.assign (depth ≠ topDepth) name) := by
  by_cases hdeclared : l.declares name = true
  · have hfresh : Gives tokens s (freshName p) none s := by
      rcases hplace with ⟨hfresh, -⟩ | ⟨hfresh, -⟩
      · rw [freshName, hfresh]
        exact .pure
      · rw [freshName, hfresh]
        rw [h.declares_eq] at hdeclared
        exact Gives.bind (a := s.scopes.find? name) rfl (by
          rw [if_neg (by simpa [Option.isSome_iff_ne_none] using hdeclared)]
          exact .pure)
    obtain ⟨s', hline, hreached⟩ :=
      line_reached tokens (p.code ++ " = " ++ value ++ ";") h hstands.indent (by simp)
    refine ⟨s', hfresh.bind hline, ?_⟩
    rw [Ledger.assign, if_pos hdeclared, hdeclared]
    simpa using hreached
  · have hnone : s.scopes.find? name = none := by simpa [h.declares_eq] using hdeclared
    obtain ⟨hfresh, hcode, htext⟩ := hplace.resolve_left fun hdeclared' => hdeclared hdeclared'.2
    have hname : Gives tokens s (freshName p) (some name) s := by
      rw [freshName, hfresh]
      exact Gives.bind (a := s.scopes.find? name) rfl (by rw [hnone]; exact .pure)
    obtain ⟨ref, s', hemit, hreached⟩ := emitDeclaration_reached tokens h hstands hnone value
    have hvariable : ({ name := p.code, isText := p.isText } : Variable) = .implicit name := by
      rw [hcode, htext]
      rfl
    refine ⟨s', hname.bind ?_, ?_⟩
    · rw [← hvariable] at hemit
      exact hemit.bind .pure
    · rw [hcode]
      simpa [hdeclared] using hreached

/-- Where a statement on one line leads. -/
def Inline.Leads {closed : Bool} (x : Inline closed) (depth : Nat) (l : Ledger)
    (s s' : State) : Prop :=
  Reached s s' x.spelling.length (x.rows Ledger.nameOf depth l) 0 (x.ledger depth l)

section Run

variable (hplain : ∀ t ∈ tokens, t.Plain)

include hplain

/-! ### `PRINT` -/

theorem printItems_reached (h : Tracks s l)
    (hnext : Follows closed next) (hahead : Ahead tokens s.position (e.written ++ next :: rest)) :
    ∃ s', Gives tokens s printItems ([e.rendered (l.useAll e.names).nameOf], true) s' ∧
      Reached s s' e.written.length [] 0 (l.useAll e.names) := by
  obtain ⟨s', hvalue, hreached⟩ := expression_reached hplain h hahead hnext.stops fun _ _ => rfl
  obtain ⟨first, tail, hfirst, hopens⟩ := e.exists_written
  have hbehind := hreached.went.behind hahead
  have hsize := hahead.length_le
  rw [hfirst, cons_append] at hahead
  have hbegun : Gives tokens s atStatementEnd false s :=
    hopens.endsStatement ▸ test_gives hahead Token.endsStatement fun _ => rfl
  have hended : Gives tokens s' atStatementEnd true s' :=
    hnext.endsStatement ▸ test_gives hbehind Token.endsStatement fun _ => rfl
  let items := [e.rendered (l.useAll e.names).nameOf]
  refine ⟨s',
    Loops.gives (.again (show Gives tokens s _ (Turn.again (items, true)) s' from ?_) (.done ?_))
    ?_, hreached⟩
  · refine hbegun.bind ((if_neg Bool.false_ne_true).symm ▸ ?_)
    refine (takeMark_not hahead (hopens.isMark (by decide))).bind
      ((if_neg Bool.false_ne_true).symm ▸ ?_)
    refine (takeMark_not hahead (hopens.isMark (by decide))).bind
      ((if_neg Bool.false_ne_true).symm ▸ ?_)
    exact hvalue.bind .pure
  · exact hended.bind .pure
  · rw [hfirst, length_append, length_cons, length_cons] at hsize
    omega

theorem printStatement_reached (h : Tracks s l) (hstands : Stands s depth)
    (hnext : Follows closed next) (hahead : Ahead tokens s.position (e.written ++ next :: rest))
    (t : Token) : ∃ s', Gives tokens s (printStatement t) () s' ∧
      Reached s s' e.written.length
        [⟨depth, "_print(" ++ e.rendered (l.useAll e.names).nameOf ++ ", true);", false⟩] 0
        (l.useAll e.names) := by
  obtain ⟨s', hitems, hreached⟩ := printItems_reached hplain h hnext hahead
  obtain ⟨first, tail, hfirst, hopens⟩ := e.exists_written
  rw [hfirst, cons_append] at hahead
  have hfile : Gives tokens s fileNumber? none s :=
    (takeMark_not hahead (hopens.isMark (by decide))).bind .pure
  have husing : Gives tokens s (takeKeyword "USING") false s :=
    takeKeyword_not hahead (hopens.isKeyword (by decide))
  have hindent : s'.page.indent = depth := (hreached.stands hstands).indent
  have htext : "_print(" ++ joined [e.rendered (l.useAll e.names).nameOf] ++
      ", " ++ "true" ++ ");" =
      "_print(" ++ e.rendered (l.useAll e.names).nameOf ++ ", true);" := by
    simp only [joined, String.append_assoc]
    rfl
  obtain ⟨s'', hline, hreached'⟩ := line_reached tokens
    ("_print(" ++ e.rendered (l.useAll e.names).nameOf ++ ", true);")
      hreached.tracks hindent (by simp)
  refine ⟨s'', hfile.bind (husing.bind (hitems.bind ?_)), by simpa using hreached.trans hreached'⟩
  change Gives tokens s'
    (line ("_print(" ++ joined [e.rendered (l.useAll e.names).nameOf] ++ ", " ++ "true" ++
    ");")) () s''
  rwa [htext]

theorem assignment_reached (h : Tracks s l) (hstands : Stands s depth) (hnext : Follows closed next)
    (hahead : Ahead tokens s.position (.named name :: .sign "=" :: (e.written ++ next :: rest))) :
    ∃ s', Gives tokens s assignment () s' ∧
      Inline.Leads (.assign name e : Inline closed) depth l s s' := by
  obtain ⟨p, hplace, hcode, hfresh⟩ := place_gives h hahead
  obtain ⟨t, hequals⟩ := expectOperator_gives (s := s.moved 1) hahead.tail
  rw [State.moved_moved] at hequals
  have hvalueAhead : Ahead tokens (s.moved 2).position (e.written ++ next :: rest) :=
    Ahead.right
      (show Ahead tokens s.position ([.named name, .sign "="] ++ (e.written ++ next :: rest))
        from hahead)
  have hmet : Tracks (s.moved 2) (l.meet name) := (h.meet name).moved 2
  obtain ⟨s₁, hvalue, hread⟩ :=
    expression_reached hplain hmet hvalueAhead hnext.stops fun _ _ => rfl
  have hread' := (Reached.moved h 2).trans hread
  have hfresh' : p.fresh = none ∧ ((l.meet name).useAll e.names).declares name = true ∨
      p.fresh = some name ∧ p.code = identifier name ∧ p.isText = isTextName name := by
    rcases hfresh with ⟨hnone, hdeclared⟩ | ⟨hsome, hundeclared, htext⟩
    · refine .inl ⟨hnone, Ledger.declares_useAll_of_declares ?_⟩
      rwa [Ledger.declares, Ledger.declared_meet]
    · exact .inr ⟨hsome, hcode.trans (Ledger.nameOf_of_not_declares hundeclared), htext⟩
  obtain ⟨s', hstore, hstored⟩ := store_reached tokens hread.tracks (hread'.stands hstands) hfresh'
    (e.rendered ((l.meet name).useAll e.names).nameOf)
  refine ⟨s', hplace.bind (hequals.bind (hvalue.bind hstore)), ?_⟩
  have hall := hread'.trans hstored
  rw [hcode] at hall
  refine hall.of_eq ?_ rfl rfl rfl
  simp only [Inline.spelling, length_cons]
  omega

end Run

/-! ### Single-line `IF` -/

/-- A token that begins a statement on one line. -/
inductive Token.Begins : Token → Prop where
  | print : Begins (.word "PRINT")
  | condition : Begins (.word "IF")
  | name (text : String) : Begins (.named text)

theorem Inline.exists_spelling (x : Inline closed) :
    ∃ first rest, x.spelling = first :: rest ∧ first.Begins := by
  cases x with
  | print e => exact ⟨_, _, rfl, .print⟩
  | assign name e => exact ⟨_, _, rfl, .name name⟩
  | ifThen c body => exact ⟨_, _, rfl, .condition⟩
  | ifElse c body other => exact ⟨_, _, rfl, .condition⟩

namespace Token.Begins

variable {token : Token}

theorem endsLine (h : token.Begins) : token.endsLine = false := by cases h <;> rfl

theorem isElse (h : token.Begins) : token.isKeyword "ELSE" = false := by cases h <;> rfl

theorem isColon (h : token.Begins) : token.isMark ":" = false := by cases h <;> rfl

theorem kind (h : token.Begins) :
    token.kind ≠ .number ∧ token.kind ≠ .newline ∧ token.kind ≠ .endOfInput := by
  cases h <;> exact ⟨nofun, nofun, nofun⟩

end Token.Begins

section Branches

variable {inner : Emit Bool}

theorem endStatement_gives (hnext : Follows closed next)
    (hahead : Ahead tokens s.position (next :: rest)) (hfloors : closed = true → s.floors ≠ []) :
    Gives tokens s endStatement () s := by
  obtain ⟨t, ht, hcurrent⟩ := current_gives hahead
  have hends : (t.endsLine || t.isMark ":" || (!s.floors.isEmpty && t.isKeyword "ELSE")) =
      true := by
    rcases hnext with hnext | ⟨hclosed, rfl⟩
    · rw [show t.endsLine = true from (congrArg Token.endsLine ht).trans hnext.endsLine]
      rfl
    · rw [show t.isKeyword "ELSE" = true from congrArg (Token.isKeyword · "ELSE") ht]
      simp [hfloors hclosed]
  refine hcurrent.bind (.get_bind ?_)
  extract_lets inLine
  rw [if_pos hends]
  exact .pure

/-- A branch is its one statement. -/
theorem inlineBranch_gives {back : List Token} (hfirst : first.Begins)
    (hahead : Ahead tokens s.position (first :: rest)) (hinner : Gives tokens s inner true s')
    (hnext : Follows closed next) (hbehind : Ahead tokens s'.position (next :: back))
    (hfloors : s'.floors ≠ []) : Gives tokens s (inlineBranch inner) () s' := by
  have hnumber : Gives tokens s (atKind .number) false s := by
    have htest := test_gives hahead (fun t => decide (t.kind = .number)) fun _ => rfl
    rwa [decide_eq_false hfirst.kind.1] at htest
  have hlineEnd : Gives tokens s atLineEnd false s :=
    hfirst.endsLine ▸ test_gives hahead Token.endsLine fun _ => rfl
  have helse : Gives tokens s (atKeyword "ELSE") false s :=
    hfirst.isElse ▸ test_gives hahead (Token.isKeyword · "ELSE") fun _ => rfl
  have hcolon : Gives tokens s (takeMark ":") false s := takeMark_not hahead hfirst.isColon
  have hends := endStatement_gives hnext hbehind fun _ => hfloors
  have hlineEnd' : Gives tokens s' atLineEnd next.endsLine s' :=
    test_gives hbehind Token.endsLine fun _ => rfl
  have helse' : Gives tokens s' (atKeyword "ELSE") (next.isKeyword "ELSE") s' :=
    test_gives hbehind (Token.isKeyword · "ELSE") fun _ => rfl
  have hsize := hahead.length_le
  refine hnumber.bind
    (Loops.gives (.again (show Gives tokens s _ (Turn.again ()) s' from ?_) (.done ?_)) ?_)
  · exact hlineEnd.bind (helse.bind (hcolon.bind (hinner.bind (hends.bind .pure))))
  · rcases hnext with hnext | ⟨-, rfl⟩
    · rw [hnext.endsLine] at hlineEnd'
      exact hlineEnd'.bind .pure
    · exact hlineEnd'.bind (helse'.bind .pure)
  · rw [length_cons] at hsize
    omega

theorem abandonAbove_gives {floor : Nat} (h : s.blocks.length = floor) :
    Gives tokens s (abandonAbove floor) () s := by
  refine .get_bind ?_
  rw [h, Nat.sub_self]
  exact .pure

end Branches

theorem Stands.inside (h : Stands s depth) (hindent : s'.page.indent = (depth : Int) + 1)
    (hinside : ¬ (s'.floors = [] ∧ s'.blocks = [])) : Stands s' (depth + 1) := by
  have hpos : 1 ≤ depth := h.pos
  refine ⟨by omega, ⟨fun htop => absurd htop hinside, fun htop => ?_⟩, ?_⟩
  · simp only [topDepth] at htop
    omega
  · simp only [topDepth]
    omega

/-- The state inside a single-line `IF`. -/
def State.floored (s : State) : State := { s with floors := s.blocks.length :: s.floors }

/-- A single-line `IF` ends with the brace around its branches. -/
theorem inlineBranches_gives {inner : Emit Bool} (hindent : s.page.indent = (depth : Int) + 1)
    (hbranches : Gives tokens s.floored (do
      inlineBranch inner
      if ← takeKeyword "ELSE" then
        abandonAbove s.blocks.length
        turnLine "\x7d else \x7b"
        inlineBranch inner) () s₁)
    (h : Reached s.floored s₁ count rows made l) :
    ∃ s', Gives tokens s (inlineBranches inner) () s' ∧
      Went s s' count (rows ++ [⟨depth, "\x7d", false⟩]) (-1) made ∧ s'.blocks = s.blocks ∧
      Tracks s' l := by
  have hfloors : s₁.floors.drop 1 = s.floors := by rw [h.went.floors]; rfl
  have hwent : Went s { s₁ with floors := s.floors } count rows 0 made := h.went.inside _
  have hclose : Went { s₁ with floors := s.floors } _ 0 [⟨depth, "\x7d", false⟩] (-1) 0 :=
    went_closeLine rfl (hwent.indent_eq hindent)
  have hsame : Gives tokens s₁ (abandonAbove s.blocks.length) () s₁ :=
    abandonAbove_gives (congrArg List.length h.blocks)
  refine ⟨_, .get_bind (.modify_bind (hbranches.ensuring (hsame.bind rfl))), ?_, h.blocks,
    h.tracks.congr rfl rfl rfl⟩
  have hall := hwent.trans hclose
  simp only [Nat.add_zero, Int.zero_add] at hall
  exact ⟨hall.position, hall.lines, hall.indent, hfloors, hall.collector, hall.temporaries⟩

section Conditions

variable {inner : Emit Bool} {c : Expr}

/-- The condition of an `IF`.  What follows `THEN` decides whether the `IF` is a block. -/
theorem ifStatement_gives (hplain : ∀ t ∈ tokens, t.Plain) (h : Tracks s l)
    (hindent : s.page.indent = depth)
    (hahead : Ahead tokens s.position (c.written ++ .word "THEN" :: first :: rest))
    (inner : Emit Bool) (t : Token) : ∃ s₁, Went s s₁ (c.written.length + 1)
        [⟨depth, "if (" ++ c.rendered (l.useAll c.names).nameOf ++ ") \x7b", false⟩] 1 0 ∧
      s₁.blocks = s.blocks ∧ Tracks s₁ (l.useAll c.names) ∧
      ∀ s', Gives tokens s₁
          (if first.endsLine then openBlock (.condition false) t else inlineBranches inner) () s' →
        Gives tokens s (ifStatement inner t) () s' := by
  obtain ⟨s₁, hvalue, hread⟩ :=
    expression_reached hplain h hahead (stops_of_continues rfl) fun _ _ => rfl
  have hthen := hread.went.behind hahead
  have htake := takeKeyword_gives hthen
  have hblock : Gives tokens (s₁.moved 1) atLineEnd first.endsLine (s₁.moved 1) :=
    test_gives hthen.tail Token.endsLine fun _ => rfl
  have hopen :
      Went (s₁.moved 1) _ 0
        [⟨depth, "if (" ++ c.rendered (l.useAll c.names).nameOf ++ ") \x7b", false⟩] 1 0 :=
    went_openLine (by simp) (hread.went.indent_eq hindent)
  refine ⟨_, (hread.went.trans (.moved s₁ 1)).trans hopen, hread.blocks,
    hread.tracks.congr rfl rfl rfl, ?_⟩
  intro s' hrest
  have hcondition : Gives tokens s ifCondition _ (s₁.moved 1) := hvalue.bind (htake.bind .pure)
  exact hcondition.bind (hblock.bind (Gives.bind rfl hrest))

/-- An action reads a statement on one line wherever it stands. -/
def Inline.ReadBy {closed : Bool} (tokens : Array Token) (x : Inline closed)
    (inner : Emit Bool) : Prop :=
  ∀ (s : State) (l : Ledger) (depth : Nat) (next : Token) (rest : List Token),
    Tracks s l → Stands s depth → Follows closed next →
      Ahead tokens s.position (x.spelling ++ next :: rest) →
    ∃ s', Gives tokens s inner true s' ∧ x.Leads depth l s s'

theorem inlineBranch_reached {x : Inline closed} (hx : x.ReadBy tokens inner) (h : Tracks s l)
    (hstands : Stands s depth) (hfloors : s.floors ≠ [])
    (hnext : Follows closed next) (hahead : Ahead tokens s.position (x.spelling ++ next :: rest)) :
    ∃ s', Gives tokens s (inlineBranch inner) () s' ∧ x.Leads depth l s s' := by
  obtain ⟨s', hinner, hleads⟩ := hx s l depth next rest h hstands hnext hahead
  have hbehind := hleads.went.behind hahead
  obtain ⟨first, back, hfirst, hbegins⟩ := x.exists_spelling
  rw [hfirst, cons_append] at hahead
  exact ⟨s', inlineBranch_gives hbegins hahead hinner hnext hbehind (hleads.went.floors ▸ hfloors),
    hleads⟩

/-- A single-line `IF`, given what its branches do. -/
theorem inlineIf_reached (hplain : ∀ t ∈ tokens, t.Plain) (h : Tracks s l)
    (hstands : Stands s depth) (hfirst : first.Begins)
    (hahead : Ahead tokens s.position (.word "IF" :: (c.written ++ .word "THEN" :: first :: rest)))
    {l' : Ledger}
    (hbranches : ∀ s₁, Tracks s₁ (l.useAll c.names) → Stands s₁ (depth + 1) → s₁.floors ≠ [] →
      Ahead tokens s₁.position (first :: rest) →
      ∃ s₂, Gives tokens s₁ (do
          inlineBranch inner
          if ← takeKeyword "ELSE" then
            abandonAbove s₁.blocks.length
            turnLine "\x7d else \x7b"
            inlineBranch inner) () s₂ ∧
        Reached s₁ s₂ count rows 0 l') :
    ∃ s', Gives tokens s (statementOver inner) true s' ∧
      Reached s s' (c.written.length + 2 + count)
        (braced depth ("if (" ++ c.rendered (l.useAll c.names).nameOf ++ ") \x7b") rows "\x7d")
          0 l' := by
  obtain ⟨t, hstatement⟩ := statementOver_word inner hahead rfl
  have hcondition :
      Ahead tokens (s.moved 1).position (c.written ++ .word "THEN" :: first :: rest) := hahead.tail
  obtain ⟨s₁, hwent₁, hblocks₁, htracks₁, hif⟩ :=
    ifStatement_gives hplain (h.moved 1) hstands.indent hcondition inner t
  have hindent₁ : s₁.page.indent = (depth : Int) + 1 := by rw [hwent₁.indent, ← hstands.indent]; rfl
  have hbehind : Ahead tokens s₁.floored.position (first :: rest) := by
    rw [append_cons] at hcondition
    have hright := hcondition.right
    rw [length_append, length_singleton] at hright
    exact hwent₁.position ▸ hright
  obtain ⟨s₂, hrun, hreached⟩ := hbranches s₁.floored (htracks₁.congr rfl rfl rfl)
    (hstands.inside hindent₁ (by simp [State.floored])) (by simp [State.floored]) hbehind
  obtain ⟨s', hbranches', hwent₂, hblocks₂, htracks₂⟩ := inlineBranches_gives hindent₁ hrun hreached
  refine ⟨s', hstatement s' (hif s' ?_), ?_, hblocks₂.trans hblocks₁, htracks₂⟩
  · rw [hfirst.endsLine, if_neg Bool.false_ne_true]
    exact hbranches'
  · have hall := ((Went.moved s 1).trans hwent₁).trans hwent₂
    simp only [nil_append, Nat.zero_add, Int.zero_add] at hall
    rwa [show 1 + (c.written.length + 1) + count = c.written.length + 2 + count by omega] at hall

theorem inlineElse_reached (h : Tracks s l) (hindent : s.page.indent = (depth : Int) + 1)
    (hahead : Ahead tokens s.position (.word "ELSE" :: rest)) :
    ∃ s₁, Reached s s₁ 1 [⟨depth, "\x7d else \x7b", false⟩] 0 l ∧
      ∀ s', Gives tokens s₁ (inlineBranch inner) () s' →
        Gives tokens s (do
          if ← takeKeyword "ELSE" then
            abandonAbove s.blocks.length
            turnLine "\x7d else \x7b"
            inlineBranch inner) () s' := by
  have htake := takeKeyword_gives hahead
  have hturn : Went (s.moved 1) _ 0 [⟨depth, "\x7d else \x7b", false⟩] 0 0 :=
    went_turnLine rfl hindent
  refine ⟨_, ⟨(Went.moved s 1).trans hturn, rfl, h.congr rfl rfl rfl⟩,
    fun s' hrest => htake.bind ?_⟩
  exact (abandonAbove_gives (s := s.moved 1) rfl).bind (Gives.bind rfl hrest)

variable {body : Inline false} {first : Inline true} {other : Inline closed}

theorem ifThen_read (hplain : ∀ t ∈ tokens, t.Plain) (hbody : body.ReadBy tokens inner) :
    (Inline.ifThen c body).ReadBy tokens (statementOver inner) := by
  intro s l depth next rest h hstands hnext hahead
  have hend : next.IsLineEnd := hnext.resolve_right (by simp)
  obtain ⟨first, back, hspelling, hbegins⟩ := body.exists_spelling
  have hthen : Ahead tokens s.position (.word "IF" :: (c.written ++ .word "THEN" :: first ::
      (back ++ next :: rest))) := by
    simpa [Inline.spelling, hspelling] using hahead
  obtain ⟨s', hif, hreached⟩ := inlineIf_reached hplain h hstands hbegins hthen
    (fun s₁ htracks hinside hfloors hahead₁ => by
      replace hahead₁ : Ahead tokens s₁.position (body.spelling ++ next :: rest) := by
        rw [hspelling]
        exact hahead₁
      obtain ⟨s₂, hbranch, hleads⟩ :=
      inlineBranch_reached hbody htracks hinside hfloors hnext hahead₁
      have hbehind := hleads.went.behind hahead₁
      exact ⟨s₂, hbranch.bind ((takeKeyword_not hbehind (hend.isKeyword _)).bind .pure), hleads⟩)
  refine ⟨s', hif, hreached.of_eq ?_ rfl rfl rfl⟩
  simp only [Inline.spelling, length_cons, length_append]
  omega

theorem ifElse_read (hplain : ∀ t ∈ tokens, t.Plain) (hfirst : first.ReadBy tokens inner)
    (hother : other.ReadBy tokens inner) :
    (Inline.ifElse c first other).ReadBy tokens (statementOver inner) := by
  intro s l depth next rest h hstands hnext hahead
  obtain ⟨head, back, hspelling, hbegins⟩ := first.exists_spelling
  have hthen : Ahead tokens s.position (.word "IF" :: (c.written ++ .word "THEN" :: head ::
      (back ++ .word "ELSE" :: (other.spelling ++ next :: rest)))) := by
    simpa [Inline.spelling, hspelling] using hahead
  obtain ⟨s', hif, hreached⟩ := inlineIf_reached hplain h hstands hbegins hthen
    (fun s₁ htracks hinside hfloors hahead₁ => by
      replace hahead₁ : Ahead tokens s₁.position
          (first.spelling ++ .word "ELSE" :: (other.spelling ++ next :: rest)) := by
        rw [hspelling]
        exact hahead₁
      obtain ⟨s₂, hbranch, hleads⟩ :=
      inlineBranch_reached hfirst htracks hinside hfloors (.inr ⟨rfl, rfl⟩) hahead₁
      have helse := hleads.went.behind hahead₁
      have hinside₂ := hleads.stands hinside
      obtain ⟨s₃, hturned, hrest⟩ := inlineElse_reached hleads.tracks hinside₂.indent helse
      have hturned' := hleads.trans hturned
      obtain ⟨s₄, hbranch', hleads'⟩ :=
      inlineBranch_reached hother hturned.tracks (hturned'.stands hinside)
        (hturned'.went.floors ▸ hfloors) hnext (hturned.went.position ▸ helse.tail)
      rw [hleads.blocks] at hrest
      exact ⟨s₄, hbranch.bind (hrest s₄ hbranch'), hturned'.trans hleads'⟩)
  refine ⟨s', hif, hreached.of_eq ?_ ?_ rfl rfl⟩
  · simp only [Inline.spelling, length_cons, length_append]
    omega
  · simp only [Inline.rows, append_assoc, singleton_append]

end Conditions

/-- Every statement on one line is read. -/
theorem Inline.read (hplain : ∀ t ∈ tokens, t.Plain) (x : Inline closed) {d : Nat}
    (hd : x.spelling.length ≤ d) : x.ReadBy tokens (statementTo d) := by
  induction x generalizing d with
  | print e =>
    obtain ⟨d, rfl⟩ := Nat.exists_eq_add_of_le' (Nat.le_of_add_left_le hd)
    intro s l depth next rest h hstands hnext hahead
    obtain ⟨t, hstatement⟩ := statementOver_word (statementTo d) hahead rfl
    obtain ⟨s', hprint, hreached⟩ := printStatement_reached hplain (h.moved 1)
      (hstands.congr rfl rfl rfl) hnext hahead.tail t
    have hall := (Reached.moved h 1).trans hreached
    exact ⟨s', hstatement s' hprint, hall.of_eq (Nat.add_comm ..) rfl rfl rfl⟩
  | assign name e =>
    obtain ⟨d, rfl⟩ := Nat.exists_eq_add_of_le' (Nat.le_of_add_left_le hd)
    intro s l depth next rest h hstands hnext hahead
    obtain ⟨s', hassign, hleads⟩ := assignment_reached hplain h hstands hnext hahead
    exact ⟨s', statementOver_assignment h hahead hassign, hleads⟩
  | ifThen c body ih =>
    simp only [Inline.spelling, length_cons, length_append] at hd
    obtain ⟨d, rfl⟩ := Nat.exists_eq_add_of_le' (Nat.le_of_add_left_le hd)
    exact ifThen_read hplain (ih (by omega))
  | ifElse c first other ihf iho =>
    simp only [Inline.spelling, length_cons, length_append] at hd
    obtain ⟨d, rfl⟩ := Nat.exists_eq_add_of_le' (Nat.le_of_add_left_le hd)
    exact ifElse_read hplain (ihf (by omega)) (iho (by omega))

end BasicScript
