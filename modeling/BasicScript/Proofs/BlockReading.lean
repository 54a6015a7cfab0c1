import BasicScript.Proofs.LineReading
import BasicScript.Proofs.Output

/-!
# Reading the lines of blocks

The loop over statements goes from line to line (`Runs`).  For each line of a block it is said where
it leads (`Passes`): one that opens a block puts it on the stack, one that closes it finds it on
top, and one between two branches changes what is known of it.
-/

namespace BasicScript

open Emit Text List

variable {tokens : Array Token} {s s₁ s₂ s' : State} {l l' : Ledger}
    {first : CaseTest} {js : String → String}
  {more : List CaseTest} {e next : Token} {rest : List Token} {count made depth : Nat}
    {kind : BlockKind}
  {c stop : Expr} {ends : LoopEnds} {name : String} {step : Option Expr}
    {form : BlockForm} {hasElse : Bool}

/-! ### The loop over statements -/

/-- The loop over statements comes from one state to another.  Each turn moves the cursor. -/
inductive Runs (tokens : Array Token) : State → State → Prop where
  | refl (s : State) : Runs tokens s s
  | turn {s s₁ s' : State} (h : Gives tokens s (statementTurn ()) (.again ()) s₁)
      (hlt : s.position < s₁.position) (rest : Runs tokens s₁ s') : Runs tokens s s'

namespace Runs

theorem trans (h : Runs tokens s s₁) (h' : Runs tokens s₁ s') : Runs tokens s s' := by
  induction h with
  | refl => exact h'
  | turn hturn hlt _ ih => exact .turn hturn hlt (ih h')

theorem position_le (h : Runs tokens s s') : s.position ≤ s'.position := by
  induction h with
  | refl => exact Int.le_refl _
  | turn _ hlt _ ih => omega

/-- There are turns enough for the tokens between the two states. -/
theorem loops (h : Runs tokens s s₁) {turns : Nat}
    (h' : Loops tokens statementTurn turns () s₁ () s') :
    Loops tokens statementTurn (turns + (s₁.position - s.position).toNat) () s () s' := by
  induction h with
  | refl => exact h'.mono (Nat.le_add_right ..)
  | turn hturn hlt hrest ih =>
    have hle := hrest.position_le
    exact (Loops.again hturn (ih h')).mono (by omega)

/-- Behind the turns, one that fails. -/
theorem fails (h : Runs tokens s s₁) {failure : Failure}
    (hfails : statementTurn () tokens s₁ = .error failure s') (turns : Nat)
    (hturns : (s₁.position - s.position).toNat < turns) :
    Emit.iterate statementTurn turns () tokens s = .error failure s' := by
  induction h generalizing turns with
  | refl =>
    obtain ⟨turns, rfl⟩ : ∃ n, turns = n + 1 := ⟨turns - 1, by omega⟩
    exact bind_error hfails _
  | turn hturn hlt hrest ih =>
    have hle := hrest.position_le
    obtain ⟨turns, rfl⟩ : ∃ n, turns = n + 1 := ⟨turns - 1, by omega⟩
    exact (bind_ok hturn _).trans (ih hfails turns (by omega))

end Runs

theorem lineEnd_runs (he : e.IsLineEnd)
    (hahead : Ahead tokens s.position (e :: rest)) : Runs tokens s (s.moved e.skips) := by
  rcases he with rfl | rfl
  · obtain ⟨t, ht, hcurrent, hadvance⟩ := advance_gives hahead nofun
    have hk : t.kind = .newline := congrArg Token.kind ht
    refine .turn (hcurrent.bind ?_) (Int.lt_add_one_of_le (Int.le_refl _)) (.refl _)
    rw [hk]
    exact hadvance.bind .pure
  · exact State.moved_zero.symm ▸ .refl s

theorem statement_runs {first : Token} {back : List Token} {needsEnd : Bool}
    (hahead : Ahead tokens s.position (first :: rest))
    (hfirst : first.kind ≠ .endOfInput ∧ first.kind ≠ .newline ∧ first.isMark ":" = false)
    (hstatement : Gives tokens s (statementTo (tokens.size + 1)) needsEnd s₁)
    (hlt : s.position < s₁.position) (he : e.IsLineEnd)
    (hbehind : Ahead tokens s₁.position (e :: back)) : Runs tokens s (s₁.moved e.skips) := by
  obtain ⟨t, rfl, hcurrent⟩ := current_gives hahead
  have hends : Gives tokens s₁ endStatement () s₁ :=
    endStatement_gives (.inl he : Follows false e) hbehind nofun
  have hguarded : Gives tokens s guardedStatement () s₁ := by
    refine Gives.rescuing ((Gives.budget.bind hstatement).bind ?_)
    cases needsEnd with
    | true => exact hends
    | false => exact .pure
  refine .turn (hcurrent.bind ?_) hlt (lineEnd_runs he hbehind)
  obtain ⟨hinput, hline, hcolon⟩ := hfirst
  rw [Token.kind_bare] at hinput hline
  rw [if_neg hinput, if_neg]
  · exact hguarded.bind .pure
  · rw [show t.isMark ":" = false from hcolon]
    simpa using hline

/-! ### Lines of a program -/

/-- Where lines lead: like `Reached`, for lines that change the indentation and the blocks. -/
structure Leaves (s s' : State) (count : Nat) (rows : List Row) (shift : Int) (made : Nat)
    (blocks : List Block) (l : Ledger) : Prop where
  went : Went s s' count rows shift made
  blocks : s'.blocks = blocks
  tracks : Tracks s' l

theorem Reached.leaves {rows : List Row} (h : Reached s s' count rows made l) :
    Leaves s s' count rows 0 made s.blocks l :=
  ⟨h.went, h.blocks, h.tracks⟩

/-- The loop over statements comes through lines. -/
structure Passes (tokens : Array Token) (s s' : State) (count : Nat) (rows : List Row) (shift : Int)
    (made : Nat) (blocks : List Block) (l : Ledger) : Prop where
  runs : Runs tokens s s'
  leaves : Leaves s s' count rows shift made blocks l

section Trans

variable {a b m n : Nat} {x y : List Row} {i j : Int} {outer inner : List Block}

theorem Leaves.trans (h : Leaves s s₁ a x i m outer l) (h' : Leaves s₁ s₂ b y j n inner l') :
    Leaves s s₂ (a + b) (x ++ y) (i + j) (m + n) inner l' :=
  ⟨h.went.trans h'.went, h'.blocks, h'.tracks⟩

theorem Leaves.of_eq (h : Leaves s s' a x i m outer l) (hcount : a = b)
    (hrows : x = y) (hshift : i = j) (hmade : m = n) (hblocks : outer = inner) :
    Leaves s s' b y j n inner l := by
  subst hcount hrows hshift hmade hblocks
  exact h

theorem Passes.trans (h : Passes tokens s s₁ a x i m outer l)
    (h' : Passes tokens s₁ s₂ b y j n inner l') :
    Passes tokens s s₂ (a + b) (x ++ y) (i + j) (m + n) inner l' :=
  ⟨h.runs.trans h'.runs, h.leaves.trans h'.leaves⟩

theorem Passes.of_eq (h : Passes tokens s s' a x i m outer l) (hcount : a = b)
    (hrows : x = y) (hshift : i = j) (hmade : m = n) (hblocks : outer = inner) :
    Passes tokens s s' b y j n inner l :=
  ⟨h.runs, h.leaves.of_eq hcount hrows hshift hmade hblocks⟩

end Trans

/-- A line that begins with the keyword of a verb. -/
theorem word_passes {verb : Verb} {text : String} (middle : List Token) (he : e.IsLineEnd)
    (hahead : Ahead tokens s.position (.word text :: (middle ++ e :: rest)))
    (hverb : Verb.ofWord? text = some verb) :
    ∃ t,
      ∀ {s₁ : State} {rows : List Row} {shift : Int} {made : Nat} {blocks : List Block}
        {l : Ledger},
      Gives tokens (s.moved 1) (verb.run (statementTo tokens.size) t) () s₁ →
      Leaves (s.moved 1) s₁ middle.length rows shift made blocks l →
      Passes tokens s (s₁.moved e.skips)
        (middle.length + 1 + e.skips) rows shift made blocks l := by
  obtain ⟨t, hstatement⟩ := statementOver_word (statementTo tokens.size) hahead hverb
  refine ⟨t, fun {s₁} _ _ _ _ _ hrun hleaves =>
    ⟨?_, ?_, hleaves.blocks, hleaves.tracks.moved e.skips⟩⟩
  · have hbehind := hleaves.went.behind hahead.tail
    refine statement_runs hahead ⟨nofun, nofun, rfl⟩ (hstatement s₁ hrun) ?_ he hbehind
    have := hleaves.went.position
    simp only [State.position_moved] at this
    omega
  · have hall := ((Went.moved s 1).trans hleaves.went).trans (.moved s₁ e.skips)
    simp only [nil_append, append_nil, Int.zero_add, Int.add_zero,
      Nat.zero_add, Nat.add_zero] at hall
    rwa [Nat.add_comm 1] at hall

theorem isLineEnd_lineEnd : Token.lineEnd.IsLineEnd := .inl rfl

/-! ### Blocks -/

section Blocks

variable {i j : Int} {outer : List Block}

theorem blockFloor_gives (h : Tracks s l) (hfloors : s.floors = []) :
    Gives tokens s blockFloor 0 s := by
  have hbase : s.scopes.current.base = 0 := by
    rw [Scopes.current, h.inner]
    exact h.base
  refine .get_bind ?_
  rw [hbase, hfloors]
  exact .pure

theorem topForm_gives (h : Tracks s l) (hfloors : s.floors = [])
    (hblocks : s.blocks = ⟨form, i, j⟩ :: outer) : Gives tokens s topForm (some form) s := by
  have htop : Gives tokens s topBlock (some ⟨form, i, j⟩) s := by
    refine .get_bind ((blockFloor_gives h hfloors).bind ?_)
    rw [hblocks, if_pos (by simp)]
    exact .pure
  exact htop.bind .pure

/-- The block on top of the stack is the one that a closing statement finds. -/
theorem closeBlock_leaves (tokens : Array Token) (h : Tracks s l) (hfloors : s.floors = [])
    (hblocks : s.blocks = ⟨form, i, j⟩ :: outer) (hkind : form.kind = kind)
    (hordinary : ∀ k, kind ≠ .procedure k) (t : Token) :
    ∃ s', Gives tokens s (closeBlock kind t) (some ⟨form, i, j⟩) s' ∧
      Leaves s s' 0 [] 0 0 outer l := by
  have hindex : (s.blocks.take (s.blocks.length - 0)).findIdx? (·.kind = kind) = some 0 := by
    rw [hblocks, Nat.sub_zero, take_length, findIdx?_cons, if_pos]
    exact decide_eq_true hkind
  have hhead : s.blocks.head? = some ⟨form, i, j⟩ := by rw [hblocks]; rfl
  refine ⟨s.without ⟨form, i, j⟩ outer true, .get_bind ?_, ?_, rfl, h.congr rfl rfl rfl⟩
  · extract_lets found
    have hfound :
        Gives tokens s (found 0) (some ⟨form, i, j⟩) (s.without ⟨form, i, j⟩ outer true) := by
      simp only [found, hindex]
      have hinside : Gives tokens s (abandonBlocks 0) () s := rfl
      refine hinside.bind (.get_bind ?_)
      rw [hhead]
      have hdrop : Gives tokens s (dropBlock true) () (s.without ⟨form, i, j⟩ outer true) :=
        dropBlock_eq true tokens hblocks
      exact hdrop.bind .pure
    cases kind with
    | procedure k => exact absurd rfl (hordinary k)
    | _ => exact (blockFloor_gives h hfloors).bind hfound
  · constructor <;> simp [State.without]

end Blocks

section Leaves

variable (tokens : Array Token) (h : Tracks s l)

include h

theorem openLine_leaves (text : String) (htext : text.isEmpty = false)
    (hindent : s.page.indent = depth) :
    ∃ s', Gives tokens s (openLine text) () s' ∧
      Leaves s s' 0 [⟨depth, text, false⟩] 1 0 s.blocks l :=
  ⟨_, rfl, went_openLine htext hindent, rfl, h.congr rfl rfl rfl⟩

theorem turnLine_leaves (text : String) (htext : text.isEmpty = false)
    (hindent : s.page.indent = (depth : Int) + 1) :
    ∃ s', Gives tokens s (turnLine text) () s' ∧
      Leaves s s' 0 [⟨depth, text, false⟩] 0 0 s.blocks l :=
  ⟨_, rfl, went_turnLine htext hindent, rfl, h.congr rfl rfl rfl⟩

theorem closeLine_leaves (text : String) (htext : text.isEmpty = false)
    (hindent : s.page.indent = (depth : Int) + 1) :
    ∃ s', Gives tokens s (closeLine text) () s' ∧ Leaves s s' 0 [⟨depth, text, false⟩]
      (-1) 0 s.blocks l :=
  ⟨_, rfl, went_closeLine htext hindent, rfl, h.congr rfl rfl rfl⟩

theorem openBlock_leaves (form : BlockForm) (t : Token) :
    ∃ s', Gives tokens s (openBlock form t) () s' ∧
      Leaves s s' 0 [] 0 0 (⟨form, t.line, t.column⟩ :: s.blocks) l := by
  refine ⟨_, rfl, ?_, rfl, h.congr rfl rfl rfl⟩
  constructor <;> simp

theorem temporary_reached :
    ∃ s', Gives tokens s (temporary "_select_") (selectionName (s.temporaries + 1)) s' ∧
      Reached s s' 0 [] 1 l := by
  refine ⟨_, rfl, ?_, rfl, h.congr rfl rfl rfl⟩
  constructor <;> simp

end Leaves

/-- Behind the parts of a line, a block is opened. -/
theorem opens_leaves (tokens : Array Token) (text : String) (htext : text.isEmpty = false)
    (h : Reached s s₁ count [] made l) (hindent : s.page.indent = depth)
    (form : BlockForm) (t : Token) :
    ∃ s', Gives tokens s₁ (do openLine text; openBlock form t) () s' ∧
      Leaves s s' count [⟨depth, text, false⟩] 1 made (⟨form, t.line, t.column⟩ :: s.blocks) l := by
  obtain ⟨s₂, hline, hleaves₂⟩ :=
    openLine_leaves tokens h.tracks text htext (h.went.indent_eq hindent)
  obtain ⟨s₃, hblock, hleaves₃⟩ := openBlock_leaves tokens hleaves₂.tracks form t
  exact ⟨s₃, hline.bind hblock,
    ((h.leaves.trans hleaves₂).trans hleaves₃).of_eq rfl (by simp) rfl rfl
    (by rw [hleaves₂.blocks, h.blocks])⟩

/-! ### Lines that open blocks -/

section Heads

variable (hplain : ∀ t ∈ tokens, t.Plain)

include hplain

/-- `IF` with the end of the line behind `THEN`. -/
theorem if_passes (h : Tracks s l) (hindent : s.page.indent = depth)
    (hahead : Ahead tokens s.position
      (.word "IF" :: (c.written ++ .word "THEN" :: .lineEnd :: rest))) :
    ∃ s' i j, Passes tokens s s' (c.written.length + 3)
      [⟨depth, "if (" ++ c.rendered (l.useAll c.names).nameOf ++ ") \x7b", false⟩] 1 0
      (⟨.condition false, i, j⟩ :: s.blocks) (l.useAll c.names) := by
  have hline :
      Ahead tokens s.position (.word "IF" ::
        ((c.written ++ [Token.word "THEN"]) ++ .lineEnd :: rest)) := by
    simpa using hahead
  obtain ⟨t, hpasses⟩ := word_passes _ isLineEnd_lineEnd hline rfl
  obtain ⟨s₁, hwent, hblocks, htracks, hif⟩ :=
    ifStatement_gives hplain (h.moved 1) hindent hahead.tail
    (statementTo tokens.size) t
  have hopened := hif (s₁.pushBlock (.condition false) t) rfl
  refine ⟨_, t.line, t.column,
    (hpasses hopened ⟨?_, ?_, htracks.congr rfl rfl rfl⟩).of_eq ?_ rfl rfl rfl rfl⟩
  · rw [length_append, length_singleton]
    exact ⟨hwent.position, hwent.lines, hwent.indent, hwent.floors,
      hwent.collector, hwent.temporaries⟩
  · exact congrArg _ hblocks
  · simp

theorem while_passes (h : Tracks s l) (hindent : s.page.indent = depth)
    (hahead : Ahead tokens s.position (.word "WHILE" :: (c.written ++ .lineEnd :: rest))) :
    ∃ s' i j, Passes tokens s s' (c.written.length + 2)
      [⟨depth, "while (" ++ c.rendered (l.useAll c.names).nameOf ++ ") \x7b", false⟩] 1 0
      (⟨.whileLoop, i, j⟩ :: s.blocks) (l.useAll c.names) := by
  obtain ⟨t, hpasses⟩ := word_passes _ isLineEnd_lineEnd hahead rfl
  obtain ⟨s₁, hvalue, hread⟩ :=
    expression_reached hplain (h.moved 1) hahead.tail (stops_of_continues rfl)
    fun _ _ => rfl
  obtain ⟨s₂, hopen, hleaves⟩ := opens_leaves tokens
    ("while (" ++ c.rendered (l.useAll c.names).nameOf ++ ") \x7b")
    (isEmpty_append_of_right rfl) hread hindent .whileLoop t
  exact ⟨_, t.line, t.column, hpasses (hvalue.bind hopen) hleaves⟩

theorem loopCondition_reached (h : Tracks s l) {test : LoopTest} (he : e.IsLineEnd)
    (hahead : Ahead tokens s.position (test.spelling ++ e :: rest)) :
    ∃ s', Gives tokens s loopCondition?
      (some (test.rendered (l.useAll test.condition.names).nameOf)) s' ∧
      Reached s s' test.spelling.length [] 0 (l.useAll test.condition.names) := by
  obtain ⟨isUntil, c⟩ := test
  obtain ⟨s', hvalue, hread⟩ :=
    expression_reached hplain (h.moved 1) hahead.tail he.stops fun _ _ => rfl
  have hall := (Reached.moved h 1).trans hread
  refine ⟨s', ?_, hall.of_eq (Nat.add_comm ..) rfl rfl rfl⟩
  cases isUntil with
  | false => exact (takeKeyword_gives hahead).bind (hvalue.bind .pure)
  | true =>
    exact (takeKeyword_not hahead rfl).bind ((takeKeyword_gives hahead).bind (hvalue.bind .pure))

omit hplain in
theorem loopCondition_none (he : e.IsLineEnd) (hahead : Ahead tokens s.position (e :: rest)) :
    Gives tokens s loopCondition? none s :=
  (takeKeyword_not hahead (he.isKeyword _)).bind
    ((takeKeyword_not hahead (he.isKeyword _)).bind .pure)

omit hplain in
theorem endlessDo_leaves (h : Tracks s l) (hindent : s.page.indent = depth)
    (he : e.IsLineEnd) (t : Token) (hahead : Ahead tokens (s.moved 1).position (e :: rest)) :
    ∃ s', Gives tokens (s.moved 1) (doStatement t) () s' ∧
      Leaves (s.moved 1) s' 0 [⟨depth, "do \x7b", false⟩] 1 0
        (⟨.looping true, t.line, t.column⟩ :: s.blocks) l := by
  obtain ⟨s', hopen, hleaves⟩ := opens_leaves tokens "do \x7b" rfl
    (Reached.moved (h.moved 1) 0) hindent (.looping true) t
  rw [State.moved_zero] at hopen
  exact ⟨s', (loopCondition_none he hahead).bind hopen, hleaves⟩

theorem do_passes (h : Tracks s l) (hindent : s.page.indent = depth)
    (hahead : Ahead tokens s.position (.word "DO" :: (ends.frontSpelling ++ .lineEnd :: rest))) :
    ∃ s' i j, Passes tokens s s' (ends.frontSpelling.length + 2)
      [⟨depth, ends.frontText (l.useAll ends.frontNames).nameOf, false⟩] 1 0
      (⟨.looping ends.testsBehind, i, j⟩ :: s.blocks) (l.useAll ends.frontNames) := by
  obtain ⟨t, hpasses⟩ := word_passes _ isLineEnd_lineEnd hahead rfl
  suffices hdo : ∃ s₁, Gives tokens (s.moved 1) (doStatement t) () s₁ ∧
      Leaves (s.moved 1) s₁ ends.frontSpelling.length
        [⟨depth, ends.frontText (l.useAll ends.frontNames).nameOf, false⟩] 1 0
        (⟨.looping ends.testsBehind, t.line, t.column⟩ :: s.blocks) (l.useAll ends.frontNames) by
    obtain ⟨s₁, hdo, hleaves⟩ := hdo
    exact ⟨_, t.line, t.column, hpasses hdo hleaves⟩
  cases ends with
  | endless => exact endlessDo_leaves h hindent isLineEnd_lineEnd t hahead.tail
  | back test => exact endlessDo_leaves h hindent isLineEnd_lineEnd t hahead.tail
  | front test =>
    obtain ⟨s₁, hvalue, hread⟩ :=
      loopCondition_reached hplain (h.moved 1) isLineEnd_lineEnd hahead.tail
    obtain ⟨s₂, hopen, hleaves⟩ := opens_leaves tokens
      ("while " ++ test.rendered (l.useAll test.condition.names).nameOf ++ " \x7b")
      (isEmpty_append_of_right rfl) hread hindent (.looping false) t
    exact ⟨s₂, hvalue.bind hopen, hleaves⟩

omit hplain in
theorem loopVariable_reached (h : Tracks s l)
    (hahead : Ahead tokens s.position (.named name :: rest)) :
    ∃ v s', v.name = (l.use name).nameOf name ∧ Reached s s' 1 [] 0 (l.use name) ∧
      ∀ (f : Variable → Emit Unit) (s'' : State), Gives tokens s' (f v) () s'' →
        Gives tokens s (do
          let name ← expectName "loop variable"
          let v ← match ← Emit.lookup name.text with
            | some v => pure v
            | none => implicitVariable name.text
          f v) () s'' := by
  obtain ⟨t, rfl, hname⟩ := expectName_gives "loop variable" hahead
  have hlookup :
      Gives tokens (s.moved 1) (Emit.lookup t.text) (s.scopes.find? t.text) (s.moved 1) := rfl
  have htracks : Tracks { s.moved 1 with scopes := s.scopes.use t.text } (l.use t.text) :=
    (h.moved 1).use t.text
  have hreached :
      Reached s { s.moved 1 with scopes := s.scopes.use t.text } 1 [] 0 (l.use t.text) :=
    ⟨⟨rfl, (Went.moved s 1).lines, (Went.moved s 1).indent, rfl, rfl, rfl⟩, rfl, htracks⟩
  have hnamed := (htracks.scriptName t.text).symm
  rw [Scopes.scriptName_use (h.free t.text)] at hnamed
  cases hfind : s.scopes.find? t.text with
  | some v =>
    rw [hfind] at hlookup
    rw [Scopes.scriptName_of_some hfind] at hnamed
    refine ⟨v, _, hnamed.symm, hreached, fun f s'' hrest => hname.bind (hlookup.bind ?_)⟩
    rw [Scopes.use_of_some hfind] at hrest
    exact hrest
  | none =>
    rw [hfind] at hlookup
    rw [Scopes.scriptName_of_none hfind] at hnamed
    refine ⟨.implicit t.text, _, ?_, hreached, fun f s'' hrest => hname.bind (hlookup.bind ?_)⟩
    · rw [Variable.name_implicit, hnamed]
    · exact (implicitVariable_gives (s := s.moved 1) hfind).bind hrest

/-- The end of a `FOR`: its limit, and its step if it has one. -/
theorem loopLimit_reached (h : Tracks s l)
    (hahead : Ahead tokens s.position (stop.written ++ (stepSpelling step ++ .lineEnd :: rest)))
    (hstop : ∀ n ∈ stop.names, js n = (l.useAll stop.names).nameOf n)
    (hstep : ∀ n ∈ stepNames step,
      js n = ((l.useAll stop.names).useAll (stepNames step)).nameOf n) :
    ∃ s₁, Reached s s₁ (stop.written.length + (stepSpelling step).length) [] 0
        ((l.useAll stop.names).useAll (stepNames step)) ∧
      ∀ (f : String → String → Emit Unit) (s' : State),
        Gives tokens s₁ (f (stop.rendered js) (step.elim "1" (Expr.rendered js))) () s' →
        Gives tokens s (do
          let stop ← expression
          let step ← if ← takeKeyword "STEP" then expression else pure "1"
          f stop step) () s' := by
  cases step with
  | none =>
    obtain ⟨s₁, hvalue, hread⟩ := expression_reached hplain h hahead (stops_of_continues rfl) hstop
    have hbehind := hread.went.behind hahead
    exact ⟨s₁, hread, fun f s' hrest => hvalue.bind ((takeKeyword_not hbehind rfl).bind hrest)⟩
  | some e =>
    obtain ⟨s₁, hvalue, hread⟩ := expression_reached hplain h hahead (stops_of_continues rfl) hstop
    have hbehind := hread.went.behind hahead
    obtain ⟨s₂, hvalue', hread'⟩ := expression_reached hplain (hread.tracks.moved 1) hbehind.tail
      (stops_of_continues rfl) hstep
    have hall := (hread.trans (Reached.moved hread.tracks 1)).trans hread'
    refine ⟨s₂, hall.of_eq ?_ rfl rfl rfl, fun f s' hrest => ?_⟩
    · simp only [stepSpelling, length_cons]
      omega
    · exact hvalue.bind ((takeKeyword_gives hbehind).bind (hvalue'.bind hrest))

theorem for_passes (h : Tracks s l) (hindent : s.page.indent = depth) {start : Expr}
    (hahead : Ahead tokens s.position (.word "FOR" :: .named name :: .sign "=" :: (start.written ++
      .word "TO" :: (stop.written ++ (stepSpelling step ++ .lineEnd :: rest)))))
    (hl : l' = l.useAll (name :: (start.names ++ (stop.names ++ stepNames step)))) :
    ∃ s' i j, Passes tokens s s'
      (start.written.length + stop.written.length + (stepSpelling step).length + 5)
      [⟨depth, countingText l'.nameOf name start stop step, false⟩] 1 0
      (⟨.counting (l'.nameOf name), i, j⟩ :: s.blocks) l' := by
  have hline :
      Ahead tokens s.position (.word "FOR" :: ((.named name :: .sign "=" :: (start.written ++
      .word "TO" :: (stop.written ++ stepSpelling step))) ++ .lineEnd :: rest)) := by
    simpa using hahead
  obtain ⟨t, hpasses⟩ := word_passes _ isLineEnd_lineEnd hline rfl
  -- What a name is called does not change behind the part in which it stands.
  have hl' :
      l' = (((l.use name).useAll start.names).useAll stop.names).useAll (stepNames step) := by
    rw [hl, Ledger.useAll_cons, Ledger.useAll_append, Ledger.useAll_append]
  have hstart : ∀ n ∈ start.names, l'.nameOf n = ((l.use name).useAll start.names).nameOf n := by
    intro n hn
    rw [hl, Ledger.useAll_cons, Ledger.useAll_append,
      Ledger.nameOf_useAll (Ledger.declares_useAll hn)]
  have hstop : ∀ n ∈ stop.names,
      l'.nameOf n = (((l.use name).useAll start.names).useAll stop.names).nameOf n := by
    intro n hn
    rw [hl', Ledger.nameOf_useAll (Ledger.declares_useAll hn)]
  obtain ⟨v, s₁, hv, hread₁, hcounter⟩ := loopVariable_reached (h.moved 1) hahead.tail
  have hname : v.name = l'.nameOf name := by
    rw [hl, Ledger.useAll_cons, hv, Ledger.nameOf_useAll]
    exact Ledger.declares_use
  have hahead₁ := hread₁.went.position ▸ hahead.tail.tail
  obtain ⟨_, hequals⟩ := expectOperator_gives (s := s₁) hahead₁
  obtain ⟨s₂, hvalue₂, hread₂⟩ := expression_reached hplain (hread₁.tracks.moved 1) hahead₁.tail
    (stops_of_continues rfl) hstart
  have hahead₂ := hread₂.went.position ▸ hahead₁.tail.right
  obtain ⟨_, hto⟩ := expectKeyword_gives (s := s₂) hahead₂
  obtain ⟨s₃, hread₃, hlimit⟩ := loopLimit_reached hplain (hread₂.tracks.moved 1) hahead₂.tail hstop
    fun n _ => by rw [hl']
  have hall := (((hread₁.trans (Reached.moved hread₁.tracks 1)).trans hread₂).trans
    (Reached.moved hread₂.tracks 1)).trans hread₃
  rw [← hl'] at hall
  obtain ⟨s₄, hopen, hleaves⟩ := opens_leaves tokens (countingText l'.nameOf name start stop step)
    (isEmpty_append_of_right rfl) hall hindent (.counting v.name) t
  rw [hname] at hleaves
  refine ⟨s₄.moved _, t.line, t.column, (hpasses ?_ ?_).of_eq ?_ rfl rfl rfl rfl⟩
  · refine hcounter _ _ (hequals.bind (hvalue₂.bind (hto.bind (hlimit _ _ ?_))))
    rw [hname] at hopen ⊢
    exact hopen
  · refine hleaves.of_eq ?_ rfl rfl rfl rfl
    simp only [length_cons, length_append]
    omega
  · simp only [length_cons, length_append, Token.skips_lineEnd]
    omega

theorem select_passes (h : Tracks s l) (hindent : s.page.indent = depth) {e : Expr}
    (hahead : Ahead tokens s.position (.word "SELECT" :: .word "CASE" ::
      (e.written ++ .lineEnd :: rest))) :
    ∃ s' i j, Passes tokens s s' (e.written.length + 3)
      [⟨depth, "\x7b", false⟩, ⟨depth + 1, "const " ++ selectionName (s.temporaries + 1) ++ " = " ++
        e.rendered (l.useAll e.names).nameOf ++ ";", false⟩] 1 1
      (⟨.selection (selectionName (s.temporaries + 1)) 0 false, i, j⟩ :: s.blocks)
        (l.useAll e.names) := by
  obtain ⟨t, hpasses⟩ := word_passes (.word "CASE" :: e.written) isLineEnd_lineEnd hahead rfl
  obtain ⟨_, hcase⟩ := expectKeyword_gives (s := s.moved 1) hahead.tail
  obtain ⟨s₁, hvalue, hread⟩ := expression_reached hplain ((h.moved 1).moved 1) hahead.tail.tail
    (stops_of_continues rfl) fun _ _ => rfl
  have hread' := (Reached.moved (h.moved 1) 1).trans hread
  have htemporaries : s₁.temporaries = s.temporaries := hread'.went.temporaries
  obtain ⟨s₂, htemporary, hread₂⟩ := temporary_reached tokens hread'.tracks
  have hindent₂ := hread₂.went.indent_eq (hread'.went.indent_eq hindent)
  obtain ⟨s₃, hopen, hleaves₃⟩ := openLine_leaves tokens hread₂.tracks "\x7b" rfl hindent₂
  have hindent₃ : s₃.page.indent = ((depth + 1 : Nat) : Int) :=
    by rw [hleaves₃.went.indent, hindent₂]; rfl
  obtain ⟨s₄, hconst, hread₄⟩ :=
    line_reached tokens ("const " ++ selectionName (s₁.temporaries + 1) ++ " = " ++
    e.rendered (l.useAll e.names).nameOf ++ ";") hleaves₃.tracks hindent₃
      (isEmpty_append_of_right rfl)
  obtain ⟨s₅, hblock, hleaves₅⟩ := openBlock_leaves tokens hread₄.tracks
    (.selection (selectionName (s₁.temporaries + 1)) 0 false) t
  have hall := ((hread'.trans hread₂).leaves.trans (hleaves₃.trans hread₄.leaves)).trans hleaves₅
  have hblocks : s₄.blocks = s.blocks := by
    rw [hread₄.blocks, hleaves₃.blocks, hread₂.blocks]
    exact hread'.blocks
  rw [htemporaries, hblocks] at hall
  refine ⟨_, t.line, t.column, hpasses (hcase.bind (hvalue.bind (htemporary.bind (hopen.bind
    (hconst.bind hblock))))) (hall.of_eq ?_ rfl rfl rfl rfl)⟩
  simp only [length_cons]
  omega

end Heads

/-! ### Lines that close blocks -/

section Ends

variable {i j : Int} {outer : List Block} (he : e.IsLineEnd) (h : Tracks s l)
    (hfloors : s.floors = [])
  (hindent : s.page.indent = (depth : Int) + 1)

include h hfloors hindent

/-- A block is taken off, and its brace is closed. -/
theorem closes_leaves (tokens : Array Token) (hblocks : s.blocks = ⟨form, i, j⟩ :: outer)
    (hkind : form.kind = kind) (hordinary : ∀ k, kind ≠ .procedure k) (t : Token)
    (text : String) (htext : text.isEmpty = false) :
    ∃ s₁ s', Gives tokens s (closeBlock kind t) (some ⟨form, i, j⟩) s₁ ∧ Tracks s₁ l ∧
      Gives tokens s₁ (closeLine text) () s' ∧ Leaves s s' 0 [⟨depth, text, false⟩]
        (-1) 0 outer l := by
  obtain ⟨s₁, hclosed, hleaves₁⟩ := closeBlock_leaves tokens h hfloors hblocks hkind hordinary t
  obtain ⟨s₂, hclose, hleaves₂⟩ :=
    closeLine_leaves tokens hleaves₁.tracks text htext (hleaves₁.went.indent_eq hindent)
  exact ⟨s₁, s₂, hclosed, hleaves₁.tracks, hclose,
    (hleaves₁.trans hleaves₂).of_eq rfl rfl rfl rfl hleaves₁.blocks⟩

include he

theorem endIf_passes (hblocks : s.blocks = ⟨.condition hasElse, i, j⟩ :: outer)
    (hahead : Ahead tokens s.position (.word "END" :: .word "IF" :: e :: rest)) :
    ∃ s', Passes tokens s s' (2 + e.skips) [⟨depth, "\x7d", false⟩] (-1) 0 outer l := by
  obtain ⟨t, hpasses⟩ := word_passes [.word "IF"] he hahead rfl
  have htake := takeKeyword_gives (s := s.moved 1) hahead.tail
  obtain ⟨s₁, s₂, hclosed, -, hclose, hleaves⟩ :=
    closes_leaves ((h.moved 1).moved 1) hfloors hindent tokens
    hblocks rfl nofun t "\x7d" rfl
  exact ⟨_, hpasses (htake.bind (hclosed.bind hclose))
    ((Reached.moved (h.moved 1) 1).leaves.trans hleaves)⟩

theorem wend_passes (hblocks : s.blocks = ⟨.whileLoop, i, j⟩ :: outer)
    (hahead : Ahead tokens s.position (.word "WEND" :: e :: rest)) :
    ∃ s', Passes tokens s s' (1 + e.skips) [⟨depth, "\x7d", false⟩] (-1) 0 outer l := by
  obtain ⟨t, hpasses⟩ := word_passes [] he hahead rfl
  obtain ⟨s₁, s₂, hclosed, -, hclose, hleaves⟩ := closes_leaves (h.moved 1) hfloors hindent tokens
    hblocks rfl nofun t "\x7d" rfl
  exact ⟨_, hpasses (hclosed.bind hclose) hleaves⟩

/-- `NEXT`, alone or with the variable of the loop. -/
theorem next_passes {js : String} (hjs : l.declared.get? (upper name) = some js)
    (hblocks : s.blocks = ⟨.counting js, i, j⟩ :: outer)
    {closer : Option { other : String // upper other = upper name }}
    (hahead : Ahead tokens s.position (.word "NEXT" :: (closerSpelling closer ++ e :: rest))) :
    ∃ s', Passes tokens s s' ((closerSpelling closer).length + 1 + e.skips) [⟨depth, "\x7d", false⟩]
      (-1) 0 outer l := by
  obtain ⟨t, hpasses⟩ := word_passes _ he hahead rfl
  cases closer with
  | none =>
    obtain ⟨s₁, s₂, hclosed, -, hclose, hleaves⟩ := closes_leaves (h.moved 1) hfloors hindent tokens
      hblocks rfl nofun t "\x7d" rfl
    have hbehind : Ahead tokens (s.moved 1).position (e :: rest) := hahead.tail
    have hlast : Gives tokens (s.moved 1) (atKind .identifier) false (s.moved 1) := by
      have htest := test_gives hbehind (fun t => decide (t.kind = .identifier)) fun _ => rfl
      rwa [decide_eq_false he.kind] at htest
    exact ⟨_, hpasses (hlast.bind (hclosed.bind (hclose.bind .pure))) hleaves⟩
  | some other =>
    obtain ⟨other, hother⟩ := other
    have hnamed : Ahead tokens (s.moved 1).position (.named other :: e :: rest) := hahead.tail
    have hfirst : Gives tokens (s.moved 1) (atKind .identifier) true (s.moved 1) :=
      test_gives hnamed (fun t => decide (t.kind = .identifier)) fun _ => rfl
    obtain ⟨n, rfl, hname⟩ := expectName_gives "loop variable" hnamed
    have hlist : Gives tokens (s.moved 1) (commaList (expectName "loop variable")) [n]
        ((s.moved 1).moved 1) := by
      refine Loops.gives (.done (hname.bind ((takeMark_not hnamed.tail (he.isMark _)).bind .pure)))
        (Nat.le_add_left ..)
    obtain ⟨s₁, s₂, hclosed, htracks₁, hclose, hleaves⟩ :=
      closes_leaves ((h.moved 1).moved 1) hfloors hindent
      tokens hblocks rfl nofun t "\x7d" rfl
    have hlookup : Gives tokens s₁ (Emit.lookup n.text) (s₁.scopes.find? n.text) s₁ := rfl
    obtain ⟨v, hv, hvname⟩ : ∃ v, s₁.scopes.find? n.text = some v ∧ v.name = js := by
      have hfound := htracks₁.found n.text
      rw [hother, hjs] at hfound
      exact Option.map_eq_some_iff.1 hfound
    rw [hv] at hlookup
    refine ⟨_, hpasses (hfirst.bind (hlist.bind (hclosed.bind (hlookup.bind ?_))))
      ((Reached.moved (h.moved 1) 1).leaves.trans hleaves)⟩
    rw [Option.map_some, hvname, if_pos rfl]
    exact hclose.bind .pure

theorem loop_passes (hplain : ∀ t ∈ tokens, t.Plain)
    (hblocks : s.blocks = ⟨.looping ends.testsBehind, i, j⟩ :: outer)
    (hahead : Ahead tokens s.position (.word "LOOP" :: (ends.backSpelling ++ e :: rest))) :
    ∃ s', Passes tokens s s' (ends.backSpelling.length + 1 + e.skips)
      [⟨depth, ends.backText (l.useAll ends.backNames).nameOf, false⟩]
        (-1) 0 outer (l.useAll ends.backNames) := by
  obtain ⟨t, hpasses⟩ := word_passes _ he hahead rfl
  cases ends with
  | endless =>
    obtain ⟨s₁, s₂, hclosed, -, hclose, hleaves⟩ := closes_leaves (h.moved 1) hfloors hindent tokens
      hblocks rfl nofun t "\x7d while (true);" rfl
    exact ⟨_, hpasses ((loopCondition_none he hahead.tail).bind (hclosed.bind hclose)) hleaves⟩
  | front test =>
    obtain ⟨s₁, s₂, hclosed, -, hclose, hleaves⟩ := closes_leaves (h.moved 1) hfloors hindent tokens
      hblocks rfl nofun t "\x7d" rfl
    exact ⟨_, hpasses ((loopCondition_none he hahead.tail).bind (hclosed.bind hclose)) hleaves⟩
  | back test =>
    obtain ⟨s₁, hvalue, hread⟩ := loopCondition_reached hplain (h.moved 1) he hahead.tail
    obtain ⟨s₂, s₃, hclosed, -, hclose, hleaves⟩ := closes_leaves hread.tracks
      (hread.went.floors.trans hfloors) (hread.went.indent_eq hindent) tokens
      (hread.blocks.trans hblocks) rfl nofun t
      ("\x7d while " ++ test.rendered (l.useAll test.condition.names).nameOf ++ ";")
        (isEmpty_append_of_right rfl)
    exact ⟨_, hpasses (hvalue.bind (hclosed.bind hclose)) (hread.leaves.trans hleaves)⟩

end Ends

/-! ### Lines between the branches of a block -/

section Turns

variable {i j : Int} {outer : List Block} (h : Tracks s l) (hfloors : s.floors = [])

include h hfloors

theorem elseIf_passes (hplain : ∀ t ∈ tokens, t.Plain)
    (hblocks : s.blocks = ⟨.condition false, i, j⟩ :: outer)
    (hindent : s.page.indent = (depth : Int) + 1)
    (hahead : Ahead tokens s.position
      (.word "ELSEIF" :: (c.written ++ .word "THEN" :: .lineEnd :: rest))) :
    ∃ s', Passes tokens s s' (c.written.length + 3)
      [⟨depth, "\x7d else if (" ++ c.rendered (l.useAll c.names).nameOf ++ ") \x7b", false⟩]
      0 0 s.blocks (l.useAll c.names) := by
  have hline :
      Ahead tokens s.position (.word "ELSEIF" ::
        ((c.written ++ [Token.word "THEN"]) ++ .lineEnd :: rest)) := by
    simpa using hahead
  obtain ⟨t, hpasses⟩ := word_passes _ isLineEnd_lineEnd hline rfl
  have htop : Gives tokens (s.moved 1) topForm _ _ := topForm_gives (h.moved 1) hfloors hblocks
  obtain ⟨s₁, hvalue, hread⟩ :=
    expression_reached hplain (h.moved 1) hahead.tail (stops_of_continues rfl)
    fun _ _ => rfl
  have hthen := hread.went.behind hahead.tail
  have htake := takeKeyword_gives hthen
  have hread' := hread.trans (Reached.moved hread.tracks 1)
  obtain ⟨s₂, hturn, hleaves⟩ := turnLine_leaves tokens hread'.tracks
    ("\x7d else if (" ++ c.rendered (l.useAll c.names).nameOf ++ ") \x7b")
    (isEmpty_append_of_right rfl) (hread'.went.indent_eq hindent)
  have hall := hread'.leaves.trans hleaves
  refine ⟨_, (hpasses (htop.bind (hvalue.bind (htake.bind hturn)))
    (hall.of_eq ?_ rfl rfl rfl hread'.blocks)).of_eq ?_ rfl rfl rfl rfl⟩
  · simp
  · simp

omit hfloors in
theorem setTopForm_leaves (tokens : Array Token) (hblocks : s.blocks = ⟨form, i, j⟩ :: outer)
    (next : BlockForm) :
    ∃ s', Gives tokens s (setTopForm next) () s' ∧
      Leaves s s' 0 [] 0 0 (⟨next, i, j⟩ :: outer) l := by
  have hset : Gives tokens s (setTopForm next) () { s with blocks := ⟨next, i, j⟩ :: outer } := by
    change EStateM.Result.ok () _ = EStateM.Result.ok () _
    beta_reduce
    rw [hblocks]
  refine ⟨_, hset, ?_, rfl, h.congr rfl rfl rfl⟩
  constructor <;> simp

theorem else_passes (hblocks : s.blocks = ⟨.condition false, i, j⟩ :: outer)
    (hindent : s.page.indent = (depth : Int) + 1)
    (hahead : Ahead tokens s.position (.word "ELSE" :: .lineEnd :: rest)) :
    ∃ s', Passes tokens s s' 2 [⟨depth, "\x7d else \x7b", false⟩] 0 0
      (⟨.condition true, i, j⟩ :: outer) l := by
  obtain ⟨t, hpasses⟩ := word_passes [] isLineEnd_lineEnd hahead rfl
  have htop : Gives tokens (s.moved 1) topForm _ _ := topForm_gives (h.moved 1) hfloors hblocks
  obtain ⟨s₁, hset, hleaves₁⟩ := setTopForm_leaves (h.moved 1) tokens hblocks (.condition true)
  obtain ⟨s₂, hturn, hleaves₂⟩ := turnLine_leaves tokens hleaves₁.tracks "\x7d else \x7b" rfl
    (hleaves₁.went.indent_eq hindent)
  exact ⟨_, hpasses (htop.bind (hset.bind hturn))
    ((hleaves₁.trans hleaves₂).of_eq rfl rfl rfl rfl hleaves₁.blocks)⟩

end Turns

/-! ### Cases -/

theorem Token.Opens.comparison {token : Token} (h : token.Opens) :
    (if token.kind = .operator then comparison? token.text else none) = none := by
  cases h with
  | sign sign => cases sign <;> rfl
  | _ => rfl

theorem Comparison.script_eq (c : Comparison) : comparison? c.sign = some c.script := by
  cases c <;> rfl

theorem CaseTest.exists_spelling (test : CaseTest) :
    ∃ first rest, test.spelling = first :: rest ∧ first.isKeyword "ELSE" = false := by
  cases test with
  | value e =>
    obtain ⟨first, rest, hwritten, hopens⟩ := e.exists_written
    exact ⟨first, rest, hwritten, hopens.isKeyword (by decide)⟩
  | range low high =>
    obtain ⟨first, rest, hwritten, hopens⟩ := low.exists_written
    exact ⟨first, _, by rw [spelling, hwritten, cons_append], hopens.isKeyword (by decide)⟩
  | compare hasIs c e => cases hasIs <;> exact ⟨_, _, rfl, rfl⟩

theorem CaseTest.exists_listSpelling (first : CaseTest) (more : List CaseTest) :
    ∃ head back, listSpelling first more = head :: back ∧ head.isKeyword "ELSE" = false := by
  obtain ⟨head, back, hspelling, hnot⟩ := first.exists_spelling
  cases more with
  | nil => exact ⟨head, back, hspelling, hnot⟩
  | cons second more => exact ⟨head, _, by rw [listSpelling, hspelling, cons_append], hnot⟩

theorem CaseTest.length_le_listSpelling (first : CaseTest) (more : List CaseTest) :
    more.length ≤ (listSpelling first more).length := by
  induction more generalizing first with
  | nil => exact Nat.zero_le _
  | cons second more ih =>
    have := ih second
    simp only [listSpelling, length_append, length_cons]
    omega

section Tests

variable (hplain : ∀ t ∈ tokens, t.Plain) (value : String)

include hplain

/-- The first expression of a case's test that is no comparison. -/
theorem caseValue_reached (h : Tracks s l) {e : Expr} (hstops : Stops 0 next)
    (hahead : Ahead tokens s.position (e.written ++ next :: rest))
    (hjs : ∀ n ∈ e.names, js n = (l.useAll e.names).nameOf n) :
    ∃ s₁, Reached s s₁ e.written.length [] 0 (l.useAll e.names) ∧ ∀ (text : String) (s' : State),
      Gives tokens s₁ (do
        if ← takeKeyword "TO" then
          let high ← expression
          return "(" ++ value ++ " >= " ++ e.rendered js ++ " && " ++ value ++ " <= " ++ high ++ ")"
        return value ++ " === " ++ e.rendered js) text s' →
      Gives tokens s (caseTest value) text s' := by
  obtain ⟨s₁, hvalue, hread⟩ := expression_reached hplain h hahead hstops hjs
  refine ⟨s₁, hread, fun text s' hrest => ?_⟩
  obtain ⟨first, back, hwritten, hopens⟩ := e.exists_written
  rw [hwritten, cons_append] at hahead
  obtain ⟨t, rfl, hcurrent⟩ := current_gives hahead
  have hnone : (if t.kind = .operator then comparison? t.text else none) = none := hopens.comparison
  refine (takeKeyword_not hahead (hopens.isKeyword (by decide))).bind (hcurrent.bind ?_)
  rw [hnone]
  exact hvalue.bind hrest

/-- A test of a case, in front of a comma or the end of the line. -/
theorem caseTest_reached (h : Tracks s l) {test : CaseTest}
    (hnext : next = .mark "," ∨ next = .lineEnd)
    (hahead : Ahead tokens s.position (test.spelling ++ next :: rest))
    (hjs : ∀ n ∈ test.names, js n = (l.useAll test.names).nameOf n) :
    ∃ s', Gives tokens s (caseTest value) (test.rendered js value) s' ∧
      Reached s s' test.spelling.length [] 0 (l.useAll test.names) := by
  have hstops : Stops 0 next := by rcases hnext with rfl | rfl <;> exact stops_of_continues rfl
  have hto : next.isKeyword "TO" = false := by rcases hnext with rfl | rfl <;> rfl
  cases test with
  | value e =>
    obtain ⟨s₁, hread, htest⟩ := caseValue_reached hplain value h hstops hahead hjs
    have hbehind := hread.went.behind hahead
    exact ⟨s₁, htest _ _ ((takeKeyword_not hbehind hto).bind .pure), hread⟩
  | range low high =>
    rw [CaseTest.spelling, append_assoc, cons_append] at hahead
    rw [CaseTest.names, Ledger.useAll_append] at hjs
    -- the names of the upper bound do not change those of the lower one
    have hlow : ∀ n ∈ low.names, js n = (l.useAll low.names).nameOf n := by
      intro n hn
      rw [hjs n (mem_append_left _ hn), Ledger.nameOf_useAll (Ledger.declares_useAll hn)]
    obtain ⟨s₁, hread, htest⟩ :=
      caseValue_reached hplain value h (stops_of_continues rfl) hahead hlow
    have hbehind := hread.went.behind hahead
    obtain ⟨s₂, hvalue, hread'⟩ :=
      expression_reached hplain (hread.tracks.moved 1) hbehind.tail hstops
      fun n hn => hjs n (mem_append_right _ hn)
    have hall := (hread.trans (Reached.moved hread.tracks 1)).trans hread'
    refine ⟨s₂, htest _ _ ((takeKeyword_gives hbehind).bind (hvalue.bind .pure)),
      hall.of_eq ?_ rfl rfl ?_⟩
    · simp only [CaseTest.spelling, length_append, length_cons]
      omega
    · rw [CaseTest.names, Ledger.useAll_append]
  | compare hasIs c e =>
    have htake : Gives tokens s (takeKeyword "IS") hasIs (s.moved hasIs.toNat) := by
      cases hasIs with
      | false => exact State.moved_zero.symm ▸ takeKeyword_not hahead rfl
      | true => exact takeKeyword_gives hahead
    have hsign :
        Ahead tokens (s.moved hasIs.toNat).position
          (.sign c.sign :: (e.written ++ next :: rest)) := by
      cases hasIs with
      | false => exact State.moved_zero.symm ▸ hahead
      | true => exact hahead.tail
    obtain ⟨t, ht, hcurrent, hadvance⟩ := advance_gives hsign nofun
    have hsome : (if t.kind = .operator then comparison? t.text else none) = some c.script := by
      rw [show t.kind = .operator from congrArg Token.kind ht, if_pos rfl,
        show t.text = c.sign from congrArg Token.text ht, c.script_eq]
    obtain ⟨s₁, hvalue, hread⟩ :=
      expression_reached hplain ((h.moved hasIs.toNat).moved 1) hsign.tail hstops hjs
    refine ⟨s₁, htake.bind (hcurrent.bind ?_), ?_⟩
    · rw [hsome]
      exact hadvance.bind (hvalue.bind .pure)
    · have hall := ((Reached.moved h hasIs.toNat).trans (Reached.moved (h.moved _) 1)).trans hread
      refine hall.of_eq ?_ rfl rfl rfl
      cases hasIs <;> simp [CaseTest.spelling] <;> omega

theorem caseTests_loops (h : Tracks s l)
    (hahead : Ahead tokens s.position (CaseTest.listSpelling first more ++ .lineEnd :: rest))
    (hjs : ∀ n ∈ (first :: more).flatMap CaseTest.names,
      js n = (l.useAll ((first :: more).flatMap CaseTest.names)).nameOf n) (front : List String) :
    ∃ s', Loops tokens (fun front => do
          let front := front ++ [← caseTest value]
          if ← takeMark "," then return .again front
          return .done front) (more.length + 1) front s
        (front ++ (first :: more).map (CaseTest.rendered js value)) s' ∧
      Reached s s' (CaseTest.listSpelling first more).length [] 0
        (l.useAll ((first :: more).flatMap CaseTest.names)) := by
  induction more generalizing first s l front with
  | nil =>
    rw [flatMap_singleton] at hjs ⊢
    obtain ⟨s', htest, hread⟩ := caseTest_reached hplain value h (.inr rfl) hahead hjs
    have hbehind := hread.went.behind hahead
    exact ⟨s', .done (htest.bind ((takeMark_not hbehind rfl).bind .pure)), hread⟩
  | cons second more ih =>
    rw [CaseTest.listSpelling, append_assoc, cons_append] at hahead
    rw [flatMap_cons, Ledger.useAll_append] at hjs ⊢
    have hfirst : ∀ n ∈ first.names, js n = (l.useAll first.names).nameOf n := by
      intro n hn
      rw [hjs n (mem_append_left _ hn), Ledger.nameOf_useAll (Ledger.declares_useAll hn)]
    obtain ⟨s₁, htest, hread⟩ := caseTest_reached hplain value h (.inl rfl) hahead hfirst
    have hbehind := hread.went.behind hahead
    have htake : Gives tokens s₁ (takeMark ",") true (s₁.moved 1) :=
      take_gives hbehind (·.isMark ",") (fun _ => rfl) rfl nofun
    obtain ⟨s', hloops, hread'⟩ := ih (hread.tracks.moved 1) hbehind.tail
      (fun n hn => hjs n (mem_append_right _ hn)) (front ++ [first.rendered js value])
    rw [append_assoc, singleton_append, ← map_cons] at hloops
    have hall := (hread.trans (Reached.moved hread.tracks 1)).trans hread'
    refine ⟨s', .again (htest.bind (htake.bind .pure)) hloops, hall.of_eq ?_ rfl rfl rfl⟩
    simp only [CaseTest.listSpelling, length_append, length_cons]
    omega

theorem caseTests_reached (h : Tracks s l)
    (hahead : Ahead tokens s.position (CaseTest.listSpelling first more ++ .lineEnd :: rest))
    (hl : l' = l.useAll ((first :: more).flatMap CaseTest.names)) :
    ∃ s', Gives tokens s (commaList (caseTest value))
      ((first :: more).map (CaseTest.rendered l'.nameOf value)) s' ∧
      Reached s s' (CaseTest.listSpelling first more).length [] 0 l' := by
  subst hl
  obtain ⟨s', hloops, hread⟩ := caseTests_loops hplain value h hahead (fun _ _ => rfl) []
  have hlength := CaseTest.length_le_listSpelling first more
  have hsize := hahead.left.length_le
  exact ⟨s', hloops.gives (by omega), hread⟩

end Tests

section Cases

variable {i j : Int} {outer : List Block} {value : String} {cases : Nat}

/-- How much deeper than its cases a selection is: the first case opens a brace. -/
def caseShift (cases : Nat) : Int := if cases = 0 then 0 else 1

theorem caseLine_leaves (tokens : Array Token) (h : Tracks s l)
    (hindent : s.page.indent = (depth : Int) + caseShift cases) (test : Option String) :
    ∃ s', Gives tokens s (caseLine cases test) () s' ∧
      Leaves s s' 0 [⟨depth, caseText (cases = 0) test, false⟩]
        (1 - caseShift cases) 0 s.blocks l := by
  cases cases with
  | zero =>
    cases test with
    | none => exact openLine_leaves tokens h "if (true) \x7b" rfl (hindent.trans (Int.add_zero _))
    | some test =>
      exact openLine_leaves tokens h ("if (" ++ test ++ ") \x7b") (isEmpty_append_of_right rfl)
        (hindent.trans (Int.add_zero _))
  | succ n =>
    cases test with
    | none => exact turnLine_leaves tokens h "\x7d else \x7b" rfl hindent
    | some test =>
      exact turnLine_leaves tokens h ("\x7d else if (" ++ test ++ ") \x7b")
        (isEmpty_append_of_right rfl) hindent

variable (h : Tracks s l) (hfloors : s.floors = [])
  (hblocks : s.blocks = ⟨.selection value cases false, i, j⟩ :: outer)
  (hindent : s.page.indent = (depth : Int) + caseShift cases)

include h hfloors hblocks hindent

theorem case_passes (hplain : ∀ t ∈ tokens, t.Plain)
    (hahead : Ahead tokens s.position
      (.word "CASE" :: (CaseTest.listSpelling first more ++ .lineEnd :: rest)))
    (hl : l' = l.useAll ((first :: more).flatMap CaseTest.names)) :
    ∃ s', Passes tokens s s' ((CaseTest.listSpelling first more).length + 2)
      [⟨depth, caseText (cases = 0) (some (joinWith " || "
        ((first :: more).map (CaseTest.rendered l'.nameOf value)))), false⟩] (1 - caseShift cases) 0
      (⟨.selection value (cases + 1) false, i, j⟩ :: outer) l' := by
  obtain ⟨t, hpasses⟩ := word_passes _ isLineEnd_lineEnd hahead rfl
  have htop : Gives tokens (s.moved 1) topForm _ _ := topForm_gives (h.moved 1) hfloors hblocks
  obtain ⟨s₁, htests, hread⟩ := caseTests_reached hplain value (h.moved 1) hahead.tail hl
  obtain ⟨s₂, hline, hleaves₂⟩ := caseLine_leaves tokens hread.tracks
    (hread.went.indent_eq hindent) (some (joinWith " || "
      ((first :: more).map (CaseTest.rendered l'.nameOf value))))
  obtain ⟨s₃, hset, hleaves₃⟩ := setTopForm_leaves hleaves₂.tracks tokens
    ((hleaves₂.blocks.trans hread.blocks).trans hblocks) (.selection value (cases + 1) false)
  have helse : Gives tokens (s.moved 1) (takeKeyword "ELSE") false (s.moved 1) := by
    obtain ⟨head, back, hspelling, hnot⟩ := CaseTest.exists_listSpelling first more
    have hfirst := hahead.tail
    rw [hspelling, cons_append] at hfirst
    exact takeKeyword_not hfirst hnot
  have hall := (hread.leaves.trans hleaves₂).trans hleaves₃
  refine ⟨_, hpasses (htop.bind (helse.bind (htests.bind (hline.bind hset))))
    (hall.of_eq rfl rfl ?_ rfl rfl)⟩
  omega

theorem caseElse_passes
    (hahead : Ahead tokens s.position (.word "CASE" :: .word "ELSE" :: .lineEnd :: rest)) :
    ∃ s', Passes tokens s s' 3 [⟨depth, caseText (cases = 0) none, false⟩] (1 - caseShift cases) 0
      (⟨.selection value (cases + 1) true, i, j⟩ :: outer) l := by
  obtain ⟨t, hpasses⟩ := word_passes [.word "ELSE"] isLineEnd_lineEnd hahead rfl
  have htop : Gives tokens (s.moved 1) topForm _ _ := topForm_gives (h.moved 1) hfloors hblocks
  have helse := takeKeyword_gives (s := s.moved 1) hahead.tail
  obtain ⟨s₂, hcase, hleaves₂⟩ := caseLine_leaves tokens ((h.moved 1).moved 1) hindent none
  obtain ⟨s₃, hset, hleaves₃⟩ :=
    setTopForm_leaves hleaves₂.tracks tokens (hleaves₂.blocks.trans hblocks)
    (.selection value (cases + 1) true)
  have hall := ((Reached.moved (h.moved 1) 1).leaves.trans hleaves₂).trans hleaves₃
  refine ⟨_, hpasses (htop.bind (helse.bind (hcase.bind hset))) (hall.of_eq rfl rfl ?_ rfl rfl)⟩
  omega

end Cases

theorem endSelect_passes (he : e.IsLineEnd) (h : Tracks s l) (hfloors : s.floors = [])
    {value : String} {cases : Nat} {i j : Int} {outer : List Block}
    (hblocks : s.blocks = ⟨.selection value cases hasElse, i, j⟩ :: outer)
    (hindent : s.page.indent = ((depth + 1 : Nat) : Int) + caseShift cases)
    (hahead : Ahead tokens s.position (.word "END" :: .word "SELECT" :: e :: rest)) :
    ∃ s', Passes tokens s s' (2 + e.skips)
      ((if cases = 0 then [] else [⟨depth + 1, "\x7d", false⟩]) ++ [⟨depth, "\x7d", false⟩])
        (-1 - caseShift cases) 0 outer l := by
  obtain ⟨t, hpasses⟩ := word_passes [.word "SELECT"] he hahead rfl
  have hnot :=
    takeKeyword_not (s := s.moved 1) hahead.tail (show Token.isKeyword _ "IF" = false from rfl)
  have htake := takeKeyword_gives (s := s.moved 1) hahead.tail
  obtain ⟨s₁, hclosed, hleaves₁⟩ := closeBlock_leaves tokens ((h.moved 1).moved 1) hfloors hblocks
    (show BlockForm.kind (.selection value cases hasElse) = .selection from rfl) nofun t
  have hindent₁ := hleaves₁.went.indent_eq hindent
  have hmoved := (Reached.moved (h.moved 1) 1).leaves.trans hleaves₁
  cases cases with
  | zero =>
    obtain ⟨s₂, hclose, hleaves₂⟩ := closeLine_leaves tokens hleaves₁.tracks "\x7d" rfl
      (hindent₁.trans (Int.add_zero _))
    exact ⟨_, hpasses (hnot.bind (htake.bind (hclosed.bind hclose)))
      ((hmoved.trans hleaves₂).of_eq rfl rfl rfl rfl hleaves₁.blocks)⟩
  | succ n =>
    obtain ⟨s₂, hclose, hleaves₂⟩ := closeLine_leaves tokens hleaves₁.tracks "\x7d" rfl hindent₁
    have hindent₂ : s₂.page.indent = (depth : Int) + 1 := by
      rw [hleaves₂.went.indent, hindent₁, caseShift, if_neg (Nat.succ_ne_zero n)]
      omega
    obtain ⟨s₃, hclose', hleaves₃⟩ := closeLine_leaves tokens hleaves₂.tracks "\x7d" rfl hindent₂
    exact ⟨_, hpasses (hnot.bind (htake.bind (hclosed.bind (hclose.bind hclose'))))
      (((hmoved.trans hleaves₂).trans hleaves₃).of_eq rfl rfl rfl rfl
        (hleaves₂.blocks.trans hleaves₁.blocks))⟩

end BasicScript
