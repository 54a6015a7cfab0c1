import BasicScript.Proofs.Between

/-!
# Block statements that are rejected

A statement that opens, turns or closes a block reads all it needs before it writes a line or
touches a block.  So its handler is a quiet action, which may reject the statement, and behind it
one that cannot (`Accepts`); where it rejects, only quiet events happened (`RejectsEarly`).  Quiet
events change neither the page nor the blocks, and there are as many scopes as blocks of procedures.

* `rejected_block_statement_unseen`: a block statement that is rejected leaves the blocks, the
  number of scopes, the lines and the indentation as they were; and every statement, however it
  ends, leaves the floors of the single-line `IF`s around it as they were.
-/

namespace BasicScript

open Lexer Emit

variable {tape : Tape} {s s' : State} {α β : Type} {statement inner : Emit Bool}
    {token : Token} {collector : Collector}
  {depth : Nat}

/-! ### Actions that cannot reject -/

/-- An action that never rejects the statement at hand. -/
def Accepts (x : Emit α) : Prop := ∀ tokens s r s', x tokens s ≠ .error (.rejected r) s'

namespace Accepts

variable {x : Emit α} {f : α → Emit β}

theorem of_ok (h : ∀ tokens s, ∃ a s', x tokens s = .ok a s') : Accepts x := by
  intro tokens s r s' heq
  obtain ⟨a, s₁, hok⟩ := h tokens s
  rw [hok] at heq
  cases heq

theorem pure (a : α) : Accepts (Pure.pure a : Emit α) := .of_ok fun _ s => ⟨a, s, rfl⟩

theorem modify (f : State → State) : Accepts (modify f : Emit Unit) :=
  .of_ok fun _ s => ⟨(), f s, rfl⟩

theorem fail (fault : Fault) : Accepts (Emit.fail fault : Emit α) := by
  intro tokens s r s' heq
  have hfault : (.fault fault : Failure) = .rejected r := (EStateM.Result.error.inj heq).1
  cases hfault

theorem get {f : State → Emit α} (h : ∀ s, Accepts (f s)) : Accepts (MonadState.get >>= f) :=
  fun tokens s => h s tokens s

theorem bind (h : Accepts x) (h' : ∀ a, Accepts (f a)) : Accepts (x >>= f) := by
  intro tokens s r s' heq
  cases hx : x tokens s with
  | ok a s₁ =>
    rw [bind_ok hx] at heq
    exact h' a tokens s₁ r s' heq
  | error failure s₁ =>
    rw [bind_error hx] at heq
    cases heq
    exact h tokens s r s' hx

end Accepts

/-! ### Lines and blocks -/

theorem scopes_accepts {f : Scopes → Emit α} (h : ∀ scopes, Accepts (f scopes)) :
    Accepts (scopes >>= f) :=
  .get fun s => h s.scopes

/-- A procedure whose scope is gone is a fault, and no rejection. -/
theorem finishProcedure_accepts (block : Block) : Accepts (finishProcedure block) := by
  have hclose : Accepts (do
      let popped ← ofExcept (← scopes).pop
      onScopes fun _ => popped.2
      closeLine "\x7d" : Emit Unit) := by
    refine scopes_accepts fun scopes => ?_
    cases scopes.pop with
    | ok popped =>
      exact (Accepts.pure popped).bind fun _ => (Accepts.modify _).bind fun _ => .modify _
    | error fault =>
      exact (Accepts.fail fault).bind fun _ => (Accepts.modify _).bind fun _ => .modify _
  refine scopes_accepts fun scopes => ?_
  have hinsert : Accepts (do
      unless scopes.current.hoisted.isEmpty do
        onPage (·.insert scopes.current.mark scopes.current.hoisted scopes.current.indent)
      let popped ← ofExcept (← Emit.scopes).pop
      onScopes fun _ => popped.2
      closeLine "\x7d" : Emit Unit) := by
    dsimp only
    split
    · exact hclose
    · exact (Accepts.modify _).bind fun _ => hclose
  dsimp only
  split
  · exact (Accepts.modify _).bind fun _ => hinsert
  · exact hinsert

theorem finishBlock_accepts (block : Block) : Accepts (finishBlock block) := by
  unfold finishBlock
  split
  · exact finishProcedure_accepts block
  · exact finishProcedure_accepts block
  · dsimp only
    split
    · exact (Accepts.modify _).bind fun _ => .modify _
    · exact .modify _
  · exact .modify _
  · exact .modify _

theorem abandonBlocks_accepts (count : Nat) : Accepts (abandonBlocks count) := by
  induction count with
  | zero => exact .pure ()
  | succ count ih =>
    refine .get fun s => ?_
    split
    · exact .pure ()
    · refine (Accepts.modify _).bind fun _ => (Accepts.modify _).bind fun _ => ?_
      exact (finishBlock_accepts _).bind fun _ => ih

/-- Without a block to close the statement is reported, and not rejected. -/
theorem closeBlock_accepts (kind : BlockKind) (closer : Token) :
    Accepts (closeBlock kind closer) := by
  have hdrop : ∀ inside, Accepts (do
      abandonBlocks inside
      let block := (← get).blocks.head?
      dropBlock true
      return block : Emit (Option Block)) := fun _ =>
    (abandonBlocks_accepts _).bind fun _ => .get fun _ => (Accepts.modify _).bind fun _ => .pure _
  refine .get fun s => ?_
  dsimp only
  split
  · refine (Accepts.pure _).bind fun floor => ?_
    split
    · exact (Accepts.modify _).bind fun _ => .pure none
    · exact hdrop _
  · refine .get fun _ => .get fun _ => ?_
    split
    · exact (Accepts.modify _).bind fun _ => .pure none
    · exact hdrop _

theorem endCounting_accepts (token : Token) (names : List (Option Token)) :
    Accepts (endCounting token names) := by
  induction names with
  | nil => exact .pure ()
  | cons name names ih =>
    refine (closeBlock_accepts _ _).bind fun block => ?_
    cases block with
    | none => exact .pure ()
    | some block =>
      have hfinish : Accepts (do finishBlock block; endCounting token names) :=
        (finishBlock_accepts block).bind fun _ => ih
      cases name with
      | none => exact hfinish
      | some name =>
        refine .bind (scopes_accepts fun _ => .pure _) fun v => ?_
        dsimp only
        split
        · exact hfinish
        · exact (Accepts.modify _).bind fun _ => hfinish

theorem closeStatement_accepts (kind : BlockKind) (token : Token) :
    Accepts (closeStatement kind token) := by
  refine (closeBlock_accepts kind token).bind fun block => ?_
  cases block with
  | none => exact .pure ()
  | some block => exact finishBlock_accepts block

theorem emitEnd_accepts : Accepts emitEnd := by
  refine scopes_accepts fun scopes => ?_
  split
  · exact .modify _
  · exact .modify _

theorem caseLine_accepts (cases : Nat) (test : Option String) : Accepts (caseLine cases test) := by
  unfold caseLine
  split
  · split
    · exact .modify _
    · exact .modify _
  · split
    · exact .modify _
    · exact .modify _

theorem declareParameters_accepts (list : List Parameter) : Accepts (declareParameters list) := by
  induction list with
  | nil => exact .pure ()
  | cons p list ih =>
    exact .bind (scopes_accepts fun _ => (Accepts.modify _).bind fun _ => .pure _) fun _ => ih

theorem introduce_accepts (name : String) (v : Variable) (origin : Origin)
    (text : String) (atTop : Bool) : Accepts (introduce name v origin text atTop) := by
  refine .bind (scopes_accepts fun _ => (Accepts.modify _).bind fun _ => .pure _) fun ref => ?_
  refine .bind ((Accepts.modify _).bind fun _ => ?_) fun _ => .pure ref
  split
  · exact .modify _
  · exact .modify _

theorem openScope_accepts (kind : ProcedureKind) (name : String)
    (form : BlockForm) (token : Token) : Accepts (openScope kind name form token) := by
  refine .get fun s => (Accepts.modify _).bind fun _ => ?_
  exact (Accepts.modify _).bind fun _ => .get fun _ => .modify _

theorem headerProcedure_accepts (kind : ProcedureKind) (name : String) (parameters : Nat) :
    Accepts (headerProcedure kind name parameters) := by
  refine .get fun s => ?_
  split
  · exact .pure _
  · exact (Accepts.modify _).bind fun _ => .pure _

/-! ### Handlers -/

/-- An action that rejects the statement at hand only while it is quiet. -/
def RejectsEarly (tape : Tape) (s : State) (x : Emit α) : Prop :=
  Sound tape s → ∀ r s', x tape.tokens s = .error (.rejected r) s' → Path tape .quiet s s'

namespace RejectsEarly

variable {x : Emit α} {f : α → Emit β} {Q : α → State → Prop}

theorem of_quiet (h : Does tape .quiet s x Q) : RejectsEarly tape s x := by
  intro hs r s' heq
  have hmeets := (h hs).1
  rw [heq] at hmeets
  exact hmeets.1

theorem of_accepts (h : Accepts x) : RejectsEarly tape s x :=
  fun _ r s' heq => absurd heq (h tape.tokens s r s')

/-- Behind a quiet action the next one may reject too. -/
theorem bind (h : Does tape .quiet s x Q)
    (h' : ∀ a s', Grows s s' → Q a s' → RejectsEarly tape s' (f a)) :
    RejectsEarly tape s (x >>= f) := by
  intro hs r s' heq
  have hmeets := (h hs).1
  cases hx : x tape.tokens s with
  | ok a s₁ =>
    rw [hx] at hmeets
    rw [bind_ok hx] at heq
    exact hmeets.1.trans (h' a s₁ hmeets.1.grows hmeets.2 (hmeets.1.sound hs) r s' heq)
  | error failure s₁ =>
    rw [hx] at hmeets
    rw [bind_error hx] at heq
    cases heq
    exact hmeets.1

/-- Behind a quiet action comes one that cannot reject. -/
theorem quietly (h : Does tape .quiet s x Q) (h' : ∀ a, Accepts (f a)) :
    RejectsEarly tape s (x >>= f) :=
  .bind h fun a _ _ _ => .of_accepts (h' a)

/-- What comes behind an action cannot reject. -/
theorem followed (h : RejectsEarly tape s x) (h' : ∀ a, Accepts (f a)) :
    RejectsEarly tape s (x >>= f) := by
  intro hs r s' heq
  cases hx : x tape.tokens s with
  | ok a s₁ =>
    rw [bind_ok hx] at heq
    exact absurd heq (h' a tape.tokens s₁ r s')
  | error failure s₁ =>
    rw [bind_error hx] at heq
    cases heq
    exact h hs r s' hx

theorem get {f : State → Emit α} (h : RejectsEarly tape s (f s)) :
    RejectsEarly tape s (MonadState.get >>= f) := h

end RejectsEarly

/-- Behind a look the action may reject. -/
theorem Sees.rejectsEarly {x : Emit α} {f : α → Emit β} {φ : α → Prop} (h : Sees tape s x φ)
    (h' : ∀ a, φ a → RejectsEarly tape s (f a)) : RejectsEarly tape s (x >>= f) := by
  refine .bind h.does fun a s' _ hq => ?_
  obtain ⟨rfl, ha⟩ := hq
  exact h' a ha

section Handlers

theorem elseIfStatement_rejectsEarly (ht : tape.OnLine s token) :
    RejectsEarly tape s (elseIfStatement token) := by
  refine topForm_sees.rejectsEarly fun form _ => ?_
  split
  · rename_i hasElse
    extract_lets test
    have htest : ∀ s', RejectsEarly tape s' (test ()) := by
      intro s'
      refine .bind expression_does fun condition _ _ _ => ?_
      refine .bind takeKeyword_does fun _ s₂ _ _ => ?_
      extract_lets turn
      split
      · exact .of_accepts (.modify _)
      · refine current_sees.rejectsEarly fun here _ => ?_
        exact .of_accepts ((Accepts.modify _).bind fun _ => .modify _)
    split
    · exact .bind (reportAt_does ht.mem (.of_letters rfl rfl)) fun _ s' _ _ => htest s'
    · exact htest s
  · exact .of_quiet (rejectAt_does (Q := fun _ _ => True) ht (.of_letters rfl rfl))

theorem elseStatement_rejectsEarly (ht : tape.OnLine s token) :
    RejectsEarly tape s (elseStatement token) := by
  refine topForm_sees.rejectsEarly fun form _ => ?_
  split
  · have hturn : Accepts (do setTopForm (.condition true); turnLine "\x7d else \x7b" : Emit Unit) :=
      (Accepts.modify _).bind fun _ => .modify _
    dsimp only
    split
    · exact .of_accepts ((Accepts.modify _).bind fun _ => hturn)
    · exact .of_accepts hturn
  · exact .of_quiet (rejectAt_does (Q := fun _ _ => True) ht (.of_letters rfl rfl))

theorem forStatement_rejectsEarly : RejectsEarly tape s (forStatement token) := by
  refine .bind expectName_does fun name s₁ _ ⟨hname, _⟩ => ?_
  refine lookup_finds.rejectsEarly fun found ⟨hfind, _⟩ => ?_
  extract_lets header
  have hheader : ∀ v s', RejectsEarly tape s' (header v) := by
    intro v s'
    refine .bind expectOperator_does fun _ _ _ _ => ?_
    refine .bind expression_does fun start _ _ _ => ?_
    refine .bind expectKeyword_does fun _ _ _ _ => ?_
    refine .bind expression_does fun stop _ _ _ => ?_
    refine .bind takeKeyword_does fun _ _ _ _ => ?_
    extract_lets write
    have hwrite : ∀ step, Accepts (write step) := fun step =>
      (Accepts.modify _).bind fun _ => .modify _
    split
    · exact .quietly expression_does hwrite
    · exact .of_accepts (hwrite "1")
  cases found with
  | some v => exact hheader v s₁
  | none =>
    exact .bind (implicitVariable_does (.word hname) hfind.symm) fun v s' _ _ => hheader v s'

theorem nextStatement_rejectsEarly : RejectsEarly tape s (nextStatement token) := by
  refine atKind_sees.rejectsEarly fun _ _ => ?_
  split
  · have hnames : Does tape .quiet s (commaList (expectName "loop variable")) fun list _ =>
        ∀ a ∈ list, a ∈ tape.tokens :=
      commaList_does (· ∈ tape.tokens) fun _ _ => expectName_does.mono fun _ _ _ h => h.1.mem
    exact .quietly hnames fun _ => endCounting_accepts _ _
  · exact .of_accepts (endCounting_accepts _ _)

theorem doStatement_rejectsEarly : RejectsEarly tape s (doStatement token) := by
  refine .quietly loopCondition?_does fun condition => ?_
  cases condition <;> exact (Accepts.modify _).bind fun _ => .modify _

theorem loopStatement_rejectsEarly : RejectsEarly tape s (loopStatement token) := by
  refine .quietly loopCondition?_does fun condition => (closeBlock_accepts _ _).bind fun block => ?_
  cases block with
  | none => exact .pure ()
  | some block =>
    dsimp only
    split
    · exact .modify _
    · exact (Accepts.modify _).bind fun _ => finishBlock_accepts _
    · exact finishBlock_accepts _

theorem whileStatement_rejectsEarly : RejectsEarly tape s (whileStatement token) :=
  .quietly expression_does fun _ => (Accepts.modify _).bind fun _ => .modify _

theorem selectStatement_rejectsEarly : RejectsEarly tape s (selectStatement token) := by
  refine .bind expectKeyword_does fun _ _ _ _ => ?_
  refine .quietly expression_does fun selector => ?_
  refine .bind ((Accepts.modify _).bind fun _ => .get fun _ => .pure _) fun value => ?_
  exact (Accepts.modify _).bind fun _ => (Accepts.modify _).bind fun _ => .modify _

theorem caseStatement_rejectsEarly (ht : tape.OnLine s token) :
    RejectsEarly tape s (caseStatement token) := by
  intro hs
  refine topForm_sees.rejectsEarly (fun form hform => ?_) hs
  split
  · rename_i value cases hasElse
    obtain ⟨block, hblock, hvalue⟩ := Option.map_eq_some_iff.1 (hform _ rfl).2
    have hword := (hs.blocks block (List.mem_of_head? hblock)).value _ _ _ hvalue
    extract_lets test
    have htest : ∀ s', RejectsEarly tape s' (test ()) := by
      intro s'
      refine .bind takeKeyword_does fun _ s₁ _ _ => ?_
      split
      · exact .of_accepts ((caseLine_accepts _ _).bind fun _ => .modify _)
      · refine .quietly (commaList_does Script.Inner fun _ _ => caseTest_does hword) fun tests => ?_
        exact (caseLine_accepts _ _).bind fun _ => .modify _
    split
    · exact .bind (reportAt_does ht.mem (.of_letters rfl rfl)) fun _ s' _ _ => htest s'
    · exact htest s
  · exact .of_quiet (rejectAt_does (Q := fun _ _ => True) ht (.of_letters rfl rfl))

/-- `END`, with what it ends or alone. -/
theorem endKeyword_rejectsEarly (ht : tape.OnLine s token) :
    RejectsEarly tape s (endKeyword token) := by
  have htake : ∀ {s word} {x y : Emit Unit}, tape.OnLine s token →
      (∀ s', tape.OnLine s' token → RejectsEarly tape s' x) →
        (∀ s', tape.OnLine s' token → RejectsEarly tape s' y) →
      RejectsEarly tape s (do if ← takeKeyword word then x else y) := by
    intro s word x y h hx hy
    have hword : Does tape .quiet s (takeKeyword word) (Took s) := takeKeyword_does
    refine .bind (hword.onLine nofun h) fun _ s' _ h' => ?_
    split
    · exact hx s' h'.1
    · exact hy s' h'.1
  have hclose kind s' (_ : tape.OnLine s' token) :
      RejectsEarly tape s' (closeStatement kind token) :=
    .of_accepts (closeStatement_accepts kind token)
  refine htake ht (hclose _) fun _ h₁ => ?_
  refine htake h₁ (hclose _) fun _ h₂ => ?_
  refine htake h₂ (hclose _) fun _ h₃ => ?_
  refine htake h₃ (hclose _) fun _ h₄ => ?_
  refine htake h₄
    (fun _ h => .of_quiet (rejectAt_does (Q := fun _ _ => True) h (.of_letters rfl rfl)))
      fun _ h₅ => ?_
  refine htake h₅
    (fun _ h => .of_quiet (rejectAt_does (Q := fun _ _ => True) h (.of_letters rfl rfl)))
      fun _ _ => ?_
  refine atStatementEnd_sees.rejectsEarly fun _ _ => ?_
  dsimp only
  split
  · exact .of_accepts emitEnd_accepts
  · exact .quietly expression_does fun _ => emitEnd_accepts

/-- A header is read to its end before the blocks around it are given up. -/
theorem procedureStatement_rejectsEarly {kind : ProcedureKind} (ht : tape.OnLine s token) :
    RejectsEarly tape s (procedureStatement kind token) := by
  refine .get ?_
  extract_lets header
  split
  · refine .bind expectName_does fun name _ _ _ => ?_
    refine .bind parameters_does fun list _ _ _ => ?_
    refine .bind typeSpec?_does fun given _ _ _ => ?_
    refine .quietly takeKeyword_does fun _ => ?_
    refine .bind (.get fun _ => abandonBlocks_accepts _) fun _ => ?_
    refine (headerProcedure_accepts _ _ _).bind fun procedure => ?_
    refine .bind ((Accepts.modify _).bind fun _ => .modify _) fun _ => ?_
    cases kind with
    | sub => exact (openScope_accepts _ _ _ _).bind fun _ => declareParameters_accepts list
    | function =>
      refine (openScope_accepts _ _ _ _).bind fun _ =>
        (declareParameters_accepts list).bind fun _ => ?_
      exact (introduce_accepts _ _ _ _ _).bind fun _ => .pure ()
  · refine .of_quiet (rejectAt_bind (Q := fun _ _ => True) ht ?_)
    cases kind <;> exact .of_letters (text_append rfl) rfl

/-- The `IF` of a block: the line ends behind its condition. -/
theorem ifStatement_rejectsEarly
    (hblock : ∀ condition s', ifCondition tape.tokens s = .ok condition s' →
      atLineEnd tape.tokens s' ≠ .ok false s') :
    RejectsEarly tape s (ifStatement statement token) := by
  refine .bind (ifCondition_does.also hblock) fun condition s₁ _ ⟨_, hend⟩ hs₁ => ?_
  obtain ⟨isBlock, hsees, -⟩ := atLineEnd_sees hs₁
  rw [bind_ok (of_below hsees)]
  cases isBlock with
  | false => exact absurd (of_below hsees) hend
  | true => exact RejectsEarly.of_accepts ((Accepts.modify _).bind fun _ => .modify _) hs₁

end Handlers

/-! ### Statements -/

/-- The keywords of the statements that open, turn or close a block. -/
def blockWords : List String :=
  ["IF", "ELSEIF", "ELSE", "END", "FOR", "NEXT", "DO", "LOOP", "WHILE", "WEND", "SELECT",
    "CASE", "SUB", "FUNCTION"]

/-- The verbs of these statements. -/
def Verb.shapesBlocks : Verb → Bool
  | ifThen | elseIf | elseBranch | ends | counts | next | repeats | loops | whiles | closing _
  | selects | cases
  | procedure _ => true
  | _ => false

theorem Verb.exists_shapesBlocks {word : String} (h : word ∈ blockWords) :
    ∃ verb, ofWord? word = some verb ∧ verb.shapesBlocks = true ∧
      (verb = ifThen → word = "IF") := by
  have hwords : ∀ word ∈ blockWords, (ofWord? word).any (fun verb =>
      verb.shapesBlocks && (decide (verb ≠ ifThen) || decide (word = "IF"))) = true := by decide
  have hword := hwords word h
  cases hverb : ofWord? word with
  | none => simp [hverb] at hword
  | some verb =>
    rw [hverb, Option.any_some, Bool.and_eq_true, Bool.or_eq_true, decide_eq_true_eq,
      decide_eq_true_eq] at hword
    exact ⟨verb, rfl, hword.1, fun hif => hword.2.resolve_left (not_not_intro hif)⟩

theorem Verb.run_rejectsEarly {verb : Verb} (hshapes : verb.shapesBlocks = true)
    (ht : tape.OnLine s token)
    (hblock : verb = .ifThen → ∀ condition s', ifCondition tape.tokens s = .ok condition s' →
      atLineEnd tape.tokens s' ≠ .ok false s') :
    RejectsEarly tape s (verb.run statement token) := by
  cases verb with
  | ifThen => exact ifStatement_rejectsEarly (hblock rfl)
  | elseIf => exact elseIfStatement_rejectsEarly ht
  | elseBranch => exact elseStatement_rejectsEarly ht
  | ends => exact endKeyword_rejectsEarly ht
  | counts => exact forStatement_rejectsEarly
  | next => exact nextStatement_rejectsEarly
  | repeats => exact doStatement_rejectsEarly
  | loops => exact loopStatement_rejectsEarly
  | whiles => exact whileStatement_rejectsEarly
  | closing kind => exact .of_accepts (closeStatement_accepts kind token)
  | selects => exact selectStatement_rejectsEarly
  | cases => exact caseStatement_rejectsEarly ht
  | procedure kind => exact procedureStatement_rejectsEarly ht
  | _ => cases hshapes

theorem statementOver_rejectsEarly (ht : tape.Under s token)
    (hk : token.kind = .keyword) (hword : token.text ∈ blockWords)
    (hblock : token.text = "IF" → ∀ s', ¬EntersIf tape.tokens s s') :
    RejectsEarly tape s (statementOver inner) := by
  obtain ⟨verb, hverb, hshapes, hif⟩ := Verb.exists_shapesBlocks hword
  have hends : token.endsLine = false := by simp [Token.endsLine, hk]
  intro hs
  refine current_sees.rejectsEarly (fun here hunder => ?_) hs
  obtain rfl : here = token := Option.some.inj (hunder.symm.trans ht)
  simp only [hk, hverb]
  have hmoves : Does tape .quiet s advance _ := advance_from ht hends
  refine .bind (hmoves.also (R := fun t s' => advance tape.tokens s = .ok t s') fun _ _ h => h) ?_
  rintro t s₁ _ ⟨⟨heq, hpos⟩, hadvance⟩ hs₁
  subst heq
  refine RejectsEarly.followed (Verb.run_rejectsEarly hshapes (ht.behind hends hs hs₁ hpos) ?_)
    (fun _ => .pure _) hs₁
  intro hverb' condition s₂ hcondition hend
  refine hblock (hif hverb') _ ⟨t, s₁, condition, s₂, _, hadvance, ?_, hcondition, hend, rfl, rfl⟩
  simp [Token.isKeyword, hk, hif hverb']

theorem Path.unseen (h : Path tape .quiet s s') (hs : Sound tape s) :
    s'.blocks = s.blocks ∧ s'.scopes.inner.length = s.scopes.inner.length ∧ s'.page = s.page := by
  refine ⟨h.still.blocks, ?_, h.still.page⟩
  rw [hs.framed.count, (h.sound hs).framed.count, h.still.blocks]

/-! ### Floors -/

theorem atTurn_of_beginsTurn (h : BeginsTurn tape.tokens collector s) : AtTurn tape s := by
  obtain ⟨start, hannounce, hruns⟩ := h
  have hdoes : Does tape .full { collector } announce fun _ => Unwritten { collector } :=
    announce_does
  obtain ⟨hpath, hunwritten⟩ := hdoes.of_ok (sound_start tape collector) hannounce
  have hsound := hpath.sound (sound_start tape collector)
  have hturn : AtTurn tape start := atTurn_of_announced hpath hunwritten
  clear hdoes hannounce hpath hunwritten
  induction hruns with
  | refl => exact hturn
  | turn hgives _ _ ih =>
    obtain ⟨hpath, -, hnext⟩ := (statementTurn_does hturn).of_ok hsound hgives
    exact ih (hpath.sound hsound) hnext

/-- Only at a turn of the loop over statements is no single-line `IF` around the statement. -/
theorem Between.atTurn (h : Between tape.tokens collector depth s) (hfloors : s.floors = []) :
    AtTurn tape s := by
  cases h with
  | turn h => exact atTurn_of_beginsTurn h
  | branch h henter =>
    obtain ⟨-, rest, hrest⟩ := (Begun.of_between h).enter henter
    exact absurd (hrest.symm.trans hfloors) nofun
  | again h hinside hagain =>
    have hbegun := Begun.of_between h
    have hsteps := statementTo_steps (.inl rfl) _ hbegun.levels
    have hpath := ((inlineTurn_does hsteps (Int.le_refl _) hinside).of_ok hbegun.sound hagain).1
    exact absurd (hpath.grows.floors.symm.trans hfloors) hinside
  | elseBranch h henter hfirst htaken habandon hturn =>
    exact absurd hfloors ((Begun.of_between h).second henter hfirst htaken habandon hturn).2

/-- Where a statement ends, none can begin. -/
theorem statementOver_ends (ht : tape.Under s token) (hend : endsData token = true) :
    Acts tape .quiet s (statementOver inner) := by
  refine current_sees.bind fun here hunder => ?_
  obtain rfl : here = token := Option.some.inj (hunder.symm.trans ht)
  have hkind : here.kind = .newline ∨ here.kind = .endOfInput ∨ here.kind = .punctuation := by
    simp only [endsData, Token.endsLine, Bool.or_eq_true, decide_eq_true_eq] at hend
    rcases hend with (hline | hinput) | hmark
    · exact .inl hline
    · exact .inr (.inl hinput)
    · exact .inr (.inr (Token.kind_of_isMark hmark))
  rcases hkind with hk | hk | hk <;> simp only [hk] <;>
    exact rejectHere_does (Apart.append (.of_letters rfl rfl))

/-- However a statement ends, its events are a run. -/
theorem Between.path_of_statementTo (h : Between tape.tokens collector depth s) :
    (∀ needsEnd s', statementTo depth tape.tokens s = .ok needsEnd s' → Path tape .full s s') ∧
      ∀ failure s', statementTo depth tape.tokens s = .error failure s' → Path tape .full s s' := by
  have hbegun := Begun.of_between h
  have hmeets : ∃ Q, Meets tape .full s Q (statementTo depth tape.tokens s) := by
    obtain ⟨token, ht⟩ := hbegun.sound.exists_under
    cases hend : endsData token with
    | false =>
      have hstarts : s.floors = [] → Starts tape s :=
        fun hfloors => (h.atTurn hfloors).starts ht hend
      exact ⟨_,
        (statementTo_steps (.inl rfl) depth hbegun.levels s (Int.le_refl _) hstarts hbegun.sound).1⟩
    | true =>
      obtain ⟨depth, rfl⟩ : ∃ d, depth = d + 1 := by
        have hlevels := hbegun.levels
        have hlt := hbegun.sound.position_lt
        exact ⟨depth - 1, by omega⟩
      exact ⟨_, ((statementOver_ends ht hend).loud hbegun.sound).1⟩
  obtain ⟨Q, hmeets⟩ := hmeets
  constructor
  · intro needsEnd s' heq
    rw [heq] at hmeets
    exact hmeets.1
  · intro failure s' heq
    rw [heq] at hmeets
    exact hmeets.1

/-- **A block statement that is rejected leaves no trace.**  Wherever a statement of a source can
begin, one that opens, turns or closes a block, and is no single-line `IF`, leaves the open blocks,
the number of scopes and the page with its indentation as they were if it is rejected.  Every
statement, whether it is rejected, fails or comes to its end, leaves the floors of the single-line
`IF`s around it as they were. -/
theorem rejected_block_statement_unseen (source : String) (hread : (scan source).fault = none)
    (collector : Collector) (depth : Nat) (s : State)
    (hbetween : Between (scan source).tokens.toArray collector depth s) :
    (∀ token, current (scan source).tokens.toArray s = .ok token s → token.kind = .keyword →
      token.text ∈ blockWords →
      (token.text = "IF" → ∀ s', ¬EntersIf (scan source).tokens.toArray s s') →
      ∀ r s', statementTo depth (scan source).tokens.toArray s = .error (.rejected r) s' →
        s'.blocks = s.blocks ∧ s'.scopes.inner.length = s.scopes.inner.length ∧ s'.page = s.page) ∧
    (∀ needsEnd s', statementTo depth (scan source).tokens.toArray s = .ok needsEnd s' →
      s'.floors = s.floors) ∧
    ∀ failure s', statementTo depth (scan source).tokens.toArray s = .error failure s' →
      s'.floors = s.floors := by
  generalize htape : Tape.ofSource source hread = tape
  have htokens : (scan source).tokens.toArray = tape.tokens := htape ▸ rfl
  rw [htokens] at hbetween ⊢
  have hbegun := Begun.of_between hbetween
  have hpaths := hbetween.path_of_statementTo
  refine ⟨fun token hcurrent hk hword hblock r s' heq => ?_, fun needsEnd s' heq =>
    (hpaths.1 needsEnd s' heq).grows.floors, fun failure s' heq =>
    (hpaths.2 failure s' heq).grows.floors⟩
  obtain ⟨here, hsees, hunder⟩ := current_sees hbegun.sound
  cases (of_below hsees).symm.trans hcurrent
  cases depth with
  | zero => cases heq
  | succ depth =>
    exact (statementOver_rejectsEarly hunder hk hword hblock hbegun.sound r s' heq).unseen
      hbegun.sound

/-- The token, the kinds of the open blocks and the names in scope in front of a turn whose
statement is rejected, and the names in scope behind it. -/
def rejectedAt? (source : String) (turns : Nat) : Option (Token × List BlockKind × Nat × Nat) :=
  let tokens := (scan source).tokens.toArray
  (turnAt? source turns).bind fun s =>
    match current tokens s, statementTo (tokens.size + 1) tokens s with
    | .ok token _, .error (.rejected _) s' =>
      some (token, s.blocks.map Block.kind, s.scopes.cells.size, s'.scopes.cells.size)
    | _, _ => none

/-- A loop without its last bound, in a block of a function. -/
def boundlessLoop : String := "FUNCTION f\nIF x THEN\nFOR y = 1 TO"

/-- The loop variable was declared before the loop was rejected, but no line was written. -/
theorem boundless_loop_unseen :
    ∃ s r s', Between (scan boundlessLoop).tokens.toArray {}
        ((scan boundlessLoop).tokens.toArray.size + 1) s ∧
      statementTo ((scan boundlessLoop).tokens.toArray.size + 1)
        (scan boundlessLoop).tokens.toArray s = .error (.rejected r) s' ∧
      s.blocks.map Block.kind = [.condition, .procedure .function] ∧
      s.scopes.cells.size < s'.scopes.cells.size ∧
      s'.blocks = s.blocks ∧ s'.scopes.inner.length = s.scopes.inner.length ∧ s'.page = s.page ∧
      s'.floors = s.floors := by
  have hrejected : rejectedAt? boundlessLoop 4 =
      some (⟨.keyword, "FOR", 3, 1⟩, [.condition, .procedure .function], 2, 3) := by decide +kernel
  obtain ⟨s, hturn, hs⟩ := Option.bind_eq_some_iff.1 hrejected
  have hbetween := between_of_turnAt? hturn
  split at hs
  case h_2 => cases hs
  rename_i token s₁ r s' hcurrent hstatement
  obtain ⟨rfl, hblocks, hbefore, hbehind⟩ : token = ⟨.keyword, "FOR", 3, 1⟩ ∧
      s.blocks.map Block.kind = [.condition, .procedure .function] ∧ s.scopes.cells.size = 2 ∧
      s'.scopes.cells.size = 3 := by
    simpa using hs
  obtain ⟨hunseen, -, hfloors⟩ :=
    rejected_block_statement_unseen boundlessLoop (by decide +kernel) {} _ s hbetween
  obtain rfl := current_eq hcurrent
  obtain ⟨hsame, hscopes, hpage⟩ :=
    hunseen _ hcurrent rfl (by decide) (fun hif => absurd hif (by decide)) r s' hstatement
  exact ⟨_, r, s', hbetween, hstatement, hblocks,
    by omega, hsame, hscopes, hpage, hfloors _ s' hstatement⟩

end BasicScript
