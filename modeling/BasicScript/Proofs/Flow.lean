import BasicScript.Proofs.Declaration

/-!
# Control flow

What the statements for conditions, loops and selections do.  A block is opened, turned and ended by
one event each.  The branches of a single-line `IF` are a run of their own inside it: however they
end, the blocks inside are given up and the `IF` is left (`inlineBranches_does`).
-/

namespace BasicScript

open Emit Script

variable {tape : Tape} {level : Level} {s s₁ s' : State} {p : Int}
    {message condition value : String}
  {statement : Emit Bool} {x : Emit Unit} {α : Type} {form : BlockForm} {kind : BlockKind}

/-! ### Single-line conditions -/

/-- The announcements see a header at the cursor, if there is one, or an error was reported. -/
def Starts (tape : Tape) (s : State) : Prop :=
  HasError s.collector.toList ∨ tape.Free s.position.toNat

/-- From a place on, an action uses up tokens.  Outside of single-line `IF`s it begins where the
announcements see headers, and another statement can follow directly only at such a place. -/
def Steps (tape : Tape) (level : Level) (p : Int) (x : Emit Bool) : Prop :=
  ∀ s : State, p ≤ s.position → (s.floors = [] → Starts tape s) →
    Does tape level s x fun needsEnd s' =>
      s.position < s'.position ∧ (needsEnd = false → s.floors = [] → Starts tape s')

/-- One turn of the loop over the statements of a branch. -/
theorem inlineTurn_does (hst : Steps tape level p statement) (hp : p ≤ s.position)
    (hfloors : s.floors ≠ []) :
    Does tape level s (inlineTurn statement ())
      (Does.Turned s (fun _ _ => True) fun _ _ => True) := by
  refine atLineEnd_sees.bind fun _ _ => ?_
  split
  · exact .pure trivial
  refine atKeyword_sees.bind fun _ _ => ?_
  split
  · exact .pure trivial
  refine takeMark_does.bind fun b s₁ hg₁ hb => ?_
  split
  · exact .pure ⟨hb.1 ‹_›, trivial⟩
  have hpos₁ := hg₁.position
  have hinside : s₁.floors = [] → Starts tape s₁ :=
    fun h => absurd (hg₁.floors.symm.trans h) hfloors
  refine (hst s₁ (by omega) hinside).bind fun _ s₂ _ ⟨hlt, _⟩ => ?_
  extract_lets jp
  split
  · exact endStatement_does.bind fun _ s₃ hg₃ _ => .pure ⟨by have := hg₃.position; omega, trivial⟩
  · exact .pure ⟨by omega, trivial⟩

theorem inlineBranch_does (hl : level ≠ .quiet) (hst : Steps tape level p statement)
    (hp : p ≤ s.position) (hfloors : s.floors ≠ []) :
    Acts tape level s (inlineBranch statement) := by
  refine atKind_sees.bind fun b ⟨token, ht, hb⟩ => ?_
  split
  · refine (advance_label ht ?_).bind fun label _ _ h => (emitGoto_does h).rise hl
    simp [Token.isLabel, hb.1 ‹_›]
  · refine .loop (fun _ _ => True) trivial fun _ s₁ hg₁ _ => ?_
    exact inlineTurn_does hst (Int.le_trans hp hg₁.position) (by rwa [hg₁.floors])

/-- A state inside a single-line `IF` that began in state `s`: from here a run leads to its end. -/
structure Within (tape : Tape) (level : Level) (s s₁ : State) : Prop where
  sound : Sound tape s₁
  floors : s₁.floors = s.blocks.length :: s.floors
  leads : ∀ s₂, Path tape level s₁ s₂ → Event.leaves.Fits tape s₂ →
    Path tape level s (Event.leaves.apply s₂)

namespace Within

theorem after {s₂ : State} (h : Within tape level s s₁) (hpath : Path tape level s₁ s₂) :
    Within tape level s s₂ :=
  ⟨hpath.sound h.sound, hpath.grows.floors.trans h.floors, fun s₃ h₃ hfit =>
    h.leads s₃ (hpath.trans h₃) hfit⟩

theorem enters (hl : level ≠ .quiet) (hs : Sound tape s) (hc : Sealed condition) :
    Within tape level s ((Event.enters condition).apply s) where
  sound := hs.apply (e := .enters condition) hc
  floors := rfl
  leads s₂ hpath hfit := by
    obtain ⟨es, hrun⟩ := hpath
    exact ⟨_, .branch hl hc hrun hfit .nil⟩

/-- The turn to `ELSE`, once the blocks of the first branch are given up. -/
theorem turns (hl : level ≠ .quiet) (hs : Sound tape s) (hc : Sealed condition)
    (hpath : Path tape level ((Event.enters condition).apply s) s₁)
    (hfit : Event.turns.Fits tape s₁) : Within tape level s (Event.turns.apply s₁) := by
  have hbefore := (enters hl hs hc).after hpath
  refine ⟨hbefore.sound.apply hfit, hbefore.floors, fun s₂ hpath₂ hleave => ?_⟩
  obtain ⟨es, hrun⟩ := hpath
  obtain ⟨es₂, hrun₂⟩ := hpath₂
  exact ⟨_, .branches hl hc hrun hfit hrun₂ hleave .nil⟩

theorem close (hl : level ≠ .quiet) (h : Within tape level s s₁) :
    ∃ s', Path tape level s s' ∧ s'.position = s₁.position ∧ ∀ front, (do
      abandonAbove s.blocks.length
      modify fun s => { s with floors := s.floors.drop 1 }
      closeLine "\x7d" : Emit Unit) tape.tokens (s₁.below front) = .ok () (s'.below front) := by
  obtain ⟨_, s₂, hx, hpath, hlength, hposition⟩ :=
    ((abandonAbove_completes s.blocks.length).rise hl) h.sound
  have hfit : Event.leaves.Fits tape s₂ := ⟨_, _, hpath.grows.floors.trans h.floors, hlength⟩
  refine ⟨Event.leaves.apply s₂, h.leads s₂ hpath hfit, hposition,
    fun front => (bind_ok (hx front) _).trans ?_⟩
  rw [← Event.apply_below front (hpath.sound h.sound).marked]
  rfl

end Within

/-- What is inside a single-line `IF` when an action has returned or failed. -/
def Inside (tape : Tape) (level : Level) (s : State) {α : Type} :
    EStateM.Result Failure State α → Prop
  | .ok _ s₁ => Within tape level s s₁
  | .error failure s₁ => Within tape level s s₁ ∧ Excuse tape s₁ failure

/-- What the branches of a single-line `IF` come to. -/
def Branched (tape : Tape) (level : Level) (s s₁ : State) (x : Emit Unit) : Prop :=
  Inside tape level s (x tape.tokens s₁) ∧ Blind tape.tokens s₁ x

theorem Within.pure (h : Within tape level s s₁) : Branched tape level s s₁ (Pure.pure ()) :=
  ⟨h, fun _ => rfl⟩

theorem Within.branched {Q : Unit → State → Prop} (h : Within tape level s s₁)
    (hx : Does tape level s₁ x Q) : Branched tape level s s₁ x := by
  obtain ⟨hmeets, hblind⟩ := hx h.sound
  refine ⟨?_, hblind⟩
  cases hr : x tape.tokens s₁ with
  | ok _ s₂ => rw [hr] at hmeets; exact h.after hmeets.1
  | error failure s₂ => rw [hr] at hmeets; exact ⟨h.after hmeets.1, hmeets.2⟩

theorem Within.bind {x : Emit α} {f : α → Emit Unit} {Q : α → State → Prop}
    (h : Within tape level s s₁) (hx : Does tape level s₁ x Q)
    (hf : ∀ a s₂, Path tape level s₁ s₂ → Q a s₂ → Branched tape level s s₂ (f a)) :
    Branched tape level s s₁ (x >>= f) := by
  obtain ⟨hmeets, hblind⟩ := hx h.sound
  refine ⟨?_, hblind.bind fun a s₂ hr => ?_⟩
  · cases hr : x tape.tokens s₁ with
    | ok a s₂ =>
      rw [hr] at hmeets
      rw [bind_ok hr]
      exact (hf a s₂ hmeets.1 hmeets.2).1
    | error failure s₂ =>
      rw [hr] at hmeets
      rw [bind_error hr]
      exact ⟨h.after hmeets.1, hmeets.2⟩
  · rw [hr] at hmeets
    exact (hf a s₂ hmeets.1 hmeets.2).2

theorem Branched.bind_ok {x : Emit α} {f : α → Emit Unit} {a : α}
    (hx : ∀ front, x tape.tokens (s₁.below front) = .ok a (s'.below front))
    (h : Branched tape level s s' (f a)) : Branched tape level s s₁ (x >>= f) := by
  have hbind := fun front => Emit.bind_ok (hx front) f
  exact ⟨eq_of_below hbind ▸ h.1, h.2.of_eq hbind⟩

/-- Behind its branches a single-line `IF` is closed, and what they failed with is passed on. -/
theorem Branched.ensuring (hl : level ≠ .quiet) (h : Branched tape level s s₁ x) :
    Amid tape level s s₁ (Emit.ensuring x (do
      abandonAbove s.blocks.length
      modify fun s => { s with floors := s.floors.drop 1 }
      closeLine "\x7d")) fun _ _ => True := by
  obtain ⟨hinside, hblind⟩ := h
  refine ⟨?_, hblind.ensuring (fun a s₂ hr => ?_) fun failure s₂ hr => ?_⟩
  · unfold Emit.ensuring
    cases hr : x tape.tokens s₁ with
    | ok _ s₂ =>
      rw [hr] at hinside
      obtain ⟨s', hpath, -, hclose⟩ := Within.close hl hinside
      simp only [of_below hclose]
      exact ⟨hpath, trivial⟩
    | error failure s₂ =>
      rw [hr] at hinside
      obtain ⟨s', hpath, hposition, hclose⟩ := Within.close hl hinside.1
      simp only [of_below hclose]
      exact ⟨hpath, hinside.2.of_position hposition⟩
  · rw [hr] at hinside
    obtain ⟨s', -, -, hclose⟩ := Within.close hl hinside
    exact .of_ok hclose
  · rw [hr] at hinside
    obtain ⟨s', -, -, hclose⟩ := Within.close hl hinside.1
    exact .of_ok hclose

section Inline

variable {floor : Nat} (hl : level ≠ .quiet)
include hl

theorem elseBranch_branched (hst : Steps tape level p statement) (hp : p ≤ s.position)
    (hs : Sound tape s) (hc : Sealed condition)
    (hpath : Path tape level ((Event.enters condition).apply s) s₁)
    (hfloor : floor = s.blocks.length) : Branched tape level s s₁ (do
      abandonAbove floor
      turnLine "\x7d else \x7b"
      inlineBranch statement) := by
  have hwithin := (Within.enters hl hs hc).after hpath
  refine hwithin.bind ((abandonAbove_completes floor).does.rise hl) fun _ s₂ hpath₂ ⟨hlength, _⟩ =>
    ?_
  have hwithin₂ := hwithin.after hpath₂
  have hfit : Event.turns.Fits tape s₂ := ⟨_, _, hwithin₂.floors, hfloor ▸ hlength⟩
  have hpos : s.position ≤ s₂.position := (hpath.trans hpath₂).grows.position
  have hturn : ∀ front, turnLine "\x7d else \x7b" tape.tokens (s₂.below front) =
      .ok () ((Event.turns.apply s₂).below front) :=
    fun front => by rw [← Event.apply_below front hwithin₂.sound.marked]; rfl
  have hturned := Within.turns hl hs hc (hpath.trans hpath₂) hfit
  exact .bind_ok hturn
    (hturned.branched (inlineBranch_does hl hst (Int.le_trans hp hpos) (by simp [hturned.floors])))

/-- The branches of a single-line `IF`, up to its end. -/
theorem bothBranches_branched (hst : Steps tape level p statement) (hp : p ≤ s.position)
    (hs : Sound tape s) (hc : Sealed condition) (hfloor : floor = s.blocks.length) :
    Branched tape level s ((Event.enters condition).apply s) (do
      inlineBranch statement
      if ← takeKeyword "ELSE" then
        abandonAbove floor
        turnLine "\x7d else \x7b"
        inlineBranch statement) := by
  have hwithin := Within.enters hl hs hc
  refine hwithin.bind (inlineBranch_does hl hst hp (by simp [hwithin.floors])) fun _ s₁ hpath _ =>
    ?_
  refine (hwithin.after hpath).bind takeKeyword_does fun taken s₂ hpath₂ _ => ?_
  cases taken with
  | false => exact (hwithin.after (hpath.trans hpath₂)).pure
  | true => exact elseBranch_branched hl hst hp hs hc (hpath.trans hpath₂) hfloor

/-- **Single-line conditions.**  However its branches end, a single-line `IF` is entered and
left. -/
theorem inlineBranches_does (hst : Steps tape level p statement) (hp : p ≤ s.position)
    (hc : Sealed condition) : Acts tape level s (do
      openLine ("if (" ++ condition ++ ") \x7b")
      inlineBranches statement) := by
  intro hs
  refine .of_eq (fun front => ?_) ((bothBranches_branched hl hst hp hs hc rfl).ensuring hl)
  rw [← Event.apply_below front hs.marked]
  rfl

end Inline

/-! ### Blocks -/

section Block

variable {token : Token}

theorem openBlock_does {text : String} (h : Opener form text) (ht : tape.Opens s form.kind token) :
    Acts tape .line s (do openLine text; openBlock form token) :=
  .event (.opens form text token) (fun _ => rfl) rfl ⟨h, ht⟩ trivial

theorem ifCondition_does : Does tape .quiet s ifCondition fun condition _ => Sealed condition := by
  refine expression_does.bind fun condition _ _ hcondition => ?_
  refine takeKeyword_does.bind fun _ _ _ _ => ?_
  extract_lets jp
  split
  · exact .pure hcondition.1.1
  · refine atKeyword_sees.bind fun _ _ => ?_
    split
    · exact .pure hcondition.1.1
    · refine current_sees.bind fun here hhere => ?_
      exact (reportAt_does hhere.mem (.of_letters rfl rfl)).bind fun _ _ _ _ => .pure hcondition.1.1

theorem ifStatement_does (hl : level ≠ .quiet)
    (hst : Steps tape level p statement) (hp : p ≤ s.position)
    (ht : tape.Opens s .condition token) : Acts tape level s (ifStatement statement token) := by
  refine ifCondition_does.still.bind fun condition s₁ hg₁ ⟨hstill, hcondition⟩ => ?_
  refine atLineEnd_sees.bind fun isBlock _ => ?_
  cases isBlock with
  | true => exact (openBlock_does (.condition hcondition) (ht.still hstill hg₁)).rise hl
  | false => exact inlineBranches_does hl hst (Int.le_trans hp hg₁.position) hcondition

/-- What the innermost block is stays true in front of a quiet step. -/
theorem State.Tops.still (h : s.Tops form) (hstill : Still s s') : s'.Tops form := by
  unfold State.Tops State.topForm? at h ⊢
  rwa [hstill.blocks, hstill.floor]

/-- What comes too late is reported before it is written. -/
theorem reportIf_bind {late : Bool} {f : Unit → Emit α}
    {Q : α → State → Prop} (ht : token ∈ tape.tokens) (hm : Apart message)
    (h : ∀ s', Still s s' → s'.position = s.position →
      (late = true → HasError s'.collector.toList) → Does tape .line s' (f ()) Q) :
    Does tape .line s
      (if late = true then reportAt token .syntactic message >>= f else f ()) Q := by
  cases late with
  | true =>
    refine (reportAt_does ht hm).bind fun _ s' _ ⟨d, hd, he⟩ => ?_
    subst he
    exact h _ ⟨rfl, rfl, rfl, rfl, Nat.le_refl _, .refl _⟩ rfl fun _ => s.hasError_reported hd
  | false => exact h s (.refl s) rfl (by simp)

theorem elseIfStatement_does (ht : tape.OnLine s token) :
    Acts tape .line s (elseIfStatement token) := by
  refine topForm_sees.bind fun form hform => ?_
  split
  · rename_i hasElse
    have htops := hform _ rfl
    extract_lets test
    refine reportIf_bind ht.mem (.of_letters rfl rfl) fun s₁ hstill _ herror => ?_
    have htops₁ := htops.still hstill
    dsimp -zeta only [test]
    refine (Does.still expression_does).bind fun condition s₂ hg₂ h₂ => ?_
    have htops₂ := htops₁.still h₂.1
    refine (Does.still takeKeyword_does).bind fun _ s₃ hg₃ h₃ => ?_
    have htops₃ := htops₂.still h₃.1
    extract_lets turn
    have hturn : ∀ s', Grows s₁ s' → s'.Tops (.condition hasElse) →
        Acts tape .line s' (turn ()) := by
      intro s' hg' htops'
      exact .event (.elseIfs condition) (fun _ => rfl) rfl
        ⟨h₂.2.1.1, hasElse, htops', fun h => hg'.errors (herror h)⟩ trivial
    split
    · exact hturn s₃ (hg₂.trans hg₃) htops₃
    · refine current_sees.bind fun here hhere => ?_
      refine (Does.still (reportAt_does hhere.mem (.of_letters rfl rfl))).bind fun _ s₄ hg₄ h₄ => ?_
      exact hturn s₄ ((hg₂.trans hg₃).trans hg₄) (htops₃.still h₄.1)
  · exact rejectAt_does ht (.of_letters rfl rfl)

theorem elseStatement_does (ht : tape.OnLine s token) :
    Does tape .line s (elseStatement token) fun _ s' => s'.position = s.position := by
  refine topForm_sees.bind fun form hform => ?_
  split
  · rename_i hasElse
    have htops := hform _ rfl
    extract_lets turn
    refine reportIf_bind ht.mem (.of_letters rfl rfl) fun s₁ hstill hp herror => ?_
    refine .event .elses (fun _ => rfl) rfl ⟨hasElse, htops.still hstill, herror⟩ ?_
    exact ((Event.elses.owns s₁).position nofun nofun).trans hp
  · exact rejectAt_does ht (.of_letters rfl rfl)

/-! ### Loops -/

theorem forStatement_does (ht : tape.Opens s .counting token) :
    Acts tape .line s (forStatement token) := by
  refine expectName_does.still.bind fun name s₁ hg₁ ⟨hstill₁, hname, _⟩ => ?_
  have ht₁ := ht.still hstill₁ hg₁
  refine lookup_finds.bind fun found ⟨hfind, hfound⟩ => ?_
  extract_lets open_
  have hopen : ∀ v s', Wordy v.name → tape.Opens s' .counting token →
      Acts tape .line s' (open_ v) := by
    intro v s' hv ht'
    refine expectOperator_does.still.bind fun _ s₂ hg₂ ⟨hstill₂, _⟩ => ?_
    have ht₂ := ht'.still hstill₂ hg₂
    refine expression_does.still.bind fun start s₃ hg₃ ⟨hstill₃, hstart⟩ => ?_
    have ht₃ := ht₂.still hstill₃ hg₃
    refine expectKeyword_does.still.bind fun _ s₄ hg₄ ⟨hstill₄, _⟩ => ?_
    have ht₄ := ht₃.still hstill₄ hg₄
    refine expression_does.still.bind fun stop s₅ hg₅ ⟨hstill₅, hstop⟩ => ?_
    have ht₅ := ht₄.still hstill₅ hg₅
    refine takeKeyword_does.still.bind fun _ s₆ hg₆ ⟨hstill₆, _⟩ => ?_
    have ht₆ := ht₅.still hstill₆ hg₆
    extract_lets header
    have hheader : ∀ step s', Sealed step → tape.Opens s' .counting token →
        Acts tape .line s' (header step) := fun step s' hstep ht' =>
      openBlock_does (.counting hv hstart.1.1 hstop.1.1 hstep) ht'
    split
    · exact expression_does.still.bind fun step _ hg ⟨hstill, hstep⟩ =>
        hheader step _ hstep.1.1 (ht₆.still hstill hg)
    · exact .pure_bind (hheader "1" _ (Reads.start rfl) ht₆)
  cases found with
  | some v => exact .pure_bind (hopen v _ (hfound v rfl).wordy ht₁)
  | none =>
    exact (implicitVariable_does (.word hname) hfind.symm).still.bind fun v _ hg ⟨hstill, hv, _⟩ =>
      hopen v _ hv.wordy (ht₁.still hstill hg)

/-! ### Closing statements -/

section Closing

variable {block : Block} {rest : List Block}

theorem Closable.reported (h : Closable s kind block rest) (d : Diagnostic) :
    Closable (s.reported d) kind block rest :=
  ⟨h.blocks, h.kind_eq, h.reach⟩

/-- The end of a block by its closing statement, which may have a test if the loop has none. -/
theorem Closable.path (test : Option String) (h : Closable s kind block rest)
    (htest : ∀ t ∈ test, Sealed t ∧ block.form = .looping true) :
    Path tape .line s ((s.without block rest true).finishWith block.form test) := by
  have hfit : (Event.ends test).Fits tape s := by
    refine ⟨block, by simp [h.blocks], htest, h.reach.imp_right fun ⟨k, hk⟩ => ⟨k, ?_⟩⟩
    exact h.kind_eq.trans hk
  have happly : (Event.ends test).apply s =
      (s.without block rest true).finishWith block.form test := by
    simp only [Event.apply, h.blocks]
  exact happly ▸ .single rfl hfit

theorem Closable.finishBlock_bind {f : Unit → Emit α} {Q : α → State → Prop}
    (h : Closable s kind block rest) (hs : Sound tape s)
    (hf : ∀ s', Grows s s' → Does tape .line s' (f ()) Q) :
    Amid tape .line s (s.without block rest true) (finishBlock block >>= f) Q := by
  have hpath : Path tape .line s ((s.without block rest true).finish block.form) :=
    h.path none (by simp)
  exact .bind_ok (finishBlock_below hs h.blocks) (.after hpath (hf _ hpath.grows (hpath.sound hs)))

theorem Closable.finishBlock (h : Closable s kind block rest) (hs : Sound tape s) :
    Amid tape .line s (s.without block rest true) (Emit.finishBlock block) fun _ _ => True :=
  .of_ok (finishBlock_below hs h.blocks) (h.path none (by simp)) trivial

/-- A report between the two parts of a closing statement is one in front of it. -/
theorem Closable.reportAt_bind {category : Category}
    {f : Unit → Emit α} {Q : α → State → Prop} (hs : Sound tape s) (ht : token ∈ tape.tokens)
    (hm : Apart message) (hf : ∀ s', Grows s s' → Sound tape s' → Closable s' kind block rest →
      Amid tape .line s' (s'.without block rest true) (f ()) Q) (h : Closable s kind block rest) :
    Amid tape .line s (s.without block rest true) (reportAt token category message >>= f) Q := by
  have hpath :
      Path tape .line s (s.reported ⟨.error, category, message, token.line, token.column, 1, []⟩) :=
    .single (e := .reports _) rfl ⟨tape.has ht, fun _ => hm⟩
  exact .bind_ok (fun _ => rfl) (.after hpath (hf _ hpath.grows (hpath.sound hs) (h.reported _)))

end Closing

theorem endCounting_does {names : List (Option Token)} (ht : token ∈ tape.tokens)
    (hnames : ∀ name ∈ names, ∀ t ∈ name, t ∈ tape.tokens) :
    Acts tape .line s (endCounting token names) := by
  induction names generalizing s with
  | nil => exact .pure trivial
  | cons name names ih =>
    have hrest := fun s => ih (s := s) fun name' h => hnames name' (.tail _ h)
    refine closeBlock_bind ht (fun _ _ => .pure trivial) fun s₁ block rest _ hs₁ hc => ?_
    cases name with
    | none => exact hc.finishBlock_bind hs₁ fun s' _ => hrest s'
    | some name =>
      dsimp -zeta only
      extract_lets finish_
      have hlook :
          ∀ front, lookup name.text tape.tokens (State.below front (s₁.without block rest true)) =
          .ok (s₁.scopes.find? name.text) (State.below front (s₁.without block rest true)) :=
        fun front => by rw [← Scopes.find?_below front.length s₁.scopes]; rfl
      refine .bind_ok hlook ?_
      split
      · exact hc.finishBlock_bind hs₁ fun s' _ => hrest s'
      · refine hc.reportAt_bind hs₁ (hnames _ (.head _) name rfl)
          (.of_letters rfl rfl) fun s' _ hs' hc' => ?_
        exact hc'.finishBlock_bind hs' fun s'' _ => hrest s''

theorem nextStatement_does (ht : token ∈ tape.tokens) :
    Acts tape .line s (nextStatement token) := by
  refine atKind_sees.bind fun _ _ => ?_
  split
  · have hitem : ∀ s', Grows s s' → Does tape .line s' (expectName "loop variable") fun name _ =>
        name ∈ tape.tokens :=
      fun _ _ => expectName_does.mono fun _ _ _ h => h.1.mem
    refine (commaList_does (· ∈ tape.tokens) hitem).bind fun names _ _ hnames => ?_
    exact endCounting_does ht (by simpa using hnames)
  · exact endCounting_does ht (by simp)

theorem closeStatement_does (ht : token ∈ tape.tokens) :
    Acts tape .line s (closeStatement kind token) :=
  closeBlock_bind ht (fun _ _ => .pure trivial) fun _ _ _ _ hs₁ hc => hc.finishBlock hs₁

theorem loopCondition?_does :
    Does tape level s loopCondition? fun condition _ => ∀ c ∈ condition, Sealed c := by
  refine takeKeyword_does.bind fun _ _ _ _ => ?_
  split
  · refine expression_does.bind fun test _ _ h => .pure ?_
    rintro c ⟨⟩
    exact Reads.around h.1.1 rfl
  · refine takeKeyword_does.bind fun _ _ _ _ => ?_
    split
    · refine expression_does.bind fun test _ _ h => .pure ?_
      rintro c ⟨⟩
      exact Reads.around h.1.1 rfl
    · exact .pure (by simp)

theorem doStatement_does (ht : tape.Opens s .looping token) :
    Acts tape .line s (doStatement token) := by
  refine loopCondition?_does.still.bind fun condition _ hg ⟨hstill, hcondition⟩ => ?_
  have ht' := ht.still hstill hg
  cases condition with
  | some condition => exact openBlock_does (.testing (hcondition condition rfl)) ht'
  | none => exact openBlock_does .looping ht'

theorem loopStatement_does (ht : token ∈ tape.tokens) :
    Acts tape .line s (loopStatement token) := by
  refine loopCondition?_does.bind fun condition _ _ hcondition => ?_
  refine closeBlock_bind ht (fun _ _ => .pure trivial) fun s₁ block rest _ hs₁ hc => ?_
  obtain ⟨form, line, column⟩ := block
  cases form with
  | looping testsBehind =>
    cases condition with
    | none => cases testsBehind <;> exact hc.finishBlock hs₁
    | some test =>
      cases testsBehind with
      | true =>
        have htest : ∀ t ∈ some test, Sealed t ∧ BlockForm.looping true = .looping true := by
          rintro t ⟨⟩
          exact ⟨hcondition test rfl, rfl⟩
        exact .of_ok (closeLine_below (s₁.without _ rest true) _)
          (hc.path (some test) htest) trivial
      | false =>
        exact hc.reportAt_bind hs₁ ht (.of_letters rfl rfl) fun s' _ hs' hc' => hc'.finishBlock hs'
  | _ => cases hc.kind_eq

theorem whileStatement_does (ht : tape.Opens s .whileLoop token) :
    Acts tape .line s (whileStatement token) :=
  expression_does.still.bind fun _ _ hg ⟨hstill, h⟩ =>
    openBlock_does (.whileLoop h.1.1) (ht.still hstill hg)

/-! ### Selections -/

theorem selectStatement_does (ht : tape.Opens s .selection token) :
    Acts tape .line s (selectStatement token) := by
  refine expectKeyword_does.still.bind fun _ s₁ hg₁ ⟨hstill₁, _⟩ => ?_
  refine expression_does.still.bind fun selector s₂ hg₂ ⟨hstill₂, hselector⟩ => ?_
  refine (temporary_does (wordy_ofList (by simp) (by decide))).still.bind
    fun value s₃ hg₃ ⟨hstill₃, hvalue⟩ => ?_
  have ht₃ := ((ht.still hstill₁ hg₁).still hstill₂ hg₂).still hstill₃ hg₃
  exact .event (.selects value selector token) (fun _ => rfl) rfl ⟨hvalue,
    hselector.1.1, ht₃⟩ trivial

theorem caseTest_does (hv : Wordy value) :
    Does tape level s (caseTest value) fun test _ => Inner test := by
  refine takeKeyword_does.bind fun _ _ _ _ => ?_
  refine current_sees.bind fun token ht => ?_
  split
  · rename_i sign hsign
    have hsealed : token.endsLine = false ∧ Sealed sign := by
      split at hsign
      · exact ⟨by simp [Token.endsLine, *], sealed_comparison? hsign⟩
      · cases hsign
    refine (advance_from ht hsealed.1).bind fun _ _ _ _ => ?_
    refine expression_does.bind fun bound _ _ hbound => .pure ?_
    exact ((Reads.lit hv.solid.1.inner rfl).piece hsealed.2 rfl).frag rfl hbound.1.1
  · extract_lets range
    have hrange : ∀ s', Does tape level s' (range ()) fun test _ => Inner test := by
      intro s'
      refine expression_does.bind fun low _ _ hlow => ?_
      refine takeKeyword_does.bind fun _ _ _ _ => ?_
      split
      · refine expression_does.bind fun high _ _ hhigh => .pure ?_
        exact (((Reads.around hv.solid.1 rfl).piece hlow.1.1 rfl).piece hv.solid.1 rfl).piece
          hhigh.1.1 rfl
      · exact .pure ((Reads.lit hv.solid.1.inner rfl).frag rfl hlow.1.1)
    split
    · exact rejectHere_bind (.of_letters rfl rfl)
    · exact hrange _

theorem caseLine_does {cases : Nat} {hasElse : Bool} (test : Option String)
    (htest : ∀ t ∈ test, Inner t) (htops : s.Tops (.selection value cases hasElse))
    (herror : hasElse = true → HasError s.collector.toList) :
    Acts tape .line s (do
      caseLine cases test
      setTopForm (.selection value (cases + 1) (hasElse || test.isNone))) := by
  have hfit : (Event.tests test).Fits tape s := ⟨htest, value, cases, hasElse, htops, herror⟩
  refine .event (.tests test) (a := ()) (fun front => ?_) rfl hfit trivial
  have htop : (s.below front).topForm? = some (.selection value cases hasElse) := htops.2
  simp only [Event.apply, htop]
  cases test <;> cases cases <;> rfl

theorem caseStatement_does (ht : tape.OnLine s token) :
    Acts tape .line s (caseStatement token) := by
  refine .ofSound fun hs => topForm_sees.bind fun form hform => ?_
  split
  · rename_i value cases hasElse
    have htops := hform _ rfl
    have hvalue : Wordy value := by
      obtain ⟨block, hblock, hform⟩ := Option.map_eq_some_iff.1 htops.2
      exact (hs.blocks block (List.mem_of_head? hblock)).value _ _ _ hform
    extract_lets test
    refine reportIf_bind ht.mem (.of_letters rfl rfl) fun s₁ hstill _ herror => ?_
    have htops₁ := htops.still hstill
    dsimp -zeta only [test]
    refine (Does.still takeKeyword_does).bind fun _ s₂ hg₂ h₂ => ?_
    have htops₂ := htops₁.still h₂.1
    have herror₂ := fun h => hg₂.errors (herror h)
    split
    · simpa using caseLine_does none (by simp) htops₂ herror₂
    · refine (Does.still (commaList_does Inner fun _ _ => caseTest_does hvalue)).bind
        fun tests s₃ hg₃ h₃ => ?_
      have hline : ∀ t ∈ some (Text.joinWith " || " tests), Inner t := by
        rintro t ⟨⟩
        exact inner_joinWith (Reads.start rfl) h₃.2
      simpa using caseLine_does _ hline (htops₂.still h₃.1) fun h => hg₃.errors (herror₂ h)
  · exact rejectAt_does ht (.of_letters rfl rfl)

end Block

/-! ### Ends and exits -/

section Exit

variable {token : Token}

theorem emitEnd_does : Acts tape .line s emitEnd := by
  refine scopes_does (fun _ => by rw [Scopes.isModule_below]) ?_
  split
  · exact line_does (.intro (.start rfl))
  · exact line_does (.intro (.start rfl))

theorem systemStatement_does : Acts tape .line s systemStatement := by
  refine atStatementEnd_sees.bind fun _ _ => ?_
  extract_lets jp
  split
  · exact emitEnd_does
  · exact expression_does.bind fun _ _ _ _ => emitEnd_does

theorem endKeyword_does (ht : tape.OnLine s token) : Acts tape .line s (endKeyword token) := by
  have htake : ∀ {s word}, tape.OnLine s token →
      Does tape .line s (takeKeyword word) fun _ s' => tape.OnLine s' token := fun {s word} h =>
    have hword : Does tape .line s (takeKeyword word) (Took s) := takeKeyword_does
    (hword.onLine nofun h).mono fun _ _ _ h' => h'.1
  refine (htake ht).bind fun _ _ _ h₁ => ?_
  split
  · exact closeStatement_does ht.mem
  refine (htake h₁).bind fun _ _ _ h₂ => ?_
  split
  · exact closeStatement_does ht.mem
  refine (htake h₂).bind fun _ _ _ h₃ => ?_
  split
  · exact closeStatement_does ht.mem
  refine (htake h₃).bind fun _ _ _ h₄ => ?_
  split
  · exact closeStatement_does ht.mem
  refine (htake h₄).bind fun _ _ _ h₅ => ?_
  split
  · exact rejectAt_does h₅ (.of_letters rfl rfl)
  refine (htake h₅).bind fun _ _ _ h₆ => ?_
  split
  · exact rejectAt_does h₆ (.of_letters rfl rfl)
  · exact systemStatement_does

theorem currentResult_sees : Sees tape s currentResult Sealed := by
  refine .ofSound fun hs => .get (fun _ => rfl) (.pure ?_)
  generalize hresults : List.head? _ = found
  cases found with
  | none => exact sealed_absent
  | some result =>
    obtain ⟨block, hblock, hform⟩ := List.mem_filterMap.1 (List.mem_of_head? hresults)
    split at hform
    · rename_i result' hfunction
      cases hform
      exact ((hs.blocks block hblock).result _ hfunction).solid.1
    · cases hform

theorem exitLoop_does (ht : token ∈ tape.tokens) (hm : Apart message)
    (hkind : kind.isLoop = true) : Acts tape .line s (exitLoop kind token message) := by
  refine inside_sees.bind fun found hfound => ?_
  extract_lets jp
  have hbreak : ∀ s', (HasError s'.collector.toList ∨ ∃ block ∈ s'.blocks, block.kind = kind) →
      Acts tape .line s' (jp ()) :=
    fun s' hinside => .event (.exits kind) (fun _ => rfl) rfl ⟨hkind, hinside⟩ trivial
  split
  · exact hbreak s (.inr (hfound ‹_›))
  · refine (reportAt_does ht hm).bind fun _ s' _ ⟨d, hd, he⟩ => hbreak s' (.inl ?_)
    rw [he]
    exact State.hasError_reported _ hd

theorem exitStatement_does : Acts tape .line s exitStatement := by
  have hreturn : ∀ s', Acts tape .line s' (line "return;") :=
    fun _ => line_does (.intro (.start rfl))
  refine current_sees.bind fun token ht => ?_
  refine takeKeyword_does.bind fun _ _ _ _ => ?_
  split
  · exact exitLoop_does ht.mem (.of_letters rfl rfl) rfl
  refine takeKeyword_does.bind fun _ _ _ _ => ?_
  split
  · exact exitLoop_does ht.mem (.of_letters rfl rfl) rfl
  refine takeKeyword_does.bind fun _ _ _ _ => ?_
  split
  · exact exitLoop_does ht.mem (.of_letters rfl rfl) rfl
  refine takeKeyword_does.bind fun _ _ _ _ => ?_
  split
  · refine scopes_does (fun n => by simp only [Scopes.current_below, Scope.below]) ?_
    extract_lets jp
    split
    · exact hreturn _
    · exact (reportAt_does ht.mem (.of_letters rfl rfl)).bind fun _ s' _ _ => hreturn s'
  refine takeKeyword_does.bind fun _ _ _ _ => ?_
  split
  · refine scopes_does (fun n => by simp only [Scopes.current_below, Scope.below]) ?_
    split
    · refine currentResult_sees.bind fun result hresult => line_does ?_
      exact .intro (.around hresult rfl)
    · exact (reportAt_does ht.mem (.of_letters rfl rfl)).bind fun _ s' _ _ => hreturn s'
  · exact rejectHere_does (.of_letters rfl rfl)

end Exit

end BasicScript
