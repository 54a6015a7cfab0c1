import BasicScript.Proofs.Flow

/-!
# What a program does

Statements inside statements, and the pass over all of them.  A statement uses up a token or is
rejected (`statement_steps`); a rejection is recorded, and the pass goes on behind it.  So the pass
over a tape comes to the end of the input, unless a number has no literal (`pass_cases`).
-/

namespace BasicScript

open Emit Script Lexer List

variable {tape : Tape} {level : Level} {s s' : State} {p : Int} {α β : Type} {x : Emit α}
    {verb : Verb} {fault : Fault}
  {token : Token} {word : String} {r : Rejection} {tokens item : List Token}
    {a : Announcement} {collector : Collector}

/-! ### Verbs -/

namespace Verb

/-- The texts of a verb make lines. -/
def Fits : Verb → Prop
  | fixed text | bare text => Flat text
  | unary front back => Around front back
  | optional front default back => Around front back ∧ Sealed default
  | pair callee => Solid callee
  | pixel callee => Sealed callee
  | _ => True

theorem fits_words : ∀ entry ∈ words, entry.2.Fits := by
  unfold words
  repeat
    refine forall_mem_cons.2 ⟨?_, ?_⟩
    · first
      | exact trivial
      | exact Flat.intro (.start rfl)
      | exact fun _ hv => Flat.intro (.around hv rfl)
      | exact ⟨fun _ hv => Flat.intro (.around hv rfl), .start rfl⟩
      | exact ⟨.start rfl, by simp⟩
      | exact Reads.start rfl
  simp

theorem fits_ofWord? (h : ofWord? word = some verb) : verb.Fits := by
  unfold ofWord? at h
  split at h
  · rename_i found hfound
    cases h
    exact fits_words _ (mem_of_get? hfound)
  · split at h
    · cases h
      trivial
    · split at h
      · cases h
        trivial
      · cases h

/-- A verb that is no kind of statement in itself is that of a keyword in the list. -/
theorem mem_words_of_ofWord? (h : ofWord? word = some verb)
    (hignored : verb ≠ .ignored) (hunsupported : verb ≠ .unsupported) : (word, verb) ∈ words := by
  unfold ofWord? at h
  split at h
  · rename_i found hfound
    cases h
    exact mem_of_get? hfound
  · split at h
    · exact absurd (Option.some.inj h).symm hignored
    · split at h
      · exact absurd (Option.some.inj h).symm hunsupported
      · cases h

/-- The blocks that statements of a verb open. -/
def opens? : Verb → Option BlockKind
  | ifThen => some .condition
  | counts => some .counting
  | repeats => some .looping
  | whiles => some .whileLoop
  | selects => some .selection
  | procedure kind => some (.procedure kind)
  | _ => none

/-- The keyword of a verb that no other keyword has. -/
def keyword? : Verb → Option String
  | data => some "DATA"
  | type => some "TYPE"
  | define => some "DEF"
  | elseBranch => some "ELSE"
  | verb => verb.opens?.map BlockKind.opener

theorem eq_of_ofWord? {text : String} (h : ofWord? word = some verb)
    (hkeyword : verb.keyword? = some text) : word = text := by
  have hwords : ∀ entry ∈ words, entry.2.keyword?.all (· = entry.1) = true := by decide
  have hentry :=
    hwords _ (mem_words_of_ofWord? h (by rintro rfl; cases hkeyword)
      (by rintro rfl; cases hkeyword))
  simpa [hkeyword, eq_comm] using hentry

theorem keyword?_of_opens? {kind : BlockKind} (h : verb.opens? = some kind) :
    verb.keyword? = some kind.opener := by
  cases verb <;> cases h <;> rfl

theorem runUnsupported_does (ht : token ∈ tape.tokens) (hw : Wordy token.text) :
    Acts tape .line s (runUnsupported token) := by
  refine skipStatement_does.bind fun _ _ _ _ => ?_
  refine (warnAt_does ht).bind fun _ _ _ _ => ?_
  exact line_does (flat_comment hw rfl)

/-- What is behind a keyword does what its verb says. -/
theorem run_does {statement : Emit Bool} (hl : level ≠ .quiet)
    (hverb : verb.Fits) (hst : Steps tape level p statement) (hp : p ≤ s.position)
    (ht : tape.OnLine s token) (hw : Wordy token.text) (hdata : verb = .data → BehindData tape s)
    (hopens : ∀ kind, verb.opens? = some kind → tape.Opens s kind token)
    (hdefine : verb = .define → ∃ token ∈ tape.tokens, token.isKeyword "DEF" = true)
    (htype : verb = .type → level = .full)
    (hheader : ∀ kind, verb = .procedure kind → s.floors = [] →
      HasError s.collector.toList ∨ BehindHeader tape s) :
    Acts tape level s (verb.run statement token) := by
  cases verb with
  | ignored => exact skipStatement_does
  | unsupported => exact (runUnsupported_does ht.mem hw).rise hl
  | fixed text => exact (line_does hverb).rise hl
  | bare text => exact (bareStatement_does hverb).rise hl
  | unary front back => exact (unaryStatement_does hverb).rise hl
  | optional front default back => exact (defaultStatement_does hverb.1 hverb.2).rise hl
  | pair callee => exact (pairStatement_does hverb).rise hl
  | pixel callee => exact (pixelStatement_does hverb).rise hl
  | closing kind => exact (closeStatement_does ht.mem).rise hl
  | procedure kind => exact (procedureStatement_does ht (hopens _ rfl) (hheader kind rfl)).rise hl
  | print => exact (printStatement_does ht.mem).rise hl
  | write => exact writeStatement_does.rise hl
  | input => exact inputStatement_does.rise hl
  | line => exact lineStatement_does.rise hl
  | screen => exact screenStatement_does.rise hl
  | sound => exact soundStatement_does.rise hl
  | ifThen => exact ifStatement_does hl hst hp (hopens _ rfl)
  | elseIf => exact (elseIfStatement_does ht).rise hl
  | elseBranch => exact ((elseStatement_does ht).mono fun _ _ _ _ => trivial).rise hl
  | ends => exact (endKeyword_does ht).rise hl
  | counts => exact (forStatement_does (hopens _ rfl)).rise hl
  | next => exact (nextStatement_does ht.mem).rise hl
  | repeats => exact (doStatement_does (hopens _ rfl)).rise hl
  | loops => exact (loopStatement_does ht.mem).rise hl
  | whiles => exact (whileStatement_does (hopens _ rfl)).rise hl
  | selects => exact (selectStatement_does (hopens _ rfl)).rise hl
  | cases => exact (caseStatement_does ht).rise hl
  | exit => exact exitStatement_does.rise hl
  | system => exact systemStatement_does.rise hl
  | dim => exact dimStatement_does.rise hl
  | redim => exact redimStatement_does.rise hl
  | common => exact (commonStatement_does ht.mem).rise hl
  | const => exact constStatement_does.rise hl
  | type =>
    obtain rfl := htype rfl
    exact typeStatement_does ht.mem
  | data => exact (dataStatement_does (hdata rfl)).rise hl
  | read => exact readStatement_does.rise hl
  | restore => exact restoreStatement_does.rise hl
  | swap => exact swapStatement_does.rise hl
  | erase => exact eraseStatement_does.rise hl
  | assign => exact (assignment_does.rise hl).mono fun _ _ _ _ => trivial
  | define => exact (defStatement_does (hdefine rfl)).rise hl
  | randomize => exact randomizeStatement_does.rise hl
  | call => exact callStatement_does.rise hl
  | goto => exact gotoStatement_does.rise hl
  | gosub => exact gosubStatement_does.rise hl
  | returns => exact returnStatement_does.rise hl
  | on => exact (onStatement_does ht.mem).rise hl
  | resume => exact resumeStatement_does.rise hl
  | circle => exact circleStatement_does.rise hl
  | getImage => exact (getStatement_does ht.mem hw).rise hl
  | putImage => exact (putStatement_does ht.mem hw).rise hl
  | drawImage => exact putImageStatement_does.rise hl
  | printString => exact printStringStatement_does.rise hl
  | openFile => exact openStatement_does.rise hl
  | closeFile => exact closeFileStatement_does.rise hl

end Verb

/-! ### Statements -/

theorem strangeKeyword_does {Q : Bool → State → Prop} (ht : tape.Under s token) :
    Does tape level s (strangeKeyword token) Q := by
  refine peek_sees.bind fun following _ => ?_
  extract_lets jp
  split
  · exact rejectAt_bind ht.onLine apart_reserved.append
  · exact rejectHere_does (Apart.append (.of_letters rfl rfl)).append

/-- What a statement comes to: it uses up a token, and another one may follow directly only where
the announcements see headers. -/
def Stepped (tape : Tape) (s : State) (needsEnd : Bool) (s' : State) : Prop :=
  s.position < s'.position ∧ (needsEnd = false → s.floors = [] → Starts tape s')

theorem plainNameStatement_does {following : Token} (ht : tape.Under s token) :
    Does tape .line s (plainNameStatement token following) (Stepped tape s) := by
  unfold plainNameStatement
  split
  · exact assignment_does.bind fun _ _ _ h => .pure ⟨h, nofun⟩
  · exact procedureNames_sees.bind fun _ _ =>
      rejectAt_does ht.onLine (Apart.append (.of_letters rfl rfl)).append

theorem nameStatement_does (ht : tape.Under s token)
    (hk : token.kind = .identifier) : Does tape .line s (nameStatement token) (Stepped tape s) := by
  have hne : token.endsLine = false := by simp [Token.endsLine, hk]
  have hname : tape.Names token := ⟨ht.mem, hk⟩
  refine .ofSound fun hs => peek_sees.bind ?_
  rintro following ⟨-, hnext⟩
  refine atLineStart_sees.bind fun _ _ => ?_
  split
  · rename_i hlabel
    refine (advance_from ht hne).bind ?_
    rintro _ s₁ _ ⟨-, hpos⟩
    have hunder : tape.Under s₁ following := by
      rw [Tape.Under, hpos]
      exact hnext ((ht.lt_size_iff hs).2 (Token.kind_of_endsLine hne).2)
    have hcolon := (Bool.and_eq_true_iff.1 hlabel).1
    refine (advance_from hunder (Token.endsLine_of_isMark hcolon)).bind ?_
    rintro _ s₂ - ⟨-, hpos₂⟩
    refine (line_adds ?_).bind fun _ s₃ hg₃ hs₃ => .pure ?_
    · exact .intro ((Reads.start rfl).frag rfl hname.wordy.solid.1)
    · subst hs₃
      have hnonneg := hs.position_nonneg
      refine ⟨?_, fun _ _ => .inr ?_⟩
      · change s.position < s₂.position
        omega
      · have hplace : s₂.position.toNat = s₁.position.toNat + 1 := by omega
        change tape.Free s₂.position.toNat
        rw [hplace]
        exact .of_endsData hunder (by simp [endsData, hcolon])
  refine .get (fun _ => rfl) ?_
  split
  · rename_i procedure hprocedure
    split
    · refine (advance_from ht hne).bind ?_
      rintro _ s₁ hg₁ ⟨-, hpos⟩
      refine callArguments_does.bind fun values s₂ hg₂ hvalues => ?_
      have hfound := hg₂.procedures _ _ (hg₁.procedures _ _ hprocedure)
      have hcall := callProcedure_does (s := s₂) (hs.procedures _ (mem_of_get? hprocedure)).wordy
        hvalues ht.mem hfound
      refine hcall.bind fun _ s₃ hg₃ _ => .pure ⟨?_, Bool.noConfusion⟩
      have := hg₂.position
      have := hg₃.position
      omega
    · exact plainNameStatement_does ht
  · exact plainNameStatement_does ht

/-- The level of statements: those in a source with record types may leave their line. -/
def Level.Holds (level : Level) (tape : Tape) : Prop :=
  level = .full ∨ level = .line ∧ ∀ token ∈ tape.tokens, token.isKeyword "TYPE" = false

theorem Level.Holds.ne_quiet (h : level.Holds tape) : level ≠ .quiet := by
  rcases h with rfl | ⟨rfl, -⟩ <;> decide

/-- A statement, if those inside it use up tokens behind its first one. -/
theorem statementOver_steps {inner : Emit Bool} (hl : level.Holds tape)
    (h : Steps tape level (p + 1) inner) : Steps tape level p (statementOver inner) := by
  intro s hp hstarts
  refine .ofSound fun hs => current_sees.bind fun token ht => ?_
  have hnonneg := hs.position_nonneg
  -- another statement may follow a token that the announcements pass over
  have hnext : ∀ s', Grows s s' → s'.position = s.position + 1 → token.isKeyword "DATA" = false →
      precedesNoHeader token = false → s.floors = [] → Starts tape s' := by
    intro s' hg hpos hdata hfront hfloors
    refine (hstarts hfloors).imp hg.errors fun hfree => ?_
    rw [hpos, show (s.position + 1).toNat = s.position.toNat + 1 by omega]
    exact hfree.next ht hdata hfront
  split
  · rename_i hk
    have hw : Wordy token.text := (tape.fits token ht.mem).wordy (.inr (.inl hk))
    split
    · rename_i verb hverb
      refine ((advance_from ht (by simp [Token.endsLine, hk])).also fun _ _ => advance_eq).bind ?_
      rintro _ s₁ hg₁ ⟨⟨-, hpos⟩, position, hmoved⟩
      refine .ofSound fun hs₁ => ?_
      have hline : tape.OnLine s₁ token := ht.behind (by simp [Token.endsLine, hk]) hs hs₁ hpos
      have hdata : verb = .data → BehindData tape s₁ := by
        rintro rfl
        have hpassed : s₁.dataPassed = s.dataPassed := by rw [hmoved]
        refine ⟨⟨token, ?_, ?_⟩, by omega, fun span hspan => ?_⟩
        · rw [hpos, Int.add_sub_cancel]
          exact ht
        · simp [Token.isKeyword, hk, Verb.eq_of_ofWord? hverb rfl]
        · have := hs.passed span (hpassed ▸ hspan)
          omega
      have htype : verb = .type → level = .full := by
        rintro rfl
        refine hl.resolve_right ?_
        rintro ⟨-, hnone⟩
        simpa [Token.isKeyword, hk, Verb.eq_of_ofWord? hverb rfl] using hnone token ht.mem
      have hopens : ∀ kind, verb.opens? = some kind → tape.Opens s₁ kind token := by
        intro kind hkind
        refine ⟨by simp [Token.isKeyword, hk,
          Verb.eq_of_ofWord? hverb (Verb.keyword?_of_opens? hkind)],
            s.position.toNat, ht, by omega, ?_⟩
        have hopened : s₁.opened = s.opened := by rw [hmoved]
        intro block hblock
        obtain ⟨place, hlt, hplace⟩ := hs.opened block (hopened ▸ hblock)
        exact ⟨place, by omega, hplace⟩
      have hdefine : verb = .define → ∃ token ∈ tape.tokens, token.isKeyword "DEF" = true := by
        rintro rfl
        exact ⟨token, ht.mem, by simp [Token.isKeyword, hk, Verb.eq_of_ofWord? hverb rfl]⟩
      have hheader : ∀ kind, verb = .procedure kind → s₁.floors = [] →
          HasError s₁.collector.toList ∨ BehindHeader tape s₁ := by
        rintro kind rfl hfloors
        refine (hstarts (hg₁.floors.symm.trans hfloors)).imp hg₁.errors fun hfree => ?_
        refine ⟨⟨token, ?_, ?_⟩, by omega, ?_⟩
        · rw [hpos, Int.add_sub_cancel]
          exact ht
        · have hword : token.text = kind.word := Verb.eq_of_ofWord? hverb rfl
          cases kind <;> simp [headerKind?, Token.isKeyword, hk, hword, ProcedureKind.word]
        · rw [hpos, Int.add_sub_cancel]
          exact hfree
      by_cases helse : verb = .elseBranch
      · subst helse
        have hword : token.text = "ELSE" := Verb.eq_of_ofWord? hverb rfl
        have hrun : Does tape level s₁ (Verb.elseBranch.run inner token) fun _ s' =>
            s'.position = s₁.position := (elseStatement_does hline).rise hl.ne_quiet
        refine hrun.bind fun _ s₂ hg₂ hpos₂ => .pure ⟨by omega, fun _ hfloors => ?_⟩
        exact hnext s₂ (hg₁.trans hg₂) (hpos₂.trans hpos) (by simp [Token.isKeyword, hword])
          (by simp [precedesNoHeader, Token.isKeyword, hword]) hfloors
      · have hrun :=
          Verb.run_does (s := s₁) hl.ne_quiet (Verb.fits_ofWord? hverb) h (by omega) hline hw
          hdata hopens hdefine htype hheader
        refine hrun.bind fun _ s₂ hg₂ _ => .pure ⟨?_, fun hneeds => ?_⟩
        · have := hg₂.position
          omega
        · simp [Verb.needsEnd, helse] at hneeds
    · exact strangeKeyword_does ht
  · exact (nameStatement_does ht ‹_›).rise hl.ne_quiet
  · rename_i hk
    have hw : Wordy token.text := (tape.fits token ht.mem).wordy (.inr (.inr hk))
    refine atLineStart_sees.bind fun _ _ => ?_
    extract_lets mark
    split
    · refine (advance_from ht (by simp [Token.endsLine, hk])).bind ?_
      rintro _ s₁ hg₁ ⟨-, hpos⟩
      refine ((line_adds ?_).rise hl.ne_quiet).bind fun _ s₂ hg₂ hs₂ => .pure ?_
      · exact .intro ((Reads.start rfl).frag rfl hw.solid.1)
      · have hpos₂ : s₂.position = s.position + 1 := by rw [hs₂]; exact hpos
        refine ⟨by omega, fun _ => hnext s₂ (hg₁.trans hg₂) hpos₂ ?_ ?_⟩
        · simp [Token.isKeyword, hk]
        · simp [precedesNoHeader, Token.isKeyword, hk]
    · exact rejectHere_bind (Apart.append (.of_letters rfl rfl))
  · exact rejectHere_does (Apart.append (.of_letters rfl rfl))

theorem statementTo_steps (hl : level.Holds tape) (depth : Nat)
    (h : (tape.tokens.size : Int) ≤ depth + p) : Steps tape level p (statementTo depth) := by
  induction depth generalizing p with
  | zero =>
    intro s hp _ hs
    have := hs.position_lt
    omega
  | succ depth ih => exact statementOver_steps hl (ih (by omega))

/-- **Statements.**  A statement uses up a token: there are enough levels for those inside it. -/
theorem statement_steps (hl : level.Holds tape) : Steps tape level 0 statement := by
  intro s hp hstarts
  refine budget_sees.bind fun depth hdepth => ?_
  exact statementTo_steps hl depth (by omega) s hp hstarts

/-! ### Recovery -/

/-- Where the pass may be between two statements, outside of single-line `IF`s: where it can begin
one, or at the end of one. -/
def Ready (tape : Tape) (s : State) : Prop :=
  Starts tape s ∨ ∃ token, tape.Under s token ∧ endsData token = true

theorem endedStatement_does (hl : level.Holds tape) (hstarts : s.floors = [] → Starts tape s) :
    Does tape level s endedStatement fun _ s' =>
      s.position < s'.position ∧ (s.floors = [] → Ready tape s') := by
  refine .ofSound fun hs => (statement_steps hl s hs.position_nonneg hstarts).bind
    fun needsEnd s₁ hg₁ ⟨hlt, hnext⟩ => ?_
  cases needsEnd with
  | true =>
    refine endStatement_does.mono fun _ s₂ hg₂ hend =>
      ⟨Int.lt_of_lt_of_le hlt hg₂.position, fun hfloors => ?_⟩
    exact .inr (hend (hg₁.floors.trans hfloors))
  | false => exact .pure ⟨hlt, fun hfloors => .inl (hnext rfl hfloors)⟩

/-- No rejection is on the line in front of the first, so one that was kept before was reported. -/
theorem State.hasError_refused (h : r.Fits tape s)
    (hlast : s.lastRejectedLine = 0 ∨ HasError s.collector.toList) :
    HasError (s.refused r).collector.toList := by
  by_cases heq : r.line = s.lastRejectedLine
  · rw [State.refused_of_eq heq]
    obtain ⟨token, ht, hline, -⟩ := h.place
    have hpos := tape.line_pos token ht
    exact hlast.resolve_left fun hzero => by omega
  · rw [State.refused_of_ne heq]
    exact State.hasError_reported _ rfl

/-- What is done about a rejection never fails. -/
theorem recover_completes (hs : Sound tape s) (hr : r.Fits tape s)
    (hlast : s.lastRejectedLine = 0 ∨ HasError s.collector.toList) :
    ∃ s', (∀ front, recover r tape.tokens ((s.catching r).below front) = .ok () (s'.below front)) ∧
      Path tape .full s s' ∧ (s.position + 1 < tape.tokens.size → s.position < s'.position) ∧
        tape.InLine s.position (s'.position - 1) ∧ HasError s'.collector.toList := by
  have hpath : Path tape .full s (s.refused r) := .refused hr
  have hposition : (s.refused r).position = s.position :=
    ((Event.records r).owns s).position nofun nofun
  obtain ⟨_, s₂, hresume, hpath₂, hmoved, hline⟩ := resume_completes (hpath.sound hs)
  rw [hposition] at hmoved hline
  refine ⟨s₂, fun front => ?_, hpath.trans hpath₂, hmoved, hline, ?_⟩
  · rw [recover, bind_ok (record_below tape.tokens s r front)]
    exact hresume front
  · exact hpath₂.grows.errors (State.hasError_refused hr hlast)

/-- A statement that is not at the end of the input uses up a token even if it is rejected. -/
theorem guardedStatement_does (h : s.position + 1 < tape.tokens.size)
    (hlast : s.lastRejectedLine = 0 ∨ HasError s.collector.toList)
    (hstarts : s.floors = [] → Starts tape s) : Does tape .full s guardedStatement fun _ s' =>
      s.position < s'.position ∧ (s.floors = [] → Ready tape s') := by
  refine .rescuing (endedStatement_does (.inl rfl) hstarts) fun r s₁ hg₁ hr hs₁ => ?_
  obtain ⟨s₂, hrecover, hpath₂, hmoved, -, herror⟩ :=
    recover_completes hs₁ hr (hg₁.unrejected hlast)
  refine .of_ok hrecover hpath₂ ⟨?_, fun _ => .inl (.inl herror)⟩
  have hpos₁ := hg₁.position
  have hpos₂ := hpath₂.grows.position
  omega

/-- The pass may begin a turn of its loop over statements: no single-line `IF` is open, and a line
of a rejection is one on which an error was reported. -/
structure AtTurn (tape : Tape) (s : State) : Prop where
  floors : s.floors = []
  rejected : s.lastRejectedLine = 0 ∨ HasError s.collector.toList
  ready : Ready tape s

namespace AtTurn

theorem grows (h : AtTurn tape s) (hg : Grows s s') (hready : Ready tape s') : AtTurn tape s' where
  floors := hg.floors.trans h.floors
  rejected := hg.unrejected h.rejected
  ready := hready

/-- Where no statement ends, one can begin. -/
theorem starts (h : AtTurn tape s) (ht : tape.Under s token) (hend : endsData token = false) :
    Starts tape s := by
  refine h.ready.resolve_right ?_
  rintro ⟨other, hother, hends⟩
  rw [Option.some.inj (hother.symm.trans ht), hend] at hends
  cases hends

end AtTurn

/-- One turn of the loop over statements uses up a token, or it is at the end of the input. -/
theorem statementTurn_does (h : AtTurn tape s) :
    Does tape .full s (statementTurn ()) (Does.Turned s (fun _ s' => AtTurn tape s')
      fun _ s' => s'.position + 1 = tape.tokens.size) := by
  refine .ofSound fun hs => current_sees.bind fun token ht => ?_
  have hbound := hs.position_lt
  have hnonneg := hs.position_nonneg
  have hend := ht.lt_size_iff hs
  split
  · rename_i hk
    refine .pure ?_
    have := mt hend.1 (not_not_intro hk)
    change s.position + 1 = tape.tokens.size
    omega
  rename_i hk
  split
  · rename_i hmark
    refine (advance_past ht hk).bind ?_
    rintro _ s₁ hg₁ ⟨-, hpos⟩
    refine .pure ⟨by omega, h.grows hg₁ (.inl (.inr ?_))⟩
    rw [hpos, show (s.position + 1).toNat = s.position.toNat + 1 by omega]
    refine .of_endsData ht ?_
    simp only [Bool.or_eq_true, decide_eq_true_eq] at hmark
    rcases hmark with hline | hcolon
    · simp [endsData, Token.endsLine, hline]
    · simp [endsData, hcolon]
  · rename_i hmark
    have hinside : endsData token = false := by simp_all [endsData, Token.endsLine]
    refine (guardedStatement_does (hend.2 hk) h.rejected fun _ => h.starts ht hinside).bind ?_
    rintro _ s₁ hg₁ ⟨hlt, hready⟩
    exact .pure ⟨hlt, h.grows hg₁ (hready h.floors)⟩

/-- All statements are done at the end of the input. -/
theorem statements_does (h : AtTurn tape s) :
    Does tape .full s statements fun _ s' => s'.position + 1 = tape.tokens.size :=
  .loop (fun _ s' => AtTurn tape s') h fun _ _ _ hturn => statementTurn_does hturn

/-! ### Announcements -/

/-- What is announced stands on the tape. -/
def Emit.Announcement.Fits (tape : Tape) : Announcement → Prop
  | .data items => ∀ item ∈ items, ∀ token ∈ item, token ∈ tape.tokens
  | .header _ name _ => tape.Names name

theorem mem_of_splitItems (h : item ∈ splitItems tokens) (ht : token ∈ item) : token ∈ tokens := by
  induction tokens generalizing item with
  | nil =>
    simp only [splitItems, mem_singleton] at h
    simp [h] at ht
  | cons first rest ih =>
    simp only [splitItems] at h
    split at h
    · rcases mem_cons.1 h with rfl | h
      · cases ht
      · exact .tail _ (ih h ht)
    · split at h
      · simp only [mem_singleton] at h
        simp_all
      · rename_i head items hsplit
        rcases mem_cons.1 h with rfl | h
        · rcases mem_cons.1 ht with rfl | ht
          · exact .head _
          · exact .tail _ (ih (hsplit ▸ .head _) ht)
        · exact .tail _ (ih (hsplit ▸ .tail _ h) ht)

theorem fits_header? {kind : ProcedureKind} {rest : List Token}
    (h : ∀ token ∈ rest, token ∈ tape.tokens) : ∀ a ∈ header? kind rest, a.Fits tape := by
  intro a ha
  unfold header? at ha
  split at ha
  · split at ha
    · cases ha
      exact ⟨h _ (.head _), ‹_›⟩
    · cases ha
  · cases ha

theorem fits_announcements {inData : Bool} {front : Option Token}
    (h : ∀ token ∈ tokens, token ∈ tape.tokens) :
    ∀ a ∈ announcements inData front tokens, a.Fits tape := by
  induction tokens generalizing inData front with
  | nil => simp [announcements]
  | cons token rest ih =>
    have hrest : ∀ t ∈ rest, t ∈ tape.tokens := fun t ht => h t (.tail _ ht)
    have ih' : ∀ inData front, ∀ a ∈ announcements inData front rest, a.Fits tape :=
      fun _ _ => ih hrest
    unfold announcements
    split
    · exact ih' _ _
    split
    · refine forall_mem_cons.2 ⟨fun item hitem t ht => ?_, ih' _ _⟩
      exact hrest t ((takeWhile_sublist _).mem (mem_of_splitItems hitem ht))
    split
    · split
      · exact ih' _ _
      · intro a ha
        rcases mem_append.1 ha with ha | ha
        · exact fits_header? hrest a (Option.mem_toList.1 ha)
        · exact ih' _ _ a ha
    · exact ih' _ _

theorem dataLiteral_error (h : dataLiteral item = .error fault) :
    ∃ token ∈ item, token.kind = .number ∧ number token.text = .error fault := by
  unfold dataLiteral at h
  split at h
  · split at h
    · exact ⟨_, .head _, ‹_›, h⟩
    · cases h
  · rename_i sign token
    split at h
    · rename_i hk
      simp only [Bool.and_eq_true, decide_eq_true_eq] at hk
      refine ⟨token, by simp, hk.1, ?_⟩
      cases hn : number token.text with
      | ok value => simp [hn, Except.map] at h
      | error f => simpa [hn, Except.map] using h
    split at h
    · rename_i hk
      simp only [Bool.and_eq_true, decide_eq_true_eq] at hk
      exact ⟨token, by simp, hk.1, h⟩
    · cases h
  · cases h

theorem mapM_error {items : List α} {f : α → Except Fault β}
    (h : items.mapM f = .error fault) : ∃ item ∈ items, f item = .error fault := by
  induction items with
  | nil => cases h
  | cons item rest ih =>
    rw [mapM_cons] at h
    cases hf : f item with
    | error e =>
      rw [hf] at h
      cases h
      exact ⟨item, .head _, hf⟩
    | ok b =>
      rw [hf] at h
      cases hrest : rest.mapM f with
      | error e =>
        have he : e = fault := by simpa [hrest, bind, Except.bind] using h
        obtain ⟨i, hi, hfi⟩ := ih (hrest.trans (congrArg _ he))
        exact ⟨i, .tail _ hi, hfi⟩
      | ok bs => simp [hrest, bind, Except.bind, pure, Except.pure] at h

/-- Nothing was written, no name declared, no token used up, and no procedure begun or called. -/
structure Unwritten (s s' : State) : Prop where
  page : s'.page = s.page
  scopes : s'.scopes = s.scopes
  position : s'.position = s.position
  headers : s'.headers = s.headers
  calls : s'.calls = s.calls

namespace Unwritten

theorem refl (s : State) : Unwritten s s := ⟨rfl, rfl, rfl, rfl, rfl⟩

theorem trans (h : Unwritten s s₁) (h' : Unwritten s₁ s') : Unwritten s s' :=
  ⟨h'.page.trans h.page, h'.scopes.trans h.scopes, h'.position.trans h.position,
    h'.headers.trans h.headers, h'.calls.trans h.calls⟩

end Unwritten

/-- The table has a procedure with so many parameters under a name. -/
def State.Takes (s : State) (key : String) (parameters : Nat) : Prop :=
  ∃ p, s.procedures.get? key = some p ∧ p.parameters = parameters

/-- A header is in the table, or an error was reported. -/
def Emit.Announcement.Registered (s : State) : Announcement → Prop
  | .data _ => True
  | .header _ name parameters =>
    HasError s.collector.toList ∨ s.Takes (Text.upper name.text) parameters

theorem State.Takes.grows {key : String} {parameters : Nat} (h : s.Takes key parameters)
    (hg : Grows s s') : s'.Takes key parameters := by
  obtain ⟨p, hp, hcount⟩ := h
  exact ⟨p, hg.procedures key p hp, hcount⟩

theorem Emit.Announcement.Registered.grows (h : a.Registered s) (hg : Grows s s') :
    a.Registered s' := by
  cases a with
  | data items => trivial
  | header kind name parameters => exact Or.imp hg.errors (·.grows hg) h

theorem absorb_does (h : a.Fits tape) :
    Does tape level s (absorb a) fun _ s' => Unwritten s s' ∧ a.Registered s' := by
  cases a with
  | data items =>
    cases hvalues : items.mapM dataLiteral with
    | ok values =>
      simp only [absorb, hvalues]
      exact .event (.enrols (.data values)) (fun _ => rfl) (Level.allows_of_isQuiet rfl) trivial
        ⟨⟨rfl, rfl, rfl, rfl, rfl⟩, trivial⟩
    | error fault =>
      simp only [absorb, hvalues]
      obtain ⟨item, hitem, hfault⟩ := mapM_error hvalues
      obtain ⟨token, ht, hk, hnumber⟩ := dataLiteral_error hfault
      exact .fails (fun _ => rfl) (.number (h item hitem token ht) hk hnumber)
  | header kind name parameters =>
    have hname : tape.Names name := h
    refine .get (fun _ => rfl) ?_
    split
    · refine (reportAt_does hname.mem (Apart.append (.of_letters rfl rfl)).append).mono
        fun _ s' _ hs' => ?_
      obtain ⟨d, hd, rfl⟩ := hs'
      exact ⟨⟨rfl, rfl, rfl, rfl, rfl⟩, .inl (s.hasError_reported hd)⟩
    · extract_lets procedure
      have hj : tape.Titled (Text.upper name.text) procedure.jsName := by
        simpa only [procedure] using hname.titled
      have hnew : s.procedures.holds (Text.upper name.text) = false := Bool.eq_false_iff.2 ‹_›
      refine .event (.enrols (.procedure _ procedure)) (fun _ => rfl)
        (Level.allows_of_isQuiet rfl) ⟨hj, hnew⟩
        ⟨⟨rfl, rfl, rfl, rfl, rfl⟩, .inr ⟨procedure, ?_, rfl⟩⟩
      simp [Event.apply, Entry.apply, Table.get?_insert]

theorem absorbAll_does {list : List Announcement} (h : ∀ a ∈ list, a.Fits tape) :
    Does tape level s (absorbAll list) fun _ s' => Unwritten s s' ∧
      ∀ a ∈ list, a.Registered s' := by
  induction list generalizing s with
  | nil => exact .pure ⟨.refl s, by simp⟩
  | cons a rest ih =>
    refine (absorb_does (h a (.head _))).bind fun _ s₁ _ ⟨hfirst, hregistered⟩ => ?_
    refine (ih fun b hb => h b (.tail _ hb)).mono fun _ s' hg ⟨hrest, hall⟩ => ?_
    exact ⟨hfirst.trans hrest, forall_mem_cons.2 ⟨hregistered.grows hg, hall⟩⟩

theorem announce_does : Does tape level s announce fun _ => Unwritten s :=
  .read ((absorbAll_does (fits_announcements (by simp))).mono fun _ _ _ h => h.1)

/-- Every header that is announced is in the table behind the announcements. -/
theorem announce_registers : Does tape level s announce fun _ s' =>
    ∀ a ∈ announcements false none tape.tokens.toList, a.Registered s' :=
  .read ((absorbAll_does (fits_announcements (by simp))).mono fun _ _ _ h => h.2)

/-- Behind the announcements the first turn can begin. -/
theorem atTurn_of_announced (hpath : Path tape level { collector } s)
    (h : Unwritten { collector } s) : AtTurn tape s := by
  refine ⟨hpath.grows.floors, hpath.grows.rejected, .inl (.inr ?_)⟩
  rw [h.position]
  exact .zero tape

/-! ### What is never rejected -/

/-- Not a rejection. -/
def Unrejected : EStateM.Result Failure State α → Prop
  | .error (.rejected _) _ => False
  | _ => True

/-- An action that never ends with a rejection. -/
def Firm (x : Emit α) : Prop := ∀ tokens s, Unrejected (x tokens s)

namespace Firm

theorem pure (a : α) : Firm (Pure.pure a) := fun _ _ => trivial

theorem bind {f : α → Emit β} (h : Firm x) (h' : ∀ a, Firm (f a)) : Firm (x >>= f) := by
  intro tokens s
  have hx := h tokens s
  cases hr : x tokens s with
  | ok a s₁ =>
    rw [bind_ok hr]
    exact h' a tokens s₁
  | error failure s₁ =>
    rw [bind_error hr]
    rw [hr] at hx
    cases failure <;> trivial

theorem get {f : State → Emit α} (h : ∀ s, Firm (f s)) : Firm (MonadState.get >>= f) :=
  fun tokens s => h s tokens s

theorem read {f : Array Token → Emit α} (h : ∀ tokens, Firm (f tokens)) :
    Firm (MonadReader.read >>= f) :=
  fun tokens s => h tokens tokens s

theorem modify (f : State → State) : Firm (modify f : Emit Unit) := fun _ _ => trivial

theorem fail (fault : Fault) : Firm (Emit.fail fault : Emit α) := fun _ _ => trivial

theorem rescuing {instead : Rejection → Emit α} (h : ∀ r, Firm (instead r)) :
    Firm (Emit.rescuing x instead) := by
  intro tokens s
  unfold Emit.rescuing
  split
  · exact h _ tokens _
  · unfold Unrejected
    split
    · rename_i hne _ r s' he
      exact hne r s' he
    · trivial

theorem loop {start : β} {turn : β → Emit (Turn β α)} (h : ∀ b, Firm (turn b)) :
    Firm (Emit.loop start turn) := by
  have key : ∀ turns b, Firm (Emit.iterate turn turns b) := by
    intro turns
    induction turns with
    | zero => exact fun _ _ _ => trivial
    | succ turns ih =>
      refine fun b => (h b).bind fun result => ?_
      cases result with
      | again next => exact ih next
      | done a => exact .pure a
  exact fun tokens s => key (tokens.size + 1) start tokens s

theorem current : Firm current := by
  refine .read fun tokens => .get fun s => ?_
  split
  · exact .pure _
  · exact .fail _

theorem previous : Firm previous := by
  refine .get fun s => ?_
  extract_lets position
  split
  · exact .pure _
  · refine .read fun tokens => ?_
    split
    · exact .pure _
    · exact .fail _

theorem advance : Firm advance := by
  refine current.bind fun token => ?_
  extract_lets jp
  split
  · exact (modify _).bind fun _ => .pure _
  · exact .pure _

theorem report (d : Diagnostic) : Firm (report d) := modify _

theorem record (r : Rejection) : Firm (record r) := by
  refine .get fun s => ?_
  split
  · exact (modify _).bind fun _ => report _
  · exact .pure _

theorem resume : Firm resume := by
  have htest : ∀ test : Token → Bool, Firm (do return test (← Emit.current)) :=
    fun _ => current.bind fun _ => .pure _
  refine advance.bind fun _ => .loop fun _ => (htest _).bind fun _ => ?_
  split
  · exact .pure _
  refine previous.bind fun _ => ?_
  split
  · exact .pure _
  refine (htest _).bind fun _ => ?_
  split
  · exact .pure _
  · exact advance.bind fun _ => .pure _

theorem guardedStatement : Firm guardedStatement :=
  .rescuing fun r => (record r).bind fun _ => resume

theorem statements : Firm statements := by
  refine .loop fun _ => current.bind fun token => ?_
  split
  · exact .pure _
  split
  · exact advance.bind fun _ => .pure _
  · exact guardedStatement.bind fun _ => .pure _

theorem absorb (a : Announcement) : Firm (absorb a) := by
  cases a with
  | data items =>
    refine bind ?_ fun values => modify _
    cases items.mapM dataLiteral with
    | ok values => exact .pure values
    | error fault => exact .fail fault
  | header kind name parameters =>
    refine .get fun s => ?_
    split
    · exact report _
    · exact modify _

theorem announce : Firm announce := by
  refine .read fun tokens => ?_
  induction announcements false none tokens.toList with
  | nil => exact .pure _
  | cons a rest ih => exact (absorb a).bind fun _ => ih

end Firm

/-! ### The pass -/

/-- The state in which the hoisted declarations of the module stand at its top. -/
def State.hoisted (s : State) : State :=
  if s.scopes.root.hoisted.isEmpty then s
  else { s with
    page := s.page.insert s.scopes.root.mark s.scopes.root.hoisted s.scopes.root.indent }

theorem State.hoisted_below (front : List Line) (h : s.scopes.Marked) :
    (s.below front).hoisted = s.hoisted.below front := by
  have hinsert :
      (s.below front).page.insert (s.scopes.root.mark + front.length) s.scopes.root.hoisted
      s.scopes.root.indent =
        (s.page.insert s.scopes.root.mark s.scopes.root.hoisted s.scopes.root.indent).below front :=
    Page.insert_below front s.page (h _ (by simp)) ..
  have hroot : (s.below front).scopes.root = s.scopes.root.below front.length := rfl
  simp only [State.hoisted, hroot, Scope.below, hinsert]
  cases hhoisted : s.scopes.root.hoisted.isEmpty <;> rfl

theorem State.hoisted_eq (s : State) : ∃ page, s.hoisted = { s with page } := by
  unfold State.hoisted
  split
  · exact ⟨s.page, rfl⟩
  · exact ⟨_, rfl⟩

/-- The state of the pass behind the last statement: the cursor is at the end of the input, and
every block is ended. -/
structure Finished (tape : Tape) (collector : Collector) (s : State) : Prop where
  path : Path tape .full { collector } s
  announced : ∃ start, announce tape.tokens { collector } = .ok () start ∧ Path tape .full start s
  position : s.position + 1 = tape.tokens.size
  blocks : s.blocks = []

/-- A number of the tape has no literal. -/
def Faults (tape : Tape) (fault : Fault) : Prop :=
  ∃ token ∈ tape.tokens, token.kind = .number ∧ number token.text = .error fault

/-- What is not rejected ends in a fault, if it fails. -/
theorem Does.ok_or_faults {Q : α → State → Prop} (h : Does tape level s x Q)
    (hfirm : Firm x) (hs : Sound tape s) :
    (∃ a s', x tape.tokens s = .ok a s' ∧ Path tape level s s' ∧ Q a s') ∨
      ∃ fault s', x tape.tokens s = .error (.fault fault) s' ∧ Path tape level s s' ∧
        Faults tape fault := by
  have hmeets := (h hs).1
  have hunrejected := hfirm tape.tokens s
  cases hr : x tape.tokens s with
  | ok a s' =>
    rw [hr] at hmeets
    exact .inl ⟨a, s', rfl, hmeets⟩
  | error failure s' =>
    rw [hr] at hmeets hunrejected
    cases hmeets.2 with
    | rejected => cases hunrejected
    | number ht hk hnumber => exact .inr ⟨_, s', rfl, hmeets.1, _, ht, hk, hnumber⟩

theorem hoistModule_eq (tokens : Array Token) (s : State) :
    hoistModule tokens s = .ok () s.hoisted := by
  obtain ⟨position, page,
    ⟨cells, inner, ⟨kind, name, mark, indent, names, hoisted, base⟩, shared⟩⟩ := s
  cases hoisted <;> rfl

/-- **The pass** ends with every block ended, and then the declarations of the module are put at its
top; or a number has no literal. -/
theorem pass_cases (tape : Tape) (collector : Collector) :
    (∃ s, Finished tape collector s ∧ pass tape.tokens collector = .ok () s.hoisted) ∨
      ∃ fault s, pass tape.tokens collector = .error (.fault fault) s ∧
        Path tape .full { collector } s ∧ Faults tape fault := by
  have hs := sound_start tape collector
  unfold Emit.pass program body
  rcases announce_does.ok_or_faults .announce hs with
    ⟨_, s₁, hr₁, hpath₁, hunwritten⟩ | ⟨fault, s₁, hr₁, hpath₁, hfault⟩
  case inr => exact .inr ⟨fault, s₁, bind_error hr₁ _, hpath₁, hfault⟩
  have hturn := atTurn_of_announced hpath₁ hunwritten
  rcases (statements_does hturn).ok_or_faults .statements (hpath₁.sound hs) with
    ⟨_, s₂, hr₂, hpath₂, hend⟩ | ⟨fault, s₂, hr₂, hpath₂, hfault⟩
  case inr =>
    exact .inr ⟨fault, s₂, (bind_ok hr₁ _).trans (bind_error hr₂ _), hpath₁.trans hpath₂, hfault⟩
  have hpath := hpath₁.trans hpath₂
  obtain ⟨_, s₃, hr₃, hpath₃, hblocks, -⟩ := abandonAll_completes (hpath.sound hs)
  have hposition : s₃.position + 1 = tape.tokens.size := by
    have := hpath₃.grows.position
    have := (hpath₃.sound (hpath.sound hs)).position_lt
    omega
  have hpath₃' : Path tape .full s₂ s₃ := hpath₃.rise (by decide)
  refine .inl ⟨s₃, ⟨hpath.trans hpath₃', ⟨s₁, hr₁, hpath₂.trans hpath₃'⟩, hposition, hblocks⟩, ?_⟩
  rw [bind_ok hr₁, bind_ok hr₂, bind_ok (of_below hr₃), hoistModule_eq]

/-! ### The end of the pass -/

/-- A number of the source that has no literal has too many digits and no point. -/
theorem Faults.tooManyDigits (h : Faults tape fault) :
    ∃ token ∈ tape.tokens, token.kind = .number ∧ '.' ∉ token.text.toList ∧
      digitLimit < (token.text.toList.filter isDigit).length ∧
      fault = .tooManyDigits (token.text.toList.filter isDigit).length := by
  obtain ⟨token, ht, hk, hnumber⟩ := h
  exact ⟨token, ht, hk, number_error ((tape.fits token ht).numeral hk) hnumber⟩

/-- Behind the last statement the cursor is on the end of the input, and only the scope of the
module is open. -/
theorem Finished.atEnd (h : Finished tape collector s) :
    (∃ last, Sequence.at? tape.tokens s.position = some last ∧ last.kind = .endOfInput) ∧
      s.scopes.isModule = true := by
  have hs := h.path.sound (sound_start tape collector)
  obtain ⟨last, -, hunder, hat⟩ := tape.at?_eq hs.position_nonneg hs.position_lt
  have hlast : tape.Under s last := hunder
  have hend := (hlast.lt_size_iff hs).not.1 (by have := h.position; omega)
  have hinner : s.scopes.inner = [] := by simpa [h.blocks, expectedScopes] using hs.framed.inner
  exact ⟨⟨last, hat, not_not.1 hend⟩, by simp [Scopes.isModule, hinner]⟩

/-- **The end of the pass.**  The pass over a source comes to its end: the cursor is on the last
token, the end of the input, every block is ended and only the scope of the module is open.  Or it
fails, and then only because of a number without a point that has too many digits, with the cursor
still on the tape. -/
theorem pass_ends_or_tooManyDigits (source : String) (hread : (scan source).fault = none)
    (collector : Collector) :
    (∃ s last, pass (scan source).tokens.toArray collector = .ok () s ∧
        s.position + 1 = (scan source).tokens.length ∧
        Sequence.at? (scan source).tokens.toArray s.position = some last ∧
        last.kind = .endOfInput ∧ s.blocks = [] ∧ s.scopes.isModule = true) ∨
      ∃ token ∈ (scan source).tokens, token.kind = .number ∧ '.' ∉ token.text.toList ∧
        digitLimit < (token.text.toList.filter isDigit).length ∧
        ∃ s, pass (scan source).tokens.toArray collector =
            .error (.fault (.tooManyDigits (token.text.toList.filter isDigit).length)) s ∧
          0 ≤ s.position ∧ s.position < (scan source).tokens.length := by
  rcases pass_cases (Tape.ofSource source hread) collector with
    ⟨s, hfinished, hpass⟩ | ⟨fault, s, hpass, hpath, hfault⟩
  · obtain ⟨⟨last, hat, hend⟩, hmodule⟩ := hfinished.atEnd
    have hposition := hfinished.position
    have hblocks := hfinished.blocks
    obtain ⟨page, hhoisted⟩ := s.hoisted_eq
    rw [hhoisted] at hpass
    exact .inl ⟨_, last, hpass,
      by simpa [Tape.ofSource] using hposition, hat, hend, hblocks, hmodule⟩
  · obtain ⟨token, ht, hk, hpoint, hlimit, rfl⟩ := hfault.tooManyDigits
    have hs := hpath.sound (sound_start _ collector)
    exact .inr ⟨token, by simpa [Tape.ofSource] using ht, hk, hpoint, hlimit, s, hpass,
      hs.position_nonneg, by simpa [Tape.ofSource] using hs.position_lt⟩

/-- Blocks that do not match, a type without an end and stray signs do not keep the pass from its
end. -/
theorem garbled_source_ends :
    ∃ s last, pass (scan "NEXT\nSUB f(\nIF x THEN END SUB ELSE )\nTYPE t\n).(").tokens.toArray {} =
        .ok () s ∧
      s.position + 1 = (scan "NEXT\nSUB f(\nIF x THEN END SUB ELSE )\nTYPE t\n).(").tokens.length ∧
      Sequence.at? (scan "NEXT\nSUB f(\nIF x THEN END SUB ELSE )\nTYPE t\n).(").tokens.toArray
        s.position = some last ∧
      last.kind = .endOfInput ∧ s.blocks = [] ∧ s.scopes.isModule = true := by
  have hread : (scan "NEXT\nSUB f(\nIF x THEN END SUB ELSE )\nTYPE t\n).(").fault = none := by
    decide +kernel
  have hshort : ∀ token ∈ (scan "NEXT\nSUB f(\nIF x THEN END SUB ELSE )\nTYPE t\n).(").tokens,
      token.kind ≠ .number := by
    decide +kernel
  rcases pass_ends_or_tooManyDigits _ hread {} with hends | ⟨token, ht, hk, -⟩
  · exact hends
  · exact absurd hk (hshort token ht)

end BasicScript
