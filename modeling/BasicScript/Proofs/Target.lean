import BasicScript.Proofs.Program

/-!
# Programs for targets

A program for a target is written on one page: the lines in front of the body, the body, and the
lines behind it.  The targets differ in the first and in the last, so every place that the pass
marks lies elsewhere.  But the body is written blindly (`body_blind`): with other lines in front of
it the pass does the same.  So each target frames one and the same body (`exists_framed`), and
compiling a source for different targets gives the same diagnostics, the same success and the same
failure (`targets_frame_one_body`).
-/

namespace BasicScript

open Emit Script List

variable {tape : Tape} {s : State}

/-! ### The body -/

theorem hoistModule_blind {tokens : Array Token} (h : s.scopes.Marked) :
    Blind tokens s hoistModule :=
  .of_ok fun front => by rw [hoistModule_eq, State.hoisted_below front h]

/-- **The body** is written in the same way below any lines. -/
theorem body_blind (hs : Sound tape s) (hturn : AtTurn tape s) : Blind tape.tokens s body := by
  obtain ⟨hmeets, hblind⟩ := statements_does hturn hs
  refine hblind.bind fun _ s₁ hr => ?_
  rw [hr] at hmeets
  have hs₁ := hmeets.1.sound hs
  obtain ⟨_, s₂, hx, hpath, -⟩ := abandonAll_completes hs₁
  refine Blind.bind (.of_ok hx) fun _ s₃ hr₃ => ?_
  cases (of_below hx).symm.trans hr₃
  exact hoistModule_blind (hpath.sound hs₁).marked

/-! ### The frame -/

/-- The lines in front of a body. -/
def Target.front (target : Target) (values : List String) : List Line :=
  (target.preamble values).map (Line.mk 0)

theorem render_rawLines (texts : List String) :
    (texts.map (Line.mk 0)).map (Line.render indentUnit) = texts := by
  rw [map_map]
  exact map_id'' (fun text => String.empty_append) texts

/-- With nothing written yet, the body begins below the lines in front of it. -/
theorem openBody_eq {collector : Collector} (h : Unwritten { collector } s) (target : Target)
    (tokens : Array Token) :
    openBody target tokens s = .ok () (s.below (target.front s.dataValues)) := by
  obtain ⟨hpage, hscopes, -⟩ := h
  change EStateM.Result.ok () { s with page := _, scopes := _ } = _
  simp [State.below, hpage, hscopes, Page.below, Page.rawLines, Page.mark, Scopes.below,
    Scopes.start, Scope.below, Target.front]

theorem closeBody_eq (target : Target) (tokens : Array Token) (s : State) :
    closeBody target tokens s = .ok ()
      { s with page := { s.page with indent := 0 }.rawLines target.postamble } :=
  rfl

/-- What the pass for a target comes to, told from the pass that writes the body alone: it frames
the body, or fails in the same way. -/
def FramedBy (target : Target) (values : List String) :
    EStateM.Result Failure State Unit → EStateM.Result Failure State Unit → Prop
  | .ok _ s, .ok _ s' => s'.collector = s.collector ∧
      s'.page.render indentUnit = target.preamble values ++ s.page.render indentUnit ++
        target.postamble
  | .error failure s, .error failure' s' => failure' = failure ∧ s'.collector = s.collector
  | _, _ => False

/-- The lines that a pass leaves on its page. -/
def bodyOf : EStateM.Result Failure State Unit → List String
  | .ok _ s => s.page.render indentUnit
  | .error _ _ => []

/-- **Frames.**  The pass for any target frames the body of the one pass that writes the body alone.
The values in front of it are those that were announced. -/
theorem exists_framed (tape : Tape) (collector : Collector) :
    ∃ values, (∀ s, announce tape.tokens { collector } = .ok () s → s.dataValues = values) ∧
      ∀ target : Target,
      FramedBy target values (pass tape.tokens collector)
        (passFor target tape.tokens collector) := by
  have hs := sound_start tape collector
  have hannounce : Does tape .full { collector } announce fun _ => Unwritten { collector } :=
    announce_does
  obtain ⟨hmeets, -⟩ := hannounce hs
  unfold Emit.pass program passFor programFor
  cases hr : announce tape.tokens { collector } with
  | error failure s₁ =>
    refine ⟨[], by simp, fun target => ?_⟩
    rw [bind_error hr, bind_error hr]
    exact ⟨rfl, rfl⟩
  | ok _ s₁ =>
    rw [hr] at hmeets
    obtain ⟨hpath, hunwritten⟩ := hmeets
    refine ⟨s₁.dataValues, fun s hs => (by cases hs; rfl), fun target => ?_⟩
    have hbelow := body_blind (hpath.sound hs) (atTurn_of_announced hpath hunwritten)
      (target.front s₁.dataValues)
    rw [bind_ok hr, bind_ok hr, bind_ok (openBody_eq hunwritten target tape.tokens)]
    cases hbody : body tape.tokens s₁ with
    | error failure s₂ =>
      rw [hbody] at hbelow
      rw [bind_error hbelow]
      exact ⟨rfl, rfl⟩
    | ok _ s₂ =>
      rw [hbody] at hbelow
      rw [bind_ok hbelow, closeBody_eq]
      refine ⟨rfl, ?_⟩
      simp only [Page.render, Page.rawLines, State.below, Page.below,
        Target.front, Array.toList_append, map_append, render_rawLines]

/-! ### Compiling -/

/-- What is generated by the pass for a target, told from the pass that writes the body alone. -/
theorem FramedBy.ofPass {target : Target} {values : List String}
    {r r' : EStateM.Result Failure State Unit} (h : FramedBy target values r r') :
    Generated.ofPass r' = { Generated.ofPass r with
      code := if (Generated.ofPass r).failure.isSome then "" else
        Text.joinWith "\n" (target.preamble values ++ bodyOf r ++ target.postamble) } := by
  cases r with
  | ok _ s =>
    cases r' with
    | ok _ s' =>
      obtain ⟨hcollector, hpage⟩ := h
      simp only [Generated.ofPass, hcollector, Page.output, hpage]
      rfl
    | error => cases h
  | error failure s =>
    cases r' with
    | ok => cases h
    | error failure' s' =>
      obtain ⟨rfl, hcollector⟩ := h
      simp only [Generated.ofPass, hcollector]
      rfl

/-! ### The last state -/

/-- The state in which the pass over a source begins. -/
def firstState (source : String) : State :=
  { collector := Collector.empty.addAll (Lexer.scan source).warnings }

/-- The state in which the pass over a source ends, whether it fails or not.  Over a source that
cannot be read it does not begin. -/
def lastState (source : String) : State :=
  match (Lexer.scan source).fault with
  | some _ => firstState source
  | none =>
    match pass (Lexer.scan source).tokens.toArray (firstState source).collector with
    | .ok _ s | .error _ s => s

section LastState

variable {source : String}

theorem lastState_of_unread {fault : Fault} (h : (Lexer.scan source).fault = some fault) :
    lastState source = firstState source := by
  simp only [lastState, h]

variable (hread : (Lexer.scan source).fault = none)

include hread

theorem lastState_of_ok
    (h : pass (Lexer.scan source).tokens.toArray (firstState source).collector = .ok () s) :
    lastState source = s := by
  simp only [lastState, hread, h]

theorem lastState_of_error {failure : Failure}
    (h : pass (Lexer.scan source).tokens.toArray (firstState source).collector = .error failure s) :
    lastState source = s := by
  simp only [lastState, hread, h]

/-- Events lead to the last state of a pass, but for the declarations at the top of the module. -/
theorem exists_path_lastState :
    ∃ s page, Path (Tape.ofSource source hread) .full (firstState source) s ∧
      lastState source = { s with page } := by
  rcases pass_cases (Tape.ofSource source hread) (firstState source).collector with
    ⟨s, hfinished, hpass⟩ | ⟨fault, s, hpass, hpath, -⟩
  · obtain ⟨page, hhoisted⟩ := s.hoisted_eq
    exact ⟨s, page, hfinished.path, (lastState_of_ok hread hpass).trans hhoisted⟩
  · exact ⟨s, s.page, hpath, lastState_of_error hread hpass⟩

end LastState

/-- Why nothing is generated for a source: it cannot be read, or a number in it has no point and too
many digits. -/
def Fails (source : String) (fault : Fault) : Prop :=
  (Lexer.scan source).fault = some fault ∨
    (Lexer.scan source).fault = none ∧ ∃ token ∈ (Lexer.scan source).tokens,
      token.kind = .number ∧ '.' ∉ token.text.toList ∧
      digitLimit < (token.text.toList.filter Lexer.isDigit).length ∧
      fault = .tooManyDigits (token.text.toList.filter Lexer.isDigit).length

/-- **What becomes of a source.**  It fails for every target, and the fault is recorded behind the
diagnostics of the last state; or the pass over it comes to its end, and every target frames the
body that it leaves. -/
theorem generated_cases (source : String) :
    (∃ fault, Fails source fault ∧ ∀ target, Generated.ofScan target (Lexer.scan source) =
        Generated.failed (lastState source).collector (.fault fault)) ∨
      ∃ (hread : (Lexer.scan source).fault = none) (s : State) (values : List String),
        Finished (Tape.ofSource source hread) (firstState source).collector s ∧
        pass (Lexer.scan source).tokens.toArray (firstState source).collector = .ok () s.hoisted ∧
        lastState source = s.hoisted ∧
        ∀ target, Generated.ofScan target (Lexer.scan source) =
          { code := Text.joinWith "\n"
              (target.preamble values ++ s.hoisted.page.render indentUnit ++ target.postamble),
            diagnostics := s.hoisted.collector.toList } := by
  by_cases hread : (Lexer.scan source).fault = none
  · obtain ⟨values, -, hframed⟩ :=
      exists_framed (Tape.ofSource source hread) (firstState source).collector
    have hgenerated (target : Target) : Generated.ofScan target (Lexer.scan source) =
        Generated.ofPass (passFor target (Tape.ofSource source hread).tokens
          (firstState source).collector) := by
      simp only [Generated.ofScan, hread]
      rfl
    rcases pass_cases (Tape.ofSource source hread) (firstState source).collector with
      ⟨s, hfinished, hpass⟩ | ⟨fault, s, hpass, -, hfault⟩
    · refine .inr ⟨hread, s, values, hfinished, hpass, lastState_of_ok hread hpass,
        fun target => ?_⟩
      rw [hgenerated, (hframed target).ofPass, hpass]
      rfl
    · obtain ⟨token, ht, hdigits⟩ := hfault.tooManyDigits
      refine .inl ⟨fault, .inr ⟨hread, token, by simpa [Tape.ofSource] using ht, hdigits⟩,
        fun target => ?_⟩
      rw [hgenerated, (hframed target).ofPass, hpass, lastState_of_error hread hpass]
      rfl
  · obtain ⟨fault, hfault⟩ := Option.ne_none_iff_exists'.1 hread
    refine .inl ⟨fault, .inl hfault, fun target => ?_⟩
    rw [lastState_of_unread hfault]
    simp only [Generated.ofScan, hfault]
    rfl

/-- What the last state of the pass has is recorded, and the failure of the pass besides if it
failed. -/
theorem recorded_cases (source : String) (target : Target) :
    recorded target source = (lastState source).collector.toList ∨
      ∃ failure, recorded target source =
        (Generated.failed (lastState source).collector failure).diagnostics := by
  rcases generated_cases source with ⟨fault, -, h⟩ | ⟨-, s, values, -, -, hlast, h⟩
  · exact .inr ⟨_, congrArg Generated.diagnostics (h target)⟩
  · exact .inl (hlast ▸ congrArg Generated.diagnostics (h target))

theorem collector_prefix_recorded (source : String) (target : Target) :
    (lastState source).collector.toList <+: recorded target source := by
  rcases recorded_cases source target with h | ⟨failure, h⟩ <;> simp [h, Generated.failed]

/-- The warnings of reading the source are recorded first. -/
theorem warnings_prefix_recorded {source : String} (hread : (Lexer.scan source).fault = none)
    (target : Target) : (Lexer.scan source).warnings <+: recorded target source := by
  obtain ⟨s, page, hpath, hlast⟩ := exists_path_lastState hread
  have hkept := hpath.grows.collected
  have hrecorded := collector_prefix_recorded source target
  rw [firstState, Collector.toList_addAll, Collector.toList_empty, nil_append] at hkept
  rw [hlast] at hrecorded
  exact hkept.trans hrecorded

/-- **What is generated.**  The diagnostics, the failure, the data and the body are those of the
source. -/
theorem exists_generated (source : String) :
    ∃ (diagnostics : List Diagnostic) (failure : Option Failure) (values body : List String),
      ∀ target, Generated.ofScan target (Lexer.scan source) =
        { code := if failure.isSome then "" else
            Text.joinWith "\n" (target.preamble values ++ body ++ target.postamble),
          diagnostics, failure } := by
  rcases generated_cases source with ⟨fault, -, h⟩ | ⟨-, s, values, -, -, -, h⟩
  · exact ⟨_, some (.fault fault), [], [], h⟩
  · exact ⟨_, none, values, _, h⟩

theorem Target.ofName_name (target : Target) : ofName target.name = .ok target := by
  cases target <;> rfl

/-- What compiling returns for what was generated and what is shown of the diagnostics. -/
def Generated.compilation (generated : Generated) (source : String) (target : Target)
    (shown : List Diagnostic) : Compilation :=
  { code := generated.code, diagnostics := shown, success := !shown.any (·.isError), target,
    sourceSize := source.length,
    measures := some
      { tokens := if (Lexer.scan source).fault.isSome then 0 else (Lexer.scan source).tokens.length,
        lines := Compiler.lineCount source },
    failure := generated.failure }

/-- Compiling with nothing kept from before, for a target that is named. -/
theorem compile_empty (c : Compiler) {cache : Cache} (h : cache.table.entries = [])
    (source : String) (target : Target) :
    (c.compile cache source (some target.name)).1 =
      (limited c.maxErrors (Generated.ofScan target (Lexer.scan source)).diagnostics).map
        ((Generated.ofScan target (Lexer.scan source)).compilation source target) := by
  have hmiss := Cache.lookup_of_empty h source target.name
  rcases hl : cache.lookup source target.name with ⟨found, cache'⟩
  rw [hl] at hmiss
  obtain rfl : found = none := hmiss
  rcases hscan : c.arena.reset.scan source with ⟨scan, arena⟩
  obtain rfl : scan = Lexer.scan source := by rw [← c.arena.reset.scan_fst source, hscan]
  simp only [Compiler.compile, Option.map_some, Option.getD_some, Target.ofName_name,
    Compiler.compileFor, hl, Compiler.compileFresh, hscan]
  split <;> rename_i hlimited <;> rw [hlimited] <;> rfl

/-- **One body for all targets.**  Compiling a source with nothing kept from before gives, for any
target, the same diagnostics, the same success and the same failure of the pass; the program has the
lines of one body between the lines that the target puts in front of it and behind it.  A fault
comes only from a limit that shows no diagnostic, and is the same for any target. -/
theorem targets_frame_one_body (source : String) :
    ∃ values body : List String, ∀ (c : Compiler) (cache : Cache), cache.table.entries = [] →
      (c.maxErrors < 1 ∧ ∃ fault, ∀ target : Target,
        (c.compile cache source (some target.name)).1 = .error fault) ∨
      ∃ result : Compilation, ∀ target : Target, (c.compile cache source (some target.name)).1 =
        .ok { result with
          target := target
          code := if result.failure.isSome then "" else
            Text.joinWith "\n" (target.preamble values ++ body ++ target.postamble) } := by
  obtain ⟨diagnostics, failure, values, body, hgenerated⟩ := exists_generated source
  refine ⟨values, body, fun c cache hempty => ?_⟩
  simp only [fun target => compile_empty c hempty source target, hgenerated]
  cases hlimited : limited c.maxErrors diagnostics with
  | error fault =>
    refine .inl ⟨?_, fault, fun target => rfl⟩
    refine Int.not_le.1 fun hmax => ?_
    obtain ⟨shown, hshown, -⟩ := limited_hasError hmax diagnostics
    cases hlimited.symm.trans hshown
  | ok shown =>
    exact .inr ⟨Generated.compilation { code := "", diagnostics, failure } source .node shown,
      fun target => rfl⟩

/-- Variables that are declared at the top of a procedure and of the module stand at the same lines
of the body for both targets, although the lines in front of it are not as many. -/
theorem both_targets_declare_at_top :
    Cache.single.table.entries = [] ∧
      (Target.node.preamble []).length ≠ (Target.web.preamble []).length ∧
      ∃ values body : List String, ∃ result : Compilation, ∀ target : Target,
        (({ target := .node, maxErrors := 1 } : Compiler).compile .single
            "PRINT a\nSUB f\nPRINT b\nEND SUB\nNEXT" (some target.name)).1 = .ok { result with
          target := target
          code := if result.failure.isSome then "" else
            Text.joinWith "\n" (target.preamble values ++ body ++ target.postamble) } := by
  refine ⟨rfl, by decide +kernel, ?_⟩
  obtain ⟨values, body, hcompile⟩ := targets_frame_one_body "PRINT a\nSUB f\nPRINT b\nEND SUB\nNEXT"
  rcases hcompile { target := .node, maxErrors := 1 } .single rfl with ⟨hlimit, -⟩ | hresult
  · cases hlimit
  · exact ⟨values, body, hresult⟩

end BasicScript
