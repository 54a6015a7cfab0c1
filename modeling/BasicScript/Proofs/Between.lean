import BasicScript.Proofs.Containment
import BasicScript.Proofs.Layout

/-!
# Where statements begin

The statements of a source begin at the turns of the loop over statements, whether the statement in
front was rejected or not, and in the branches of single-line `IF`s (`Between`).  The events of a
pass lead to each of these states, with single-line `IF`s that were entered and not left yet
(`Visited`); so what runs keep is known there (`Begun.of_between`).

* `blocks_and_scopes_agree`: wherever a statement can begin, the block of a procedure is the
  outermost one, and there is a scope for it inside that of the module; nothing is open when the
  pass is over.
-/

namespace BasicScript

open Emit Lexer List

variable {tape : Tape} {level : Level} {s s₁ s' : State} {es : List Event}

/-- A single-line `IF` begins in a state, and its first branch in another, behind the condition. -/
def EntersIf (tokens : Array Token) (s s' : State) : Prop :=
  ∃ token s₁ condition s₂ s₃, advance tokens s = .ok token s₁ ∧ token.isKeyword "IF" = true ∧
    ifCondition tokens s₁ = .ok condition s₂ ∧ atLineEnd tokens s₂ = .ok false s₂ ∧
    openLine ("if (" ++ condition ++ ") \x7b") tokens s₂ = .ok () s₃ ∧
    s' = { s₃ with floors := s₃.blocks.length :: s₃.floors }

/-- A statement can begin in a state of a pass, with single-line `IF`s inside it that nest so deep:
the loop over statements begins a turn there, or the loop over the statements of a branch does. -/
inductive Between (tokens : Array Token) (collector : Collector) : Nat → State → Prop where
  | turn {s : State} (h : BeginsTurn tokens collector s) :
      Between tokens collector (tokens.size + 1) s
  | branch {depth : Nat} {s s' : State} (h : Between tokens collector (depth + 1) s)
      (henter : EntersIf tokens s s') : Between tokens collector depth s'
  | elseBranch {depth : Nat} {s s₁ s₂ s₃ s₄ s' : State} (h : Between tokens collector (depth + 1) s)
      (henter : EntersIf tokens s s₁)
      (hfirst : inlineBranch (statementTo depth) tokens s₁ = .ok () s₂)
      (htaken : takeKeyword "ELSE" tokens s₂ = .ok true s₃)
      (habandon : abandonAbove s₁.blocks.length tokens s₃ = .ok () s₄)
      (hturn : turnLine "\x7d else \x7b" tokens s₄ = .ok () s') : Between tokens collector depth s'
  | again {depth : Nat} {s s' : State} (h : Between tokens collector depth s)
      (hinside : s.floors ≠ [])
      (hagain : inlineTurn (statementTo depth) () tokens s = .ok (.again ()) s') :
      Between tokens collector depth s'

/-! ### States inside single-line `IF`s -/

/-- A state that the events of a pass lead to.  The single-line `IF`s around it were entered, and
not left. -/
inductive Visited (tape : Tape) : State → Prop where
  | start (collector : Collector) : Visited tape { collector }
  | run {level : Level} {s s' : State} {es : List Event} (h : Visited tape s)
      (hrun : Run tape level s es s') : Visited tape s'
  | enters {s : State} {condition : String} (h : Visited tape s)
      (hfit : (Event.enters condition).Fits tape s) :
      Visited tape ((Event.enters condition).apply s)
  | turns {s : State} (h : Visited tape s) (hfit : Event.turns.Fits tape s) :
      Visited tape (Event.turns.apply s)

theorem Visited.sound (h : Visited tape s) : Sound tape s := by
  induction h with
  | start collector => exact sound_start tape collector
  | run _ hrun ih => exact hrun.sound ih
  | enters _ hfit ih | turns _ hfit ih => exact ih.apply hfit

/-- What is known where a statement can begin.  There are levels of nesting for all tokens ahead. -/
structure Begun (tape : Tape) (depth : Nat) (s : State) : Prop where
  visited : Visited tape s
  levels : (tape.tokens.size : Int) ≤ depth + s.position

namespace Begun

variable {depth : Nat} {collector : Collector}

theorem sound (h : Begun tape depth s) : Sound tape s := h.visited.sound

theorem of_runs (h : Runs tape.tokens s s') (hvisited : Visited tape s) (hturn : AtTurn tape s) :
    Visited tape s' := by
  induction h with
  | refl => exact hvisited
  | turn hgives _ _ ih =>
    obtain ⟨⟨es, hrun⟩, -, hnext⟩ := (statementTurn_does hturn).of_ok hvisited.sound hgives
    exact ih (hvisited.run hrun) hnext

theorem of_beginsTurn (h : BeginsTurn tape.tokens collector s) :
    Begun tape (tape.tokens.size + 1) s := by
  obtain ⟨start, hannounce, hruns⟩ := h
  have hdoes : Does tape .full { collector } announce fun _ => Unwritten { collector } :=
    announce_does
  obtain ⟨⟨es, hrun⟩, hunwritten⟩ := hdoes.of_ok (sound_start tape collector) hannounce
  have hvisited :=
    of_runs hruns (.run (.start collector) hrun) (atTurn_of_announced ⟨es, hrun⟩ hunwritten)
  have hposition := hvisited.sound.position_nonneg
  exact ⟨hvisited, by omega⟩

/-- Where the first branch of a single-line `IF` begins. -/
theorem enter (h : Begun tape (depth + 1) s) (henter : EntersIf tape.tokens s s') :
    Begun tape depth s' ∧ ∃ rest, s'.floors = s'.blocks.length :: rest := by
  obtain ⟨token, s₁, condition, s₂, s₃, hadvance, hif, hcondition, -, hopen, rfl⟩ := henter
  obtain ⟨here, hunder⟩ := h.sound.exists_under
  have hmoves : Does tape .full s advance fun t s' => t = here ∧
      s'.position = if here.kind = .endOfInput then s.position else s.position + 1 :=
    (advance_completes hunder (.inl rfl)).does
  obtain ⟨⟨es₁, hrun₁⟩, rfl, hposition⟩ := hmoves.of_ok h.sound hadvance
  rw [if_neg (by simp [Token.kind_of_isKeyword hif])] at hposition
  have h₁ := h.visited.run hrun₁
  obtain ⟨⟨es₂, hrun₂⟩, hsealed⟩ := ifCondition_does.of_ok h₁.sound hcondition
  cases hopen
  refine ⟨⟨.enters (h₁.run hrun₂) hsealed, ?_⟩, _, rfl⟩
  have hlevels := h.levels
  have hahead := hrun₂.grows.position
  change (tape.tokens.size : Int) ≤ depth + s₂.position
  push_cast at hlevels
  omega

theorem run (h : Begun tape depth s) (hpath : Path tape .full s s') : Begun tape depth s' := by
  obtain ⟨es, hrun⟩ := hpath
  have hlevels := h.levels
  have hposition := hrun.grows.position
  exact ⟨h.visited.run hrun, by omega⟩

theorem turn {floor : Nat} {rest : List Nat} (h : Begun tape depth s)
    (hfloors : s.floors = floor :: rest) (hblocks : s.blocks.length ≤ floor) :
    Begun tape depth (Event.turns.apply s) :=
  ⟨h.visited.turns ⟨floor, rest, hfloors, hblocks⟩, h.levels⟩

/-- Where the second branch of a single-line `IF` begins. -/
theorem second {s₂ s₃ s₄ : State} (h : Begun tape (depth + 1) s)
    (henter : EntersIf tape.tokens s s₁)
    (hfirst : inlineBranch (statementTo depth) tape.tokens s₁ = .ok () s₂)
    (htaken : takeKeyword "ELSE" tape.tokens s₂ = .ok true s₃)
    (habandon : abandonAbove s₁.blocks.length tape.tokens s₃ = .ok () s₄)
    (hturn : turnLine "\x7d else \x7b" tape.tokens s₄ = .ok () s') :
    Begun tape depth s' ∧ s'.floors ≠ [] := by
  obtain ⟨h₁, rest, hfloors₁⟩ := h.enter henter
  have hinside : _ ≠ [] := hfloors₁ ▸ cons_ne_nil _ _
  have hsteps := statementTo_steps (.inl rfl) _ h₁.levels
  have hpath₂ :=
    ((inlineBranch_does (by decide) hsteps (Int.le_refl _) hinside).of_ok h₁.sound hfirst).1
  have hs₂ := hpath₂.sound h₁.sound
  have hpath₃ := hpath₂.trans (takeKeyword_does.of_ok hs₂ htaken).1
  obtain ⟨hpath, hblocks, -⟩ :=
    (abandonAbove_completes _).does.of_ok (hpath₃.sound h₁.sound) habandon
  have hpath₄ := hpath₃.trans (hpath.rise (by decide))
  have hfloors₄ := hpath₄.grows.floors.trans hfloors₁
  cases hturn
  exact ⟨(h₁.run hpath₄).turn hfloors₄ hblocks,
    fun hnone => cons_ne_nil _ _ (hfloors₄.symm.trans hnone)⟩

theorem of_between (h : Between tape.tokens collector depth s) : Begun tape depth s := by
  induction h with
  | turn h => exact of_beginsTurn h
  | branch _ henter ih => exact (ih.enter henter).1
  | again _ hinside hagain ih =>
    have hsteps := statementTo_steps (.inl rfl) _ ih.levels
    exact ih.run ((inlineTurn_does hsteps (Int.le_refl _) hinside).of_ok ih.sound hagain).1
  | elseBranch _ henter hfirst htaken habandon hturn ih =>
    exact (ih.second henter hfirst htaken habandon hturn).1

end Begun

/-! ### Blocks and scopes -/

namespace Framed

variable {blocks : List Block} {scopes : Scopes}

/-- There are as many scopes inside that of the module as there are blocks of procedures. -/
theorem count (h : Framed blocks scopes) :
    scopes.inner.length = blocks.countP Block.isProcedure := by
  have hlength := congrArg List.length h.inner
  rw [length_map] at hlength
  rw [hlength]
  rcases eq_nil_or_concat' blocks with rfl | ⟨front, last, rfl⟩
  · rfl
  have hfront : front.countP Block.isProcedure = 0 := by
    refine countP_eq_zero.2 fun block hblock => ?_
    rw [h.bottom block (by simpa using hblock)]
    exact Bool.false_ne_true
  have hlast : (expectedScopes (front ++ [last])).length = if last.isProcedure then 1 else 0 := by
    simp only [expectedScopes, getLast?_concat, Option.map_some, Block.isProcedure]
    split <;> simp_all
  rw [hlast, countP_append, hfront, countP_singleton, Nat.zero_add]

/-- A scope inside that of the module is the one of the procedure whose block is the outermost. -/
theorem scope_mem {scope : Scope} (h : Framed blocks scopes) (hscope : scope ∈ scopes.inner) :
    scope.base = 1 ∧ ∃ block kind, blocks.getLast? = some block ∧ block.kind = .procedure kind ∧
      scope.kind = kind.scope := by
  have hmem : scope.stand ∈ expectedScopes blocks := h.inner ▸ mem_map_of_mem hscope
  unfold expectedScopes at hmem
  split at hmem
  · rename_i kind hkind
    obtain ⟨block, hlast, hblock⟩ := Option.map_eq_some_iff.1 hkind
    have hstand := mem_singleton.1 hmem
    exact ⟨congrArg Prod.snd hstand, block, kind, hlast, hblock, congrArg Prod.fst hstand⟩
  · cases hmem

/-- There is at most one scope inside that of the module. -/
theorem inner_length_le (h : Framed blocks scopes) : scopes.inner.length ≤ 1 := by
  have hlength := congrArg List.length h.inner
  rw [length_map] at hlength
  rw [hlength, expectedScopes]
  split <;> simp

end Framed

/-- **Blocks and scopes.**  Wherever a statement of a source can begin, at most one open block is
that of a procedure, and it has no block around it; there is one scope more than such blocks, and
the scope of the procedure is of its kind and has one block around its statements.  When the pass is
over, no block is open and the scope of the module is the only one. -/
theorem blocks_and_scopes_agree (source : String) (hread : (scan source).fault = none)
    (collector : Collector) :
    (∀ depth s, Between (scan source).tokens.toArray collector depth s →
      s.blocks.countP Block.isProcedure ≤ 1 ∧
      (∀ block ∈ s.blocks.dropLast, block.isProcedure = false) ∧
      (s.scopes.root :: s.scopes.inner).length = s.blocks.countP Block.isProcedure + 1 ∧
      s.scopes.root.kind = .module ∧
      ∀ scope ∈ s.scopes.inner, scope.base = 1 ∧ ∃ block kind, s.blocks.getLast? = some block ∧
        block.kind = .procedure kind ∧ scope.kind = kind.scope) ∧
    ∀ s, pass (scan source).tokens.toArray collector = .ok () s →
      s.blocks = [] ∧ s.scopes.inner = [] ∧ s.scopes.root.kind = .module := by
  constructor
  · intro depth s hbetween
    have hbegun : Begun (Tape.ofSource source hread) depth s := .of_between hbetween
    have hframed := hbegun.sound.framed
    have hcount := hframed.count
    refine ⟨hcount ▸ hframed.inner_length_le, hframed.bottom, ?_, congrArg Prod.fst hframed.root,
      fun scope hscope => hframed.scope_mem hscope⟩
    rw [length_cons, hcount]
  · intro s hpass
    obtain ⟨last, hlast, rfl⟩ := exists_finished hread hpass
    obtain ⟨page, hhoisted⟩ := last.hoisted_eq
    have hframed := (hlast.path.sound (sound_start _ collector)).framed
    have hinner := hframed.count
    rw [hlast.blocks, countP_nil, length_eq_zero_iff] at hinner
    rw [hhoisted]
    exact ⟨hlast.blocks, hinner, congrArg Prod.fst hframed.root⟩

/-- The state in front of a turn of the loop over statements of a source. -/
def turnAt? (source : String) (turns : Nat) : Option State :=
  let tokens := (scan source).tokens.toArray
  match announce tokens {} with
  | .ok _ start => after tokens turns start
  | .error _ _ => none
where
  /-- The state behind some turns. -/
  after (tokens : Array Token) : Nat → State → Option State
    | 0, s => some s
    | turns + 1, s =>
      match statementTurn () tokens s with
      | .ok (.again ()) s₁ => if s.position < s₁.position then after tokens turns s₁ else none
      | _ => none

theorem runs_of_after {tokens : Array Token} {turns : Nat}
    (h : turnAt?.after tokens turns s = some s') : Runs tokens s s' := by
  induction turns generalizing s with
  | zero =>
    cases h
    exact .refl _
  | succ turns ih =>
    rw [turnAt?.after] at h
    split at h
    · split at h
      · exact .turn ‹_› ‹_› (ih h)
      · cases h
    · cases h

theorem between_of_turnAt? {source : String} {turns : Nat} (h : turnAt? source turns = some s) :
    Between (scan source).tokens.toArray {} ((scan source).tokens.toArray.size + 1) s := by
  unfold turnAt? at h
  dsimp only at h
  split at h
  · exact .turn ⟨_, ‹_›, runs_of_after h⟩
  · cases h

/-- The kinds of the open blocks in front of a turn, how many of them are procedures, and whether an
error was reported. -/
def openBlocks? (source : String) (turns : Nat) : Option (List BlockKind × Nat × Bool) :=
  (turnAt? source turns).map fun s =>
    (s.blocks.map Block.kind, s.blocks.countP Block.isProcedure,
      decide (HasError s.collector.toList))

/-- A function in which a statement is rejected, with a loop that is never closed. -/
def openFunction : String := "FUNCTION f\nNEXT\nWHILE x\nIF x THEN f = 1\nPRINT x"

/-- Inside the loop the function has its scope, and at the end of the pass nothing is left open. -/
theorem open_function_has_scope :
    (∃ s scope, Between (scan openFunction).tokens.toArray {}
        ((scan openFunction).tokens.toArray.size + 1) s ∧
      s.blocks.map Block.kind = [.whileLoop, .procedure .function] ∧ HasError s.collector.toList ∧
      s.scopes.inner = [scope] ∧ scope.kind = .function ∧ scope.base = 1) ∧
    ∃ s, pass (scan openFunction).tokens.toArray {} = .ok () s ∧ s.blocks = [] ∧
      s.scopes.inner = [] := by
  obtain ⟨hbetween, hpass⟩ := blocks_and_scopes_agree openFunction (by decide +kernel) {}
  constructor
  · have hopen : openBlocks? openFunction 6 =
        some ([.whileLoop, .procedure .function], 1, true) := by
      decide +kernel
    obtain ⟨s, hturn, hs⟩ := Option.map_eq_some_iff.1 hopen
    simp only [Prod.mk.injEq, decide_eq_true_eq] at hs
    obtain ⟨hkinds, hcount, herror⟩ := hs
    obtain ⟨-, -, hlength, -, hscopes⟩ := hbetween _ s (between_of_turnAt? hturn)
    obtain ⟨scope, hinner⟩ := length_eq_one_iff.1 (Nat.succ.inj (hlength.trans (congrArg _ hcount)))
    obtain ⟨hbase, block, kind, hlast, hkind, hscope⟩ := hscopes scope (by simp [hinner])
    have hkind' : some (BlockKind.procedure .function) = some (.procedure kind) := by
      have hlast' := congrArg (·.map Block.kind) hlast
      rwa [← getLast?_map, hkinds, Option.map_some, hkind] at hlast'
    cases hkind'
    exact ⟨s, scope, between_of_turnAt? hturn, hkinds, herror, hinner, hscope, hbase⟩
  · have houtcome : (outcome? openFunction).isSome = true := by decide +kernel
    obtain ⟨⟨lines, errs⟩, houtcome⟩ := Option.isSome_iff_exists.1 houtcome
    obtain ⟨s, hs, -⟩ := pass_of_outcome? errs houtcome
    obtain ⟨hblocks, hinner, -⟩ := hpass s hs
    exact ⟨s, hs, hblocks, hinner⟩

end BasicScript
