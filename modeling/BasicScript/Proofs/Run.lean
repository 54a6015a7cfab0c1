import BasicScript.Proofs.Sound

/-!
# Along a run

What a run keeps.  A fact that every event keeps holds along a run (`Run.invariant`); so a run keeps
states sound.  A run never moves the cursor back, forgets no record type, no procedure and no error,
and leaves the stack of single-line `IF`s as it found it (`Run.grows`).  A quiet run leaves the page
and the blocks as they were, and adds names to the current scope only with their declarations
(`Run.still`).
-/

namespace BasicScript

open List

variable {tape : Tape} {level : Level} {s s₁ s' : State} {es es' : List Event}

/-! ### Putting runs together -/

namespace Run

theorem append (h : Run tape level s es s₁) (h' : Run tape level s₁ es' s') :
    Run tape level s (es ++ es') s' := by
  induction h with
  | nil => exact h'
  | step hlevel hfit _ ih => exact .step hlevel hfit (ih h')
  | branch hlevel henter first hleave _ _ ih =>
    simpa using Run.branch hlevel henter first hleave (ih h')
  | branches hlevel henter first hturn second hleave _ _ _ ih =>
    simpa using Run.branches hlevel henter first hturn second hleave (ih h')
  | lending hlevel hlend first hquiet hregain _ _ ih =>
    simpa using Run.lending hlevel hlend first hquiet hregain (ih h')

theorem loud (h : Run tape .quiet s es s') : Run tape level s es s' := by
  induction h with
  | nil => exact .nil
  | step hlevel hfit _ ih => exact .step (Level.allows_of_isQuiet hlevel) hfit ih
  | branch hlevel | branches hlevel | lending hlevel => exact absurd rfl hlevel

theorem isQuiet (h : Run tape .quiet s es s') : ∀ e ∈ es, e.isQuiet = true := by
  induction h with
  | nil => simp
  | step hlevel _ _ ih => simpa using ⟨hlevel, ih⟩
  | branch hlevel | branches hlevel | lending hlevel => exact absurd rfl hlevel

theorem hush (h : Run tape level s es s') (hquiet : ∀ e ∈ es, e.isQuiet = true) :
    Run tape .quiet s es s' := by
  induction h with
  | nil => exact .nil
  | step _ hfit _ ih => exact .step (hquiet _ (.head _)) hfit (ih fun e he => hquiet e (.tail _ he))
  | branch | branches | lending => exact absurd (hquiet _ (.head _)) (by simp [Event.isQuiet])

theorem rise (h : Run tape .line s es s') (hl : level ≠ .quiet) : Run tape level s es s' := by
  induction h with
  | nil => exact .nil
  | step hlevel hfit _ ih => exact .step (Level.allows_of_line hl hlevel) hfit ih
  | branch _ henter _ hleave _ ih₁ ih => exact .branch hl henter ih₁ hleave ih
  | branches _ henter _ hturn _ hleave _ ih₁ ih₂ ih =>
    exact .branches hl henter ih₁ hturn ih₂ hleave ih
  | lending _ hlend _ hquiet hregain _ ih₁ ih => exact .lending hl hlend ih₁ hquiet hregain ih

/-- **Invariants.**  What every event that fits keeps holds at the end of a run. -/
theorem invariant {I : State → Prop}
    (hstep : ∀ {s : State} {e : Event}, I s → e.Fits tape s → I (e.apply s))
    (h : Run tape level s es s') (hs : I s) : I s' := by
  induction h with
  | nil => exact hs
  | step _ hfit _ ih => exact ih (hstep hs hfit)
  | branch _ henter _ hleave _ ih₁ ih => exact ih (hstep (ih₁ (hstep hs henter)) hleave)
  | branches _ henter _ hturn _ hleave _ ih₁ ih₂ ih =>
    exact ih (hstep (ih₂ (hstep (ih₁ (hstep hs henter)) hturn)) hleave)
  | lending _ hlend _ _ hregain _ ih₁ ih => exact ih (hstep (ih₁ (hstep hs hlend)) hregain)

theorem sound (h : Run tape level s es s') (hs : Sound tape s) : Sound tape s' :=
  h.invariant (I := Sound tape) Sound.apply hs

theorem invariant_of_sound {I : State → Prop}
    (hstep : ∀ {s : State} {e : Event}, Sound tape s → I s → e.Fits tape s → I (e.apply s))
    (h : Run tape level s es s') (hs : Sound tape s) (hI : I s) : I s' :=
  (h.invariant (I := fun s => Sound tape s ∧ I s)
    (fun h hfit => ⟨h.1.apply hfit, hstep h.1 h.2 hfit⟩) ⟨hs, hI⟩).2

end Run

/-! ### Along the events -/

/-- Every event has a property, at the state in front of it. -/
def Along (P : State → Event → Prop) : State → List Event → Prop
  | _, [] => True
  | s, e :: es => P s e ∧ Along P (e.apply s) es

section Along

variable {P Q : State → Event → Prop}

theorem Along.imp (himp : ∀ s e, P s e → Q s e) (h : Along P s es) : Along Q s es := by
  induction es generalizing s with
  | nil => trivial
  | cons e es ih => exact ⟨himp s e h.1, ih h.2⟩

theorem along_append :
    Along P s (es ++ es') ↔ Along P s es ∧ Along P (es.foldl Event.apply s) es' := by
  induction es generalizing s with
  | nil => simp [Along]
  | cons e es ih => simp [Along, ih, and_assoc]

/-- A run goes from state to state as its events say. -/
theorem Run.foldl_eq (h : Run tape level s es s') : es.foldl Event.apply s = s' := by
  induction h with
  | nil => rfl
  | step _ _ _ ih => simpa using ih
  | branch _ _ _ _ _ ih₁ ih | lending _ _ _ _ _ _ ih₁ ih => simpa [ih₁] using ih
  | branches _ _ _ _ _ _ _ ih₁ ih₂ ih => simpa [ih₁, ih₂] using ih

theorem Run.along_append (h : Run tape level s es s₁) :
    Along P s (es ++ es') ↔ Along P s es ∧ Along P s₁ es' := by
  rw [BasicScript.along_append, h.foldl_eq]

end Along

/-! ### What a run keeps -/

/-- What the turns and ends of blocks change. -/
theorem State.tests_eq (s : State) (test : Option String) :
    ∃ page blocks, (Event.tests test).apply s = { s with page, blocks } := by
  simp only [Event.apply]
  split
  · rename_i value cases hasElse _
    obtain ⟨page, hpage⟩ := s.caseLine_eq cases test
    obtain ⟨blocks, hblocks⟩ :=
      State.reform_eq { s with page } (.selection value (cases + 1) (hasElse || test.isNone))
    rw [hpage, hblocks]
    exact ⟨page, blocks, rfl⟩
  · exact ⟨s.page, s.blocks, rfl⟩

theorem State.elses_eq (s : State) :
    ∃ page blocks, Event.elses.apply s = { s with page, blocks } := by
  obtain ⟨blocks, hblocks⟩ := s.reform_eq (.condition true)
  rw [Event.apply, hblocks]
  exact ⟨_, blocks, rfl⟩

/-- The events that write declarations and go through blocks. -/
def Event.draws : Event → Bool
  | introduces .. | defines _ | tests _ | elses | ends _ | abandons => true
  | _ => false

/-- What they change; only blocks that are abandoned are reported. -/
theorem Event.drawn_eq (s : State) {e : Event} (h : e.draws = true) :
    ∃ page scopes blocks removed ds,
    e.apply s = { s with page, scopes, blocks, removed, collector := s.collector.addAll ds } ∧
      s.removed <:+ removed ∧ (e = .abandons ∨ ds = []) := by
  cases e with
  | introduces name v d =>
    obtain ⟨page, scopes, he⟩ := State.written_eq { s with scopes := (s.scopes.declare name v).2 } d
    exact ⟨page, scopes, s.blocks, s.removed, [], he, suffix_refl _, .inr rfl⟩
  | defines d =>
    obtain ⟨page, scopes, he⟩ := s.written_eq d
    exact ⟨page, scopes, s.blocks, s.removed, [], he, suffix_refl _, .inr rfl⟩
  | tests test =>
    obtain ⟨page, blocks, he⟩ := s.tests_eq test
    exact ⟨page, s.scopes, blocks, s.removed, [], he, suffix_refl _, .inr rfl⟩
  | elses =>
    obtain ⟨page, blocks, he⟩ := s.elses_eq
    exact ⟨page, s.scopes, blocks, s.removed, [], he, suffix_refl _, .inr rfl⟩
  | ends test =>
    simp only [Event.apply]
    split
    · exact ⟨s.page, s.scopes, s.blocks, s.removed, [], rfl, suffix_refl _, .inr rfl⟩
    · rename_i block rest _
      obtain ⟨page, scopes, he⟩ := State.finishWith_eq (s.without block rest true) block.form test
      exact ⟨page, scopes, rest, _, [], he, suffix_cons _ _, .inr rfl⟩
  | abandons =>
    simp only [Event.apply]
    split
    · exact ⟨s.page, s.scopes, s.blocks, s.removed, [], rfl, suffix_refl _, .inr rfl⟩
    · rename_i block rest _
      obtain ⟨page, scopes, he⟩ :=
        State.finish_eq ((s.without block rest false).reported _) block.form
      exact ⟨page, scopes, rest, _, [_], he, suffix_cons _ _, .inl trivial⟩
  | _ => cases h

theorem State.hasError_reported (s : State) {d : Diagnostic} (h : d.isError = true) :
    HasError (s.reported d).collector.toList :=
  ⟨d, by simp [State.reported], h⟩

/-- Giving up the innermost block reports it. -/
theorem State.abandons_eq {block : Block} {rest : List Block} (h : s.blocks = block :: rest) :
    ∃ page scopes, Event.abandons.apply s = { (s.without block rest false).reported
      ⟨.error, .syntactic, block.kind.unclosed, block.line, block.column, 1, []⟩ with
        page, scopes } := by
  simp only [Event.apply, h]
  exact State.finish_eq _ _

theorem Event.hasError_abandons (hfit : Event.abandons.Fits tape s) :
    HasError (Event.abandons.apply s).collector.toList := by
  obtain ⟨block, rest, hb⟩ := exists_cons_of_ne_nil hfit
  obtain ⟨page, scopes, he⟩ := State.abandons_eq hb
  rw [he]
  exact State.hasError_reported _ rfl

/-- What holds between the ends of a run: the cursor moves on, no record type, no procedure, no
one-line function and no diagnostic is forgotten, the stack of single-line `IF`s is as it was, and a
rejection was reported. -/
structure Grows (s s' : State) : Prop where
  position : s.position ≤ s'.position
  records : ∀ key, s.records.holds key = true → s'.records.holds key = true
  procedures : ∀ key p, s.procedures.get? key = some p → s'.procedures.get? key = some p
  functions : s.functions ≠ [] → s'.functions ≠ []
  collected : s.collector.toList <+: s'.collector.toList
  floors : s'.floors = s.floors
  rejected : s'.lastRejectedLine = s.lastRejectedLine ∨ HasError s'.collector.toList

namespace Grows

theorem errors (h : Grows s s') (he : HasError s.collector.toList) :
    HasError s'.collector.toList := by
  obtain ⟨d, hd, hs⟩ := he
  exact ⟨d, h.collected.subset hd, hs⟩

theorem trans (h : Grows s s₁) (h' : Grows s₁ s') : Grows s s' where
  position := Int.le_trans h.position h'.position
  records key hk := h'.records key (h.records key hk)
  procedures key p hp := h'.procedures key p (h.procedures key p hp)
  functions := h'.functions ∘ h.functions
  collected := h.collected.trans h'.collected
  floors := h'.floors.trans h.floors
  rejected := by
    rcases h.rejected with hline | herror
    · exact h'.rejected.imp_left fun hline' => hline'.trans hline
    · exact .inr (h'.errors herror)

/-- As long as no error was reported, no statement was rejected. -/
theorem unrejected (h : Grows s s') (hs : s.lastRejectedLine = 0 ∨ HasError s.collector.toList) :
    s'.lastRejectedLine = 0 ∨ HasError s'.collector.toList := by
  rcases hs with hzero | herror
  · exact h.rejected.imp_left fun hsame => hsame.trans hzero
  · exact .inr (h.errors herror)

theorem of_eq (hp : s'.position = s.position) (hr : s'.records = s.records)
    (hps : s'.procedures = s.procedures) (hfs : s'.functions = s.functions)
    (hc : s'.collector = s.collector) (hf : s'.floors = s.floors)
    (hl : s'.lastRejectedLine = s.lastRejectedLine) : Grows s s' :=
  ⟨Int.le_of_eq hp.symm, fun _ hk => hr ▸ hk, fun _ _ hk => hps ▸ hk, fun hk => hfs ▸ hk,
    hc ▸ prefix_refl _, hf, .inl hl⟩

theorem refl (s : State) : Grows s s := of_eq rfl rfl rfl rfl rfl rfl rfl

theorem reported (s : State) (d : Diagnostic) : Grows s (s.reported d) := by
  refine ⟨Int.le_refl _, fun _ hk => hk, fun _ _ hk => hk, id, ?_, rfl, .inl rfl⟩
  simp [State.reported]

/-- A single-line `IF` turns to its `ELSE`. -/
theorem turn (h : Grows s s₁) : Grows s (Event.turns.apply s₁) :=
  h.trans (of_eq rfl rfl rfl rfl rfl rfl rfl)

/-- A single-line `IF` is left, and the stack is what it was before it was entered. -/
theorem leave {condition : String} (h : Grows ((Event.enters condition).apply s) s₁) :
    Grows s (Event.leaves.apply s₁) := by
  refine ⟨h.position, h.records, h.procedures, h.functions, h.collected, ?_, h.rejected⟩
  change s₁.floors.drop 1 = s.floors
  rw [h.floors]
  rfl

end Grows

theorem Event.grows {e : Event} (h : e.isInline = false) (hfit : e.Fits tape s) :
    Grows s (e.apply s) := by
  have hdrawn := Event.drawn_eq s (e := e)
  cases e with
  | enters | turns | leaves => cases h
  | advances | breaks =>
    exact ⟨by simp only [Event.apply]; omega, fun _ hk => hk, fun _ _ hk => hk, id,
      prefix_refl _, rfl, .inl rfl⟩
  | reports d => exact .reported s d
  | records r =>
    rw [Event.apply]
    by_cases h : r.line = s.lastRejectedLine
    · rw [State.refused_of_eq h]
      exact .of_eq rfl rfl rfl rfl rfl rfl rfl
    · rw [State.refused_of_ne h]
      refine ⟨Int.le_refl _, fun _ hk => hk, fun _ _ hk => hk, id,
        (Grows.reported s _).collected, rfl, .inr ?_⟩
      exact State.hasError_reported _ rfl
  | enrols entry =>
    cases entry with
    | record key type =>
      exact ⟨Int.le_refl _, fun k hk => holds_insert hk, fun _ _ hk => hk, id,
        prefix_refl _, rfl, .inl rfl⟩
    | function key jsName =>
      exact ⟨Int.le_refl _, fun _ hk => hk, fun _ _ hk => hk, fun _ => insert_ne_nil _ _ _,
        prefix_refl _, rfl, .inl rfl⟩
    | procedure key p =>
      refine ⟨Int.le_refl _, fun _ hk => hk, fun other q hq => ?_, id, prefix_refl _, rfl, .inl rfl⟩
      have hne : other ≠ key := by
        rintro rfl
        have hholds : s.procedures.holds other = false := hfit.2
        rw [Table.holds, hq] at hholds
        cases hholds
      simpa only [Event.apply, Entry.apply, Table.get?_insert, if_neg hne] using hq
    | _ => exact .of_eq rfl rfl rfl rfl rfl rfl rfl
  | introduces | defines | tests | elses | ends | abandons =>
    obtain ⟨page, scopes, blocks, removed, ds, he, -⟩ := hdrawn rfl
    rw [he]
    exact ⟨Int.le_refl _, fun _ hk => hk, fun _ _ hk => hk, id, by simp, rfl, .inl rfl⟩
  | _ => exact .of_eq rfl rfl rfl rfl rfl rfl rfl

/-- No event forgets a procedure. -/
theorem Event.keeps_procedures {e : Event} (hfit : e.Fits tape s) :
    ∀ key p, s.procedures.get? key = some p → (e.apply s).procedures.get? key = some p := by
  cases hinline : e.isInline with
  | false => exact (Event.grows hinline hfit).procedures
  | true =>
    cases e with
    | enters | turns | leaves => exact fun _ _ hp => hp
    | _ => cases hinline

/-- The parts of the state that are written by their own events alone. -/
structure Event.Owns (e : Event) (s s' : State) : Prop where
  position : e ≠ .advances → e ≠ .breaks → s'.position = s.position
  calls : (∃ c, e = .enrols (.call c)) ∨ s'.calls = s.calls
  headers : (∃ kind name jsName parameters token, e = .begins kind name jsName parameters token) ∨
    s'.headers = s.headers
  functions : (∃ key jsName, e = .enrols (.function key jsName)) ∨ s'.functions = s.functions
  passed : (∃ start, e = .passes start) ∨ s'.dataPassed = s.dataPassed
  exits : (∃ kind, e = .exits kind) ∨ s'.exits = s.exits
  refusals : (∃ r, e = .records r) ∨
    s'.caught = s.caught ∧ s'.recorded = s.recorded ∧ s'.lastRejectedLine = s.lastRejectedLine
  removed : s.removed <:+ s'.removed

theorem Event.owns (e : Event) (s : State) : e.Owns s (e.apply s) := by
  have hdrawn := Event.drawn_eq s (e := e)
  cases e with
  | introduces | defines | tests | elses | ends | abandons =>
    obtain ⟨page, scopes, blocks, removed, ds, he, hremoved, -⟩ := hdrawn rfl
    rw [he]
    constructor <;> simp [hremoved]
  | records r =>
    obtain ⟨caught, recorded, line, ds, he⟩ := s.refused_eq r
    rw [Event.apply, he]
    constructor <;> simp
  | enrols entry => cases entry <;> constructor <;> simp [Event.apply, Entry.apply]
  | _ =>
    constructor <;> simp [Event.apply, State.reported, State.addLine, State.openBrace,
      State.pushBlock, State.turnBrace, State.closeBrace]

/-- **Runs.**  In particular a run leaves every single-line `IF` that it enters. -/
theorem Run.grows (h : Run tape level s es s') : Grows s s' := by
  induction h with
  | nil => exact .refl _
  | step hlevel hfit _ ih => exact (Event.grows (Level.isInline_of_allows hlevel) hfit).trans ih
  | branch _ _ _ _ _ ih₁ ih => exact ih₁.leave.trans ih
  | branches _ _ _ _ _ _ _ ih₁ ih₂ ih => exact ((ih₁.turn.trans ih₂).leave).trans ih
  | lending _ hlend _ _ hregain _ ih₁ ih =>
    exact (((Event.grows rfl hlend).trans ih₁).trans (Event.grows rfl hregain)).trans ih

/-! ### Lines -/

/-- None of the tokens from one place up to another is the end of a line. -/
def Tape.InLine (tape : Tape) (start stop : Int) : Prop :=
  ∀ place, start ≤ place → place < stop → ¬ tape.EndsLine place

namespace Tape.InLine

variable {start middle stop : Int}

theorem of_le (h : stop ≤ start) : tape.InLine start stop := fun _ _ _ => by omega

theorem trans (h : tape.InLine start middle) (h' : tape.InLine middle stop) :
    tape.InLine start stop := by
  intro place hstart hstop
  rcases Int.lt_or_le place middle with hlt | hle
  · exact h place hstart hlt
  · exact h' place hle hstop

end Tape.InLine

namespace Tape.LineAt

variable {place place' line line' : Int}

theorem unique (h : tape.LineAt place line) (h' : tape.LineAt place line') : line = line' := by
  obtain ⟨token, htoken, rfl⟩ := h
  obtain ⟨token', htoken', rfl⟩ := h'
  rw [Option.some.inj (htoken.symm.trans htoken')]

/-- The token behind another is on the same line, or the other one ended it. -/
theorem next (h : tape.LineAt place line) (hpos : 0 ≤ place) (hlt : place + 1 < tape.tokens.size) :
    ∃ line', tape.LineAt (place + 1) line' ∧ line ≤ line' ∧
      (¬ tape.EndsLine place → line' = line) := by
  obtain ⟨token, htoken, rfl⟩ := h
  obtain ⟨n, rfl⟩ := Int.eq_ofNat_of_zero_le hpos
  have hbound : n + 1 < tape.tokens.size := by omega
  have hnext := tape.line_next n token _ htoken (Array.getElem?_eq_getElem hbound)
  refine ⟨_, ⟨_, Array.getElem?_eq_getElem hbound, rfl⟩, ?_, fun hends => ?_⟩
  · rw [hnext, Token.lineBehind]
    split <;> omega
  · rw [hnext, Token.lineBehind, if_neg fun hk => hends ⟨token, htoken, hk⟩]

/-- From one place to a later one, lines do not decrease, and a line goes on up to its end. -/
theorem later (h : tape.LineAt place line) (hpos : 0 ≤ place) (hle : place ≤ place')
    (hlt : place' < tape.tokens.size) :
    ∃ line', tape.LineAt place' line' ∧ line ≤ line' ∧
      (tape.InLine place place' → line' = line) := by
  obtain ⟨n, rfl⟩ := Int.le.dest hle
  induction n with
  | zero => exact ⟨line, by simpa using h, Int.le_refl _, fun _ => rfl⟩
  | succ n ih =>
    obtain ⟨line₁, hline₁, hle₁, hsame₁⟩ := ih (by omega) (by omega)
    obtain ⟨line₂, hline₂, hle₂, hsame₂⟩ := hline₁.next (by omega) (by omega)
    refine ⟨line₂, by simpa [Int.add_assoc] using hline₂, by omega, fun hinside => ?_⟩
    rw [hsame₂ (hinside _ (by omega) (by omega)), hsame₁ fun q hstart hstop =>
      hinside q hstart (by omega)]

end Tape.LineAt

theorem Event.inLine {e : Event} (h : e ≠ .breaks) (hfit : e.Fits tape s) :
    tape.InLine s.position (e.apply s).position := by
  by_cases hadvances : e = .advances
  · subst hadvances
    intro place hstart hstop
    obtain rfl : place = s.position := by simp only [Event.apply] at hstop; omega
    exact hfit.2
  · exact .of_le (Int.le_of_eq ((e.owns s).position hadvances h))

/-- **A run within a line** passes no end of a line. -/
theorem Run.inLine (h : Run tape .line s es s') : tape.InLine s.position s'.position := by
  induction h with
  | nil => exact .of_le (Int.le_refl _)
  | step hlevel hfit _ ih =>
    refine Tape.InLine.trans (Event.inLine ?_ hfit) ih
    rintro rfl
    cases hlevel
  | branch _ _ _ _ _ ih₁ ih | lending _ _ _ _ _ _ ih₁ ih => exact ih₁.trans ih
  | branches _ _ _ _ _ _ _ ih₁ ih₂ ih => exact (ih₁.trans ih₂).trans ih

/-! ### What a quiet run leaves alone -/

theorem Scopes.current_stand (scopes : Scopes) :
    scopes.current.stand = (scopes.inner.map Scope.stand).headD scopes.root.stand := by
  unfold Scopes.current
  split <;> simp [*]

/-- What a quiet run keeps: the page, the blocks and those that were opened, how many of them can be
reached, the cells, and the names of the scope, to which declarations were added. -/
structure Still (s s' : State) : Prop where
  page : s'.page = s.page
  blocks : s'.blocks = s.blocks
  opened : s'.opened = s.opened
  floor : s'.floor = s.floor
  cells : s.scopes.cells.size ≤ s'.scopes.cells.size
  scope : s.scopes.current.Steady s'.scopes.current

namespace Still

theorem refl (s : State) : Still s s := ⟨rfl, rfl, rfl, rfl, Nat.le_refl _, .refl _⟩

theorem trans (h : Still s s₁) (h' : Still s₁ s') : Still s s' :=
  ⟨h'.page.trans h.page, h'.blocks.trans h.blocks, h'.opened.trans h.opened, h'.floor.trans h.floor,
    h.cells.trans h'.cells, h.scope.trans h'.scope⟩

end Still

namespace Tape.Opens

variable {kind : BlockKind} {token : Token}

/-- As long as no block is opened, a token may open the same ones. -/
theorem keep (h : tape.Opens s kind token) (hopened : s'.opened = s.opened) (hg : Grows s s') :
    tape.Opens s' kind token := by
  obtain ⟨place, htoken, hlt, hbefore⟩ := h.place
  exact ⟨h.keyword, place, htoken, Int.lt_of_lt_of_le hlt hg.position, hopened ▸ hbefore⟩

theorem still (h : tape.Opens s kind token) (hstill : Still s s') (hg : Grows s s') :
    tape.Opens s' kind token :=
  h.keep hstill.opened hg

end Tape.Opens

theorem State.written_of_atTop {d : Declaration} (h : d.atTop = true) (s : State) :
    s.written d = { s with scopes := (s.scopes.note d).hoist d.text } := by
  rw [State.written, if_pos h]

theorem Event.still {e : Event} (he : e.Fits tape s) (h : e.isQuiet = true) :
    Still s (e.apply s) := by
  cases e with
  | advances | reports | counts | passes => exact ⟨rfl, rfl, rfl, rfl, Nat.le_refl _, .refl _⟩
  | records r =>
    obtain ⟨caught, recorded, line, ds, he⟩ := s.refused_eq r
    rw [Event.apply, he]
    exact ⟨rfl, rfl, rfl, rfl, Nat.le_refl _, .refl _⟩
  | introduces name v d =>
    obtain ⟨-, -, hkey, hadmits, -⟩ := he
    rw [Event.apply, State.written_of_atTop h]
    refine ⟨rfl, rfl, rfl, ?_, ?_, (Scopes.steady_introduce hkey hadmits h v).trans ?_⟩
    · have hbase : (s.scopes.declare name v).2.current.base = s.scopes.current.base := by
        obtain ⟨hinner, hroot⟩ := s.scopes.stand_declare name v
        have hstand := Scopes.current_stand (s.scopes.declare name v).2
        rw [hinner, hroot, ← Scopes.current_stand] at hstand
        exact congrArg Prod.snd hstand
      simp [State.floor, Scopes.hoist, Scopes.note, hbase]
    · simpa [Scopes.hoist, Scopes.note] using s.scopes.cells_declare name v
    · rw [Scopes.hoist, Scopes.current_mapCurrent]
      exact .of_eq rfl rfl
  | enrols entry => cases entry <;> exact ⟨rfl, rfl, rfl, rfl, Nat.le_refl _, .refl _⟩
  | _ => cases h

/-- **A quiet run** keeps the page, the blocks and the names. -/
theorem Run.still (h : Run tape .quiet s es s') : Still s s' := by
  induction h with
  | nil => exact .refl _
  | step hlevel hfit _ ih => exact (Event.still hfit hlevel).trans ih
  | branch hlevel | branches hlevel | lending hlevel => exact absurd rfl hlevel

end BasicScript
