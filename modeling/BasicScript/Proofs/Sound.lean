import BasicScript.Proofs.Below

/-!
# Sound states

A state of the pass is sound (`Sound`) if its cursor is on the tape, everything that it will write
into a line is a word, procedures, one-line functions and record types are called as the source
does, the names of a scope refer to variables and its declarations are of names that it has, and the
blocks and the scopes belong together: a block of a procedure stands below all others, and there is
a scope for it exactly while it is open.  Every event that fits keeps a state sound (`Sound.apply`),
so every state that a run leads to is sound (`Run.sound`).
-/

namespace BasicScript

open Script List

variable {tape : Tape} {s s' : State} {token : Token} {form : BlockForm}
    {rest : List Block} {block : Block}
  {v : Variable} {name : String} {n : Naming} {scopes : Scopes} {kind : ProcedureKind}

/-! ### Blocks and scopes -/

/-- Whether a block belongs to a procedure. -/
def Block.isProcedure (block : Block) : Bool :=
  match block.kind with
  | .procedure _ => true
  | _ => false

theorem Block.isProcedure_iff :
    block.isProcedure = true ↔ ∃ kind, block.form.kind = .procedure kind := by
  unfold Block.isProcedure Block.kind
  split <;> simp_all

/-- The kinds and bases of the scopes around the module's statements, as the blocks tell them: one
for a procedure at the bottom. -/
def expectedScopes (blocks : List Block) : List (ScopeKind × Nat) :=
  match blocks.getLast?.map Block.kind with
  | some (.procedure kind) => [(kind.scope, 1)]
  | _ => []

/-- The kind of a scope and the number of blocks around it. -/
def Scope.stand (scope : Scope) : ScopeKind × Nat := (scope.kind, scope.base)

/-- The blocks and the scopes belong together. -/
structure Framed (blocks : List Block) (scopes : Scopes) : Prop where
  bottom : ∀ block ∈ blocks.dropLast, block.isProcedure = false
  inner : scopes.inner.map Scope.stand = expectedScopes blocks
  root : scopes.root.stand = (.module, 0)

/-- What a block holds: words, and the place of a token. -/
structure Block.Fits (tape : Tape) (block : Block) : Prop where
  place : tape.Has block.line block.column
  value : ∀ value cases hasElse, block.form = .selection value cases hasElse → Wordy value
  result : ∀ result, block.form = .function result → Wordy result

/-! ### Sound states -/

/-- What every state of the pass satisfies. -/
structure Sound (tape : Tape) (s : State) : Prop where
  position_nonneg : 0 ≤ s.position
  position_lt : s.position < tape.tokens.size
  cells : ∀ v ∈ s.scopes.cells, tape.Calls v.name
  scopes : s.scopes.Coherent
  passed : ∀ span ∈ s.dataPassed, span.2 ≤ s.position
  procedures : ∀ entry ∈ s.procedures, tape.Titled entry.1 entry.2.jsName
  functions : ∀ entry ∈ s.functions, tape.Titled entry.1 entry.2
  records : ∀ entry ∈ s.records, tape.Titled entry.1 entry.2.maker
  blocks : ∀ block ∈ s.blocks, block.Fits tape
  framed : Framed s.blocks s.scopes
  opened : ∀ block ∈ s.opened, ∃ place : Nat, (place : Int) < s.position ∧ tape.OpenedAt place block

/-- The pass starts in a sound state. -/
theorem sound_start (tape : Tape) (collector : Collector) : Sound tape { collector } where
  position_nonneg := Int.le_refl 0
  position_lt := by have := tape.size_pos; simp; omega
  cells := by simp [Scopes.start]
  scopes := by
    rintro scope hscope
    obtain rfl := mem_singleton.1 hscope
    exact Scope.coherent_of_nil _ rfl rfl (Int.le_refl 0)
  passed := by simp
  procedures := by simp
  functions := by simp
  records := by simp
  blocks := by simp
  framed := ⟨by simp, rfl, rfl⟩
  opened := by simp

/-! ### Scopes -/

namespace Scopes

/-- A change of the current scope keeps what the scopes are, if it keeps what this one is. -/
theorem stand_mapCurrent {f : Scope → Scope} (hf : ∀ scope, (f scope).stand = scope.stand) :
    (scopes.mapCurrent f).inner.map Scope.stand = scopes.inner.map Scope.stand ∧
      (scopes.mapCurrent f).root.stand = scopes.root.stand := by
  unfold Scopes.mapCurrent
  split <;> simp_all

theorem stand_declare (name : String) (v : Variable) :
    (scopes.declare name v).2.inner.map Scope.stand = scopes.inner.map Scope.stand ∧
      (scopes.declare name v).2.root.stand = scopes.root.stand := by
  cases h : scopes.local? name with
  | none =>
    rw [declare_of_local? h]
    exact stand_mapCurrent fun _ => rfl
  | some ref =>
    rw [declare_of_some h]
    split <;> exact ⟨rfl, rfl⟩

theorem calls_modify {ref : Ref} {f : Variable → Variable} (hf : ∀ v, (f v).name = v.name)
    (h : ∀ v ∈ scopes.cells, tape.Calls v.name) :
    ∀ v ∈ (scopes.modify ref f).cells, tape.Calls v.name := by
  intro v hv
  obtain ⟨i, hi, rfl⟩ := Array.mem_iff_getElem.1 hv
  simp only [Scopes.modify, Array.size_modify] at hi
  simp only [Scopes.modify, Array.getElem_modify]
  split
  · rw [hf]
    exact h _ (Array.getElem_mem hi)
  · exact h _ (Array.getElem_mem hi)

theorem calls_allocate (hv : tape.Calls v.name) (h : ∀ w ∈ scopes.cells, tape.Calls w.name) :
    ∀ w ∈ (scopes.allocate v).2.cells, tape.Calls w.name := by
  intro w hw
  rcases Array.mem_push.1 hw with hw | rfl
  · exact h w hw
  · exact hv

theorem calls_declare (hv : tape.Calls v.name)
    (h : ∀ w ∈ scopes.cells, tape.Calls w.name) :
    ∀ w ∈ (scopes.declare name v).2.cells, tape.Calls w.name := by
  cases hlocal : scopes.local? name with
  | none =>
    rw [declare_of_local? hlocal, bind, cells_mapCurrent]
    exact calls_allocate hv h
  | some ref =>
    rw [declare_of_some hlocal]
    split
    · exact calls_modify (fun _ => rfl) h
    · exact h

end Scopes

/-- What a change of names keeps: the scopes are what they were, what variables are
called and coherence stay. -/
structure Scopes.Tame (tape : Tape) (scopes scopes' : Scopes) : Prop where
  stand : scopes'.inner.map Scope.stand = scopes.inner.map Scope.stand ∧
    scopes'.root.stand = scopes.root.stand
  cells : (∀ v ∈ scopes.cells, tape.Calls v.name) → ∀ v ∈ scopes'.cells, tape.Calls v.name
  coherent : scopes.Coherent → scopes'.Coherent

namespace Scopes.Tame

variable {scopes₁ scopes' : Scopes}

theorem refl (scopes : Scopes) : scopes.Tame tape scopes := ⟨⟨rfl, rfl⟩, id, id⟩

theorem trans (h : scopes.Tame tape scopes₁) (h' : scopes₁.Tame tape scopes') :
    scopes.Tame tape scopes' :=
  ⟨⟨h'.stand.1.trans h.stand.1, h'.stand.2.trans h.stand.2⟩, h'.cells ∘ h.cells,
    h'.coherent ∘ h.coherent⟩

theorem mapCurrent {f : Scope → Scope} (hf : ∀ scope, (f scope).stand = scope.stand)
    (hcoherent : scopes.Coherent → (scopes.mapCurrent f).Coherent) :
    scopes.Tame tape (scopes.mapCurrent f) :=
  ⟨stand_mapCurrent hf, fun hcells => by rwa [cells_mapCurrent], hcoherent⟩

theorem declare (name : String) (hv : tape.Calls v.name) :
    scopes.Tame tape (scopes.declare name v).2 :=
  ⟨stand_declare name v, calls_declare hv, fun h => h.declare name v⟩

theorem naming (hn : n.Fits tape scopes) : scopes.Tame tape (n.apply scopes) := by
  cases n with
  | declares name v => exact declare name ⟨_, hn⟩
  | shares name ref =>
    refine ⟨?_, ?_, fun h => h.share ref⟩ <;> simp only [Naming.apply, Scopes.share] <;> split
    exacts [⟨rfl, rfl⟩, ⟨rfl, rfl⟩, id, id]
  | refines ref isArray record =>
    exact ⟨⟨rfl, rfl⟩, calls_modify fun _ => rfl, fun h => h.modify ref _⟩

theorem lose (scopes : Scopes) (names : List String) : scopes.Tame tape (scopes.lose names) :=
  ⟨⟨rfl, rfl⟩, id, fun h => h⟩

theorem hide {p : Emit.Parameter} (h : p.Fits tape) : scopes.Tame tape (scopes.hide p) where
  stand := stand_mapCurrent fun _ => rfl
  cells hcells := by
    rw [Scopes.hide, bind, cells_mapCurrent]
    exact calls_allocate ⟨_, h.called⟩ hcells
  coherent hcoherent := Coherent.bind (hcoherent.allocate p.slot) (by simp [allocate])

theorem hideAll {list : List Emit.Parameter} (h : ∀ p ∈ list, p.Fits tape) :
    scopes.Tame tape (scopes.hideAll list) := by
  induction list generalizing scopes with
  | nil => exact .refl scopes
  | cons p rest ih =>
    exact (hide (h p (by simp))).trans (ih fun q hq => h q (by simp [hq]))

end Scopes.Tame

/-- What is given back changes the names of the current scope alone. -/
theorem Scopes.giveBack_eq (scopes : Scopes) (item : String × Option Ref) :
    ∃ g : Table Ref → Table Ref,
      scopes.giveBack item = scopes.mapCurrent fun scope =>
        { scope with names := g scope.names } := by
  obtain ⟨name, ref⟩ := item
  cases ref with
  | none => exact ⟨(·.erase (Text.upper name)), rfl⟩
  | some ref => exact ⟨(·.insert (Text.upper name) ref), rfl⟩

theorem Scopes.Restorable.giveBack {item : String × Option Ref}
    {rest : List (String × Option Ref)} (h : scopes.Restorable (item :: rest)) :
    (scopes.giveBack item).Restorable rest := by
  obtain ⟨g, hg⟩ := scopes.giveBack_eq item
  rw [hg]
  refine ⟨fun name ref hmem => ?_, fun name hmem hdeclares => ?_⟩
  · rw [cells_mapCurrent]
    exact h.refs name ref (.tail _ hmem)
  · rw [current_mapCurrent] at hdeclares
    exact h.undeclared name (.tail _ hmem) hdeclares

/-- Names that can be given back are given back. -/
theorem Scopes.Restorable.tame {before : List (String × Option Ref)}
    (h : scopes.Restorable before) : scopes.Tame tape (before.foldl Scopes.giveBack scopes) := by
  induction before generalizing scopes with
  | nil => exact .refl scopes
  | cons item rest ih =>
    refine Tame.trans ?_ (ih h.giveBack)
    obtain ⟨g, hg⟩ := scopes.giveBack_eq item
    rw [hg]
    refine .mapCurrent (fun _ => rfl) fun hcoherent => ?_
    rw [← hg]
    obtain ⟨name, ref⟩ := item
    cases ref with
    | none => exact hcoherent.forget (h.undeclared name (by simp))
    | some ref => exact hcoherent.bind (h.refs name ref (by simp))

/-! ### Blocks -/

namespace Framed

variable {blocks : List Block}

theorem expectedScopes_cons (hb : block.isProcedure = false) :
    expectedScopes (block :: blocks) = expectedScopes blocks := by
  cases blocks with
  | nil =>
    unfold Block.isProcedure at hb
    simp only [expectedScopes, getLast?_nil, getLast?_singleton, Option.map_none, Option.map_some]
    split at hb <;> simp_all
  | cons b rest => simp [expectedScopes, getLast?_cons_cons]

theorem push (h : Framed blocks scopes) (hb : block.isProcedure = false) :
    Framed (block :: blocks) scopes where
  bottom := by
    cases blocks with
    | nil => simp
    | cons b rest => simpa using ⟨hb, h.bottom⟩
  inner := by rw [h.inner, expectedScopes_cons hb]
  root := h.root

/-- The innermost block is taken off, if it is no procedure. -/
theorem pop (h : Framed (block :: blocks) scopes) (hb : block.isProcedure = false) :
    Framed blocks scopes where
  bottom := by
    cases blocks with
    | nil => simp
    | cons b rest => exact fun c hc => h.bottom c (by simp [hc])
  inner := by rw [h.inner, expectedScopes_cons hb]
  root := h.root

/-- A procedure has no block around it, and its scope is the only one. -/
theorem of_procedure (h : Framed (block :: blocks) scopes) (hb : block.isProcedure = true) :
    blocks = [] ∧ ∃ scope kind, scopes.inner = [scope] ∧ block.kind = .procedure kind ∧
      scope.kind = kind.scope ∧ scope.base = 1 := by
  have hnil : blocks = [] := by
    cases blocks with
    | nil => rfl
    | cons b rest => simp [h.bottom block (by simp)] at hb
  subst hnil
  have hinner := h.inner
  unfold Block.isProcedure at hb
  cases hk : block.kind <;> simp only [hk, Bool.false_eq_true] at hb
  rename_i kind
  simp only [expectedScopes, getLast?_singleton, Option.map_some, hk,
    map_eq_singleton_iff, Scope.stand, Prod.mk.injEq] at hinner
  obtain ⟨scope, hscope, hkind, hbase⟩ := hinner
  exact ⟨rfl, scope, kind, hscope, rfl, hkind, hbase⟩

/-- The innermost block gets another form of the same kind. -/
theorem reform (h : Framed (block :: blocks) scopes)
    (hk : form.kind = block.form.kind) : Framed ({ block with form } :: blocks) scopes where
  bottom := by
    have hp : Block.isProcedure { block with form } = block.isProcedure := by
      simp [Block.isProcedure, Block.kind, hk]
    cases blocks with
    | nil => simp
    | cons b rest =>
      have := h.bottom
      simp_all
  inner := by
    rw [h.inner]
    cases blocks with
    | nil => simp [expectedScopes, Block.kind, hk]
    | cons b rest => simp [expectedScopes, getLast?_cons_cons]
  root := h.root

end Framed

/-! ### Events keep states sound -/

namespace Sound

variable {e : Event} (h : Sound tape s)

include h

theorem page (page : Page) : Sound tape { s with page } := { h with }

theorem collector (collector : Collector) : Sound tape { s with collector } :=
  { h with }

theorem marked : s.scopes.Marked := fun scope hscope => (h.scopes scope hscope).mark

/-- The block of a procedure is alone, and its scope is the only one inside the module's. -/
theorem scope_of_procedure (hb : s.blocks = block :: rest)
    (hk : block.form.kind = .procedure kind) : rest = [] ∧ ∃ scope, s.scopes.inner = [scope] := by
  have hframed : Framed (block :: rest) s.scopes := hb ▸ h.framed
  obtain ⟨hrest, scope, -, hinner, -⟩ := hframed.of_procedure (Block.isProcedure_iff.2 ⟨kind, hk⟩)
  exact ⟨hrest, scope, hinner⟩

theorem inner_ne_nil (hb : s.blocks = block :: rest) (hp : block.isProcedure = true) :
    s.scopes.inner ≠ [] := by
  obtain ⟨kind, hk⟩ := Block.isProcedure_iff.1 hp
  obtain ⟨-, scope, hinner⟩ := h.scope_of_procedure hb hk
  simp [hinner]

/-- A block that was taken off is ended. -/
theorem finish {closed : Bool} (hb : s.blocks = block :: rest) (hk : form.kind = block.kind) :
    Sound tape ((s.without block rest closed).finish form) := by
  have hrest : ∀ b ∈ rest, b.Fits tape := fun b hb' => h.blocks b (by simp [hb, hb'])
  have hframed : Framed (block :: rest) s.scopes := hb ▸ h.framed
  have hplain : block.isProcedure = false → Sound tape (s.without block rest closed) := fun hp =>
    { h with blocks := hrest, framed := hframed.pop hp }
  have hleave : block.isProcedure = true → ∀ page,
      Sound tape ({ s.without block rest closed with page }.leaveProcedure) := fun hp page => by
    obtain ⟨rfl, scope, kind, hinner, -⟩ := hframed.of_procedure hp
    exact { h with
      scopes := fun scope hscope => h.scopes scope (by
        simp only [State.without, State.leaveProcedure, State.closeBrace, hinner, tail_cons,
          mem_singleton] at hscope
        simp [hscope])
      blocks := hrest
      framed := ⟨by simp [State.without, State.leaveProcedure, State.closeBrace],
        by simp [State.without, State.leaveProcedure, State.closeBrace, hinner, expectedScopes],
        h.framed.root⟩ }
  have hkind : block.isProcedure = (Block.isProcedure { block with form }) := by
    simp [Block.isProcedure, Block.kind, hk]
  cases form with
  | sub => exact hleave (hkind.trans rfl) s.page
  | function result => exact hleave (hkind.trans rfl) (s.page.line ("return " ++ result ++ ";"))
  | selection value cases hasElse =>
    simp only [State.finish]
    split <;> exact (hplain (hkind.trans rfl)).page _
  | looping testsBehind =>
    cases testsBehind <;> exact (hplain (hkind.trans rfl)).page _
  | condition hasElse => exact (hplain (hkind.trans rfl)).page _
  | counting name => exact (hplain (hkind.trans rfl)).page _
  | whileLoop => exact (hplain (hkind.trans rfl)).page _

/-- The token that opens a block is behind the cursor. -/
theorem opened_cons (ht : tape.Opens s form.kind token) :
    ∀ block ∈ ⟨form, token.line, token.column⟩ :: s.opened,
      ∃ place : Nat, (place : Int) < s.position ∧ tape.OpenedAt place block := by
  obtain ⟨place, htoken, hlt, -⟩ := ht.place
  exact forall_mem_cons.2 ⟨⟨place, hlt, token, htoken, ht.keyword, rfl, rfl⟩, h.opened⟩

theorem pushBlock (ht : tape.Opens s form.kind token)
    (hp : Block.isProcedure ⟨form, token.line, token.column⟩ = false)
    (hv : ∀ value cases hasElse, form = .selection value cases hasElse → Wordy value) :
    Sound tape (s.pushBlock form token) :=
  { h with
    blocks := by
      have hf : ∀ result, form = .function result → Wordy result := by
        rintro result rfl
        cases hp
      simpa [State.pushBlock] using ⟨⟨⟨token, ht.mem, rfl, rfl⟩, hv, hf⟩, h.blocks⟩
    framed := h.framed.push hp
    opened := h.opened_cons ht }

/-- The innermost block gets another form of the same kind, with the same words. -/
theorem reform {old : BlockForm} (ht : s.topForm? = some old) (hk : form.kind = old.kind)
    (hv : ∀ value cases hasElse, form = .selection value cases hasElse →
      ∃ cases' hasElse', old = .selection value cases' hasElse')
    (hf : ∀ result, form ≠ .function result) : Sound tape (s.reform form) := by
  unfold State.topForm? at ht
  unfold State.reform
  split
  · exact h
  · rename_i block rest hb
    rw [hb] at ht
    simp only [head?_cons, Option.map_some, Option.some.injEq] at ht
    subst ht
    have hblock := h.blocks block (by simp [hb])
    have hwordy : ∀ value cases hasElse, form = .selection value cases hasElse → Wordy value := by
      intro value cases hasElse he
      obtain ⟨cases', hasElse', hold⟩ := hv value cases hasElse he
      exact hblock.value _ _ _ hold
    have hrest : ∀ b ∈ rest, b.Fits tape := fun b hb' => h.blocks b (by simp [hb, hb'])
    have hframed : Framed (block :: rest) s.scopes := hb ▸ h.framed
    exact { h with
      blocks := by
        simpa using ⟨⟨hblock.place, hwordy, fun result he => absurd he (hf result)⟩, hrest⟩
      framed := hframed.reform hk }

theorem apply_enrols {entry : Entry} (he : entry.Fits tape s) : Sound tape (entry.apply s) := by
  cases entry with
  | data values => exact { h with }
  | procedure key p =>
    refine { h with procedures := fun entry hm => ?_ }
    rcases mem_insert hm with rfl | hm
    exacts [he.1, h.procedures entry hm]
  | function key jsName =>
    refine { h with functions := fun entry hm => ?_ }
    rcases mem_insert hm with rfl | hm
    exacts [he.1, h.functions entry hm]
  | record key type =>
    refine { h with records := fun entry hm => ?_ }
    rcases mem_insert hm with rfl | hm
    exacts [he, h.records entry hm]
  | call c => exact { h with }

theorem tame (hscopes : s.scopes.Tame tape scopes) : Sound tape { s with scopes } :=
  { h with
    cells := hscopes.cells h.cells
    scopes := hscopes.coherent h.scopes
    framed := ⟨h.framed.bottom, hscopes.stand.1.trans h.framed.inner,
      hscopes.stand.2.trans h.framed.root⟩ }

/-- A declaration is written, of a name that the scope has or of a one-line function. -/
theorem written {d : Declaration}
    (hd : d.origin ≠ .function → s.scopes.current.names.holds d.key = true) :
    Sound tape (s.written d) := by
  have hnoted : Sound tape { s with scopes := s.scopes.note d } :=
    h.tame (.mapCurrent (fun _ => rfl) fun hcoherent => hcoherent.note hd)
  unfold State.written
  dsimp only
  split
  · exact hnoted.tame (.mapCurrent (fun _ => rfl) fun hcoherent => hcoherent.hoist d.text)
  · exact hnoted.page _

/-- A block that was taken off is ended by its own closing statement. -/
theorem finishWith {test : Option String}
    (hb : s.blocks = block :: rest) (ht : ∀ t ∈ test, Sealed t ∧ block.form = .looping true) :
    Sound tape ((s.without block rest true).finishWith block.form test) := by
  cases test with
  | none => exact h.finish hb rfl
  | some t =>
    have hf : Sound tape ((s.without block rest true).finish (.looping true)) :=
      h.finish hb (by rw [Block.kind, (ht t rfl).2])
    exact hf.page _

theorem apply_begins {jsName : String} {parameters : List String} (hj : Wordy jsName)
    (ht : tape.Opens s (.procedure kind) token) (hb : s.blocks = []) :
    Sound tape ((Event.begins kind name jsName parameters token).apply s) := by
  have hinner : s.scopes.inner = [] := by simpa [hb, expectedScopes] using h.framed.inner
  have hkind : (kind.form jsName).kind = .procedure kind := by cases kind <;> rfl
  refine { h with cells := ?_, scopes := ?_, blocks := ?_, framed := ⟨?_, ?_, ?_⟩, opened := ?_ }
  · simpa [Event.apply, State.pushBlock, State.openBrace, Scopes.push,
      Scopes.mapCurrent] using h.cells
  · have hroot := h.scopes s.scopes.root (by simp)
    simpa [Scopes.Coherent, Event.apply, State.pushBlock, State.openBrace,
      Scopes.push, Scopes.mapCurrent, hinner] using ⟨hroot,
      Scope.coherent_of_nil _ rfl rfl (Int.natCast_nonneg _)⟩
  · have hf : ∀ result, kind.form jsName = .function result → Wordy result := by
      cases kind with
      | sub => simp [ProcedureKind.form]
      | function =>
        simp only [ProcedureKind.form, BlockForm.function.injEq]
        rintro result rfl
        exact hj.append (by decide)
    have hv : ∀ value cases hasElse, kind.form jsName = .selection value cases hasElse →
        Wordy value := by
      cases kind <;> simp [ProcedureKind.form]
    simpa [Event.apply, State.pushBlock, State.openBrace, hb] using
      (⟨⟨token, ht.mem, rfl, rfl⟩, hv, hf⟩ : Block.Fits tape ⟨kind.form jsName, _, _⟩)
  · simp [Event.apply, State.pushBlock, State.openBrace, hb]
  · cases kind <;> simp [Event.apply, State.pushBlock, State.openBrace, Scopes.push,
      Scopes.mapCurrent, hinner, hb, expectedScopes, Scope.stand, Block.kind, ProcedureKind.form,
      BlockForm.kind]
  · simpa [Event.apply, State.pushBlock, State.openBrace, Scopes.push, Scopes.mapCurrent]
      using h.framed.root
  · exact h.opened_cons (hkind ▸ ht)

/-- **Events keep states sound.** -/
theorem apply (he : e.Fits tape s) : Sound tape (e.apply s) := by
  cases e with
  | advances | breaks =>
    have := h.position_nonneg
    exact { h with
      position_nonneg := by simp only [Event.apply]; omega
      position_lt := he.1
      passed := fun span hspan =>
        Int.le_trans (h.passed span hspan) (by simp only [Event.apply]; omega)
      opened := fun block hblock => by
        obtain ⟨place, hlt, hplace⟩ := h.opened block hblock
        exact ⟨place, by simp only [Event.apply]; omega, hplace⟩ }
  | reports d => exact h.collector _
  | records r =>
    obtain ⟨caught, recorded, line, ds, he⟩ := s.refused_eq r
    rw [Event.apply, he]
    exact { h with }
  | counts => exact { h with }
  | names naming => exact h.tame (.naming he.1)
  | enrols entry => exact h.apply_enrols he
  | passes start =>
    refine { h with passed := fun span hspan => ?_ }
    rcases mem_append.1 hspan with hspan | hspan
    · exact h.passed span hspan
    · rw [mem_singleton.1 hspan]
      exact Int.le_refl _
  | introduces name v d =>
    obtain ⟨hv, -, hkey, -⟩ := he
    exact (h.tame (.declare name ⟨_, hv⟩)).written fun _ => (Scopes.holds_declare ..).2 (.inl hkey)
  | defines d => exact h.written fun horigin => absurd he.2.1 horigin
  | emits text => exact h.page _
  | exits kind => exact { h with }
  | opens form text token =>
    refine Sound.pushBlock (h.page _) ⟨he.2.keyword, he.2.place⟩ ?_ ?_ <;> cases he.1 <;>
      simp [Block.isProcedure, Block.kind, BlockForm.kind]
  | selects value selector token =>
    refine Sound.pushBlock (h.page _) ⟨he.2.2.keyword, he.2.2.place⟩ rfl ?_
    rintro value cases hasElse ⟨⟩
    exact he.1
  | begins kind name jsName parameters token => exact h.apply_begins he.1 he.2.2.1 he.2.2.2.1
  | tests test =>
    obtain ⟨-, value, cases, hasElse, ⟨-, htop⟩, -⟩ := he
    obtain ⟨page, hpage⟩ := s.caseLine_eq cases test
    simp only [Event.apply, htop, hpage]
    exact (h.page page).reform htop rfl (by simp) (by simp)
  | elseIfs condition => exact h.page _
  | elses =>
    obtain ⟨hasElse, ⟨-, htop⟩, -⟩ := he
    have hr : Sound tape (s.reform (.condition true)) := h.reform htop rfl (by simp) (by simp)
    exact hr.page _
  | ends test =>
    obtain ⟨block, hblock, htest, -⟩ := he
    obtain ⟨rest, hb⟩ := head?_eq_some_iff.1 hblock
    simp only [Event.apply, hb]
    exact h.finishWith hb htest
  | abandons =>
    obtain ⟨block, rest, hb⟩ := exists_cons_of_ne_nil he
    simp only [Event.apply, hb]
    exact finish (s := s.reported _) (h.collector _) hb rfl
  | enters condition => exact { h with }
  | turns => exact h.page _
  | leaves => exact { h with }
  | lends list => exact h.tame ((Scopes.Tame.lose ..).trans (.hideAll he.1))
  | regains before => exact h.tame (Scopes.Restorable.tame he.1)

end Sound

end BasicScript
