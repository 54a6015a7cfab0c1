import BasicScript.Proofs.NamesInScope

/-!
# Declared variables

A name of a scope refers to a cell with a variable, and the variable is declared: it is a parameter
in the first line of the procedure, or there is a line with its declaration, which waits for the top
of the scope or was appended at the depth of the scope since the scope was opened (`Backs`).  Events
keep this as long as no one-line function lends its names (`Backing`).

* `Visited.backing`: so variables are declared in all states that the events of a pass lead to, if
  the source has no one-line function.
-/

namespace BasicScript

open Script Emit List

variable {tape : Tape} {level : Level} {s s' : State} {es : List Event} {e : Event}
    {sc : Scopes} {scope scope' : Scope}
  {procedures procedures' : Table Procedure} {log rows : List Line} {cells cells' : Array Variable}
    {d : Declaration}
  {x : String}

/-! ### Declarations in their places -/

/-- The line of a declaration waits for the top of its scope, or was appended at the depth of the
scope since that was opened. -/
def Placed (log : List Line) (scope : Scope) (d : Declaration) : Prop :=
  if d.atTop then d.text ∈ scope.hoisted else ⟨scope.indent.toNat, d.text⟩ ∈ log.drop scope.start

/-- A variable is declared in a scope: as a parameter in the first line of the procedure, or by a
line of its own. -/
def Backs (procedures : Table Procedure) (log : List Line) (scope : Scope) (x : String) : Prop :=
  (∃ header, Heads procedures log header scope.top.spot ∧ x ∈ header.parameters) ∨
    ∃ d ∈ scope.declared, IsDeclaration d.text x ∧ Placed log scope d

/-- A scope gets more declarations. -/
structure Scope.Widens (scope scope' : Scope) : Prop where
  spot : scope'.top.spot = scope.top.spot
  declared : scope.declared ⊆ scope'.declared
  hoisted : scope.hoisted ⊆ scope'.hoisted

theorem Scope.Widens.refl (scope : Scope) : scope.Widens scope :=
  ⟨rfl, Subset.refl _, Subset.refl _⟩

theorem Placed.mono (h : Placed log scope d) (hw : scope.Widens scope') (rows : List Line) :
    Placed (log ++ rows) scope' d := by
  have hstart : scope'.start = scope.start := congrArg Spot.start hw.spot
  have hindent : scope'.indent = scope.indent := congrArg Spot.indent hw.spot
  unfold Placed at h ⊢
  split
  · rw [if_pos ‹_›] at h
    exact hw.hoisted h
  · rw [if_neg ‹_›] at h
    rw [hstart, hindent, drop_append]
    exact mem_append_left _ h

theorem Backs.mono (h : Backs procedures log scope x) (hw : scope.Widens scope')
    (hkept : ∀ key p, procedures.get? key = some p → procedures'.get? key = some p)
    (rows : List Line) : Backs procedures' (log ++ rows) scope' x := by
  refine h.imp (fun ⟨header, hheads, hx⟩ => ⟨header, hw.spot ▸ hheads.mono hkept, hx⟩) ?_
  exact fun ⟨d, hd, htext, hplaced⟩ => ⟨d, hw.declared hd, htext, hplaced.mono hw rows⟩

/-! ### Scopes -/

/-- The names of a scope refer to declared variables, and all its declarations have their lines. -/
structure Scope.Backed (procedures : Table Procedure) (log : List Line) (cells : Array Variable)
    (scope : Scope) : Prop where
  names : ∀ key ref, scope.names.get? key = some ref → ∃ v, cells[ref]? = some v ∧
    Backs procedures log scope v.name
  placed : ∀ d ∈ scope.declared, Placed log scope d

namespace Scope.Backed

theorem empty (hnames : scope.names = []) (hdeclared : scope.declared = []) :
    scope.Backed procedures log cells where
  names := by simp [hnames, Table.get?]
  placed := by simp [hdeclared]

/-- Lines are appended, procedures are announced, and cells keep the names of their variables. -/
theorem mono (h : scope.Backed procedures log cells)
    (hkept : ∀ key p, procedures.get? key = some p → procedures'.get? key = some p)
    (hcells : ∀ (ref : Ref) (v : Variable), cells[ref]? = some v → ∃ v', cells'[ref]? = some v' ∧
      v'.name = v.name)
    (rows : List Line) :
    scope.Backed procedures' (log ++ rows) cells' := by
  refine ⟨fun key ref hget => ?_, fun d hd => (h.placed d hd).mono (.refl scope) rows⟩
  obtain ⟨v, hv, hbacks⟩ := h.names key ref hget
  obtain ⟨v', hv', hname⟩ := hcells ref v hv
  exact ⟨v', hv', hname ▸ hbacks.mono (.refl scope) hkept rows⟩

theorem bind {key : String} {ref : Ref} {v : Variable} (h : scope.Backed procedures log cells)
    (hv : cells[ref]? = some v) (hbacks : Backs procedures log scope v.name) :
    { scope with names := scope.names.insert key ref }.Backed procedures log cells := by
  refine ⟨fun key' ref' hget => ?_, h.placed⟩
  rw [Table.get?_insert] at hget
  split at hget
  · cases hget
    exact ⟨v, hv, hbacks⟩
  · exact h.names key' ref' hget

end Scope.Backed

/-- The scope with one more declaration. -/
def Scope.write (scope : Scope) (d : Declaration) : Scope :=
  { scope with
    declared := scope.declared ++ [d]
    hoisted := if d.atTop then scope.hoisted ++ [d.text] else scope.hoisted }

theorem Scope.widens_write (scope : Scope) (d : Declaration) : scope.Widens (scope.write d) := by
  refine ⟨rfl, subset_append_left .., ?_⟩
  unfold Scope.write
  split
  · exact subset_append_left ..
  · exact Subset.refl _

theorem Scope.Backed.write (h : scope.Backed procedures log cells)
    (hd : Placed log (scope.write d) d) : (scope.write d).Backed procedures log cells := by
  have hmono {d' : Declaration} (hplaced : Placed log scope d') :
      Placed log (scope.write d) d' := by
    simpa using hplaced.mono (scope.widens_write d) []
  refine ⟨fun key ref hget => ?_, fun d' hd' => ?_⟩
  · obtain ⟨v, hv, hbacks⟩ := h.names key ref hget
    exact ⟨v, hv, by simpa using hbacks.mono (scope.widens_write d) (fun _ _ hp => hp) []⟩
  · rcases mem_append.1 hd' with hd' | hd'
    · exact hmono (h.placed d' hd')
    · exact mem_singleton.1 hd' ▸ hd

/-- In all scopes, names refer to declared variables, and declarations have their lines. -/
def Scopes.Backed (procedures : Table Procedure) (log : List Line) (sc : Scopes) : Prop :=
  ∀ scope ∈ sc.root :: sc.inner, scope.Backed procedures log sc.cells

theorem Scopes.mapCurrent_mapCurrent (sc : Scopes) (f g : Scope → Scope) :
    (sc.mapCurrent f).mapCurrent g = sc.mapCurrent (g ∘ f) := by
  unfold Scopes.mapCurrent
  cases sc.inner <;> rfl

namespace Scopes.Backed

variable (h : sc.Backed procedures log)

include h

theorem mapCurrent {f : Scope → Scope}
    (hkept : ∀ key p, procedures.get? key = some p → procedures'.get? key = some p)
    (hcells : sc.Keeps { sc with cells })
    (hf : sc.current.Backed procedures' (log ++ rows) cells →
      (f sc.current).Backed procedures' (log ++ rows) cells) :
        ({ sc with cells }.mapCurrent f).Backed procedures' (log ++ rows) := by
  have hall : ∀ scope ∈ sc.root :: sc.inner, scope.Backed procedures' (log ++ rows) cells :=
    fun scope hscope =>
    (h scope hscope).mono hkept hcells rows
  unfold Scopes.Backed
  rw [cells_mapCurrent]
  exact forall_mapCurrent hall hf

theorem grow
    (hkept : ∀ key p, procedures.get? key = some p → procedures'.get? key = some p)
    (rows : List Line) : sc.Backed procedures' (log ++ rows) := fun scope hscope =>
  (h scope hscope).mono hkept (fun _ v hv => ⟨v, hv, rfl⟩) rows

theorem modify {f : Variable → Variable} (ref : Ref) (hf : ∀ v, (f v).name = v.name) :
    (sc.modify ref f).Backed procedures log := by
  intro scope hscope
  simpa using (h scope hscope).mono (fun _ _ hp => hp) (Keeps.modify ref f hf) []

/-- A name is declared with its line, which waits for the top of the scope or is appended. -/
theorem introduce {name : String} {v : Variable} (htext : IsDeclaration d.text v.name)
    (hplaced : Placed (log ++ rows) (sc.current.write d) d) :
    ((sc.declare name v).2.write d).Backed procedures (log ++ rows) := by
  cases hlocal : sc.local? name with
  | none =>
    rw [declare_of_local? hlocal, Scopes.bind, Scopes.write, mapCurrent_mapCurrent]
    refine h.mapCurrent (fun _ _ hp => hp) (.allocate v) fun hcurrent => ?_
    exact (hcurrent.write hplaced).bind (v :=
      v) (by simp) (.inr ⟨d, by simp [Scope.write], htext, hplaced⟩)
  | some ref =>
    rw [declare_of_some hlocal]
    split
    · exact h.mapCurrent (fun _ _ hp => hp) (.modify ref _ fun _ => rfl) fun hcurrent =>
        hcurrent.write hplaced
    · exact h.mapCurrent (fun _ _ hp => hp) (.of_cells rfl) fun hcurrent => hcurrent.write hplaced

/-- A declaration is written that binds no name. -/
theorem write (hplaced : Placed (log ++ rows) (sc.current.write d) d) :
    (sc.write d).Backed procedures (log ++ rows) :=
  h.mapCurrent (fun _ _ hp => hp) (.of_cells rfl) fun hcurrent => hcurrent.write hplaced

theorem declare {name : String} {v : Variable}
    (hbacks : Backs procedures log sc.current v.name) :
    (sc.declare name v).2.Backed procedures log := by
  cases hlocal : sc.local? name with
  | none =>
    rw [declare_of_local? hlocal, Scopes.bind]
    rw [← append_nil log] at hbacks ⊢
    exact h.mapCurrent (fun _ _ hp => hp) (.allocate v) fun hcurrent =>
      hcurrent.bind (v := v) (by simp) hbacks
  | some ref =>
    rw [declare_of_some hlocal]
    split
    · exact h.modify ref fun _ => rfl
    · exact h

theorem naming {n : Naming}
    (hn : ∀ v ∈ n.declares?, Backs procedures log sc.current v.name) :
    (n.apply sc).Backed procedures log := by
  cases n with
  | declares name v => exact h.declare (hn v rfl)
  | shares name ref =>
    simp only [Naming.apply, share]
    split
    · exact h
    · exact fun scope hscope => h scope hscope
  | refines ref isArray record => exact h.modify ref fun _ => rfl

end Scopes.Backed

/-! ### States -/

/-- Variables are declared in a state. -/
abbrev State.Backed (s : State) : Prop := s.scopes.Backed s.procedures s.page.log.toList

/-- A statement that stands directly in its scope is written at the depth of the scope. -/
theorem State.AtBase.indent (h : s.AtBase) (hs : Sound tape s) (ht : s.Tidy) :
    s.page.indent = s.scopes.current.indent := by
  obtain ⟨hfloors, hblocks⟩ := h
  obtain ⟨opened, hdrawn, howed⟩ := ht
  rw [State.owed, hfloors, length_nil, Nat.add_zero] at howed
  cases hinner : s.scopes.inner with
  | nil =>
    have hcurrent : s.scopes.current = s.scopes.root := by simp [Scopes.current, hinner]
    have hbase : s.scopes.root.base = 0 := congrArg Prod.snd hs.framed.root
    rw [hcurrent, hbase, length_eq_zero_iff] at hblocks
    rw [hcurrent, hdrawn.indent, howed, hblocks, hdrawn.root.2]
    rfl
  | cons scope rest =>
    have hcurrent : s.scopes.current = scope := by simp [Scopes.current, hinner]
    have hscope : scope ∈ s.scopes.inner := by simp [hinner]
    obtain ⟨hbase, block, kind, hlast, hkind, -⟩ := hs.framed.scope_mem hscope
    rw [hcurrent, hbase] at hblocks
    obtain ⟨only, hblocks⟩ := length_eq_one_iff.1 hblocks
    rw [hblocks, getLast?_singleton, Option.some.injEq] at hlast
    have hone : only.form.braces = 1 :=
      BlockForm.braces_eq_one (by rw [hlast, show block.form.kind = _ from hkind]; simp)
    rw [hcurrent, hdrawn.indent, howed, hblocks, bracesOf_cons, hone,
      (hdrawn.marks scope hscope).indent]
    rfl

/-- No scope was opened behind the last line. -/
theorem Emitted.start_le (h : s.Emitted) : s.scopes.current.start ≤ s.page.log.toList.length := by
  have hroot : s.scopes.root.start = 0 := congrArg (·.2.start) h.root
  rcases mem_cons.1 s.scopes.current_mem with hcurrent | hcurrent
  · rw [hcurrent, hroot]
    exact Nat.zero_le _
  · exact (heads_bounds h.headed s.scopes.current.seat.2
      (mem_append_right _ (mem_map.2 ⟨_, hcurrent, rfl⟩))).2

/-- The latest header is that of the procedure at hand. -/
theorem Emitted.heads_current {header : Header} (h : s.Emitted) (hinner : s.scopes.inner = [scope])
    (hheader : header ∈ s.headers.head?) :
    Heads s.procedures s.page.log.toList header scope.top.spot := by
  obtain ⟨rest, hheaders⟩ := head?_eq_some_iff.1 hheader
  have hheaded := h.headed
  have hspots : s.scopes.tops.map Top.spot ++ s.scopes.inner.map (·.seat.2) =
      (scope.top.spot :: (s.scopes.tops.map Top.spot).reverse).reverse :=
        by simp [hinner, Scope.seat]
  rw [hspots, hheaders, forall₂_reverse_iff] at hheaded
  cases hheaded with
  | cons hheads => exact hheads

/-- A parameter of the procedure at hand is declared. -/
theorem State.HasParameter.backs (h : s.HasParameter x) (hs : Sound tape s) (hemitted : s.Emitted) :
    Backs s.procedures s.page.log.toList s.scopes.current x := by
  obtain ⟨hmodule, header, hheader, -, hx⟩ := h
  have hle := hs.framed.inner_length_le
  obtain ⟨scope, rest, hinner⟩ := exists_cons_of_ne_nil (l := s.scopes.inner)
    (by simpa [Scopes.isModule] using hmodule)
  obtain rfl : rest = [] := by simpa [hinner] using hle
  have hcurrent : s.scopes.current = scope := by simp [Scopes.current, hinner]
  exact .inl ⟨header, hcurrent ▸ hemitted.heads_current hinner hheader, hx⟩

/-- The line of a declaration that is written stands where it belongs, if any is appended. -/
theorem State.exists_rows_written (hne : d.text ≠ "") (hbase : d.atTop = false → s.AtBase)
    (hs : Sound tape s) (ht : s.Tidy) (hemitted : s.Emitted) (scopes : Scopes) :
    ∃ rows, ({ s with scopes }.written d).page.log.toList = s.page.log.toList ++ rows ∧
      Placed (s.page.log.toList ++ rows) (s.scopes.current.write d) d := by
  cases hd : d.atTop with
  | true =>
    refine ⟨[], ?_, ?_⟩
    · rw [State.written_of_atTop hd, append_nil]
    · simp [Placed, hd, Scope.write]
  | false =>
    have hindent := (hbase hd).indent hs ht
    refine ⟨[⟨s.scopes.current.indent.toNat, d.text⟩], ?_, ?_⟩
    · simp [State.written, hd, State.addLine, Page.line, hne, hindent]
    · simp only [Placed, hd, Scope.write, Bool.false_eq_true, if_false]
      rw [drop_append_of_le_length hemitted.start_le]
      exact mem_append_right _ (mem_singleton.2 rfl)

/-- A declaration is written, here or at the top of its scope. -/
theorem State.backed_written {scopes : Scopes}
    (hlog : ({ s with scopes }.written d).page.log.toList = log)
    (h : (scopes.write d).Backed s.procedures log) : ({ s with scopes }.written d).Backed := by
  rw [← hlog, ← State.scopes_written { s with scopes } d] at h
  obtain ⟨page, scopes', he⟩ := State.written_eq { s with scopes } d
  rw [he] at h ⊢
  exact h

/-- Variables are declared as long as no one-line function lends its names. -/
structure Backing (tape : Tape) (s : State) : Prop where
  plain : ∀ token ∈ tape.tokens, token.isKeyword "DEF" = false
  sound : Sound tape s
  tidy : s.Tidy
  emitted : s.Emitted
  backed : s.Backed
  functions : s.functions = []

namespace Backing

theorem start (hplain : ∀ token ∈ tape.tokens, token.isKeyword "DEF" = false)
    (collector : Collector) : Backing tape { collector } where
  plain := hplain
  sound := sound_start tape collector
  tidy := ⟨[], .start _ collector, rfl⟩
  emitted := .start
  backed := by
    intro scope hscope
    obtain rfl : scope = { kind := .module, name := none, mark := 0, indent := 1 } := by
      simpa [Scopes.start] using hscope
    exact .empty rfl rfl
  functions := rfl

/-- **Every event** keeps variables declared. -/
theorem backed_apply (h : Backing tape s) (hfit : e.Fits tape s) : (e.apply s).Backed := by
  have hkept := Event.keeps_procedures hfit
  cases hchanges : e.changesScopes with
  | false =>
    rcases Event.emission h.sound hfit hchanges with
      ⟨⟨rows, -, hlog⟩, hscopes⟩ | ⟨scope, page, hinner, ⟨rows, -, hlog⟩,
        ⟨rows', -, hlog'⟩, hscopes⟩
    · unfold State.Backed
      rw [hscopes, hlog]
      exact h.backed.grow hkept rows
    · have hgrown := h.backed.grow hkept (rows ++ rows')
      unfold State.Backed
      rw [hscopes, hlog', Scope.hoistOn_log, hlog, append_assoc]
      exact fun other hother => hgrown other (by simp_all)
  | true =>
    cases e with
    | names naming =>
      exact h.backed.naming fun v hv => (hfit.2 v hv).backs h.sound h.emitted
    | introduces name v d =>
      obtain ⟨-, hflat, -, -, -, htext, hbase⟩ := hfit
      obtain ⟨rows, hlog, hplaced⟩ :=
        State.exists_rows_written hflat.ne_empty hbase h.sound h.tidy h.emitted
        (s.scopes.declare name v).2
      exact State.backed_written hlog (h.backed.introduce htext hplaced)
    | defines d =>
      obtain ⟨hflat, -, -, -, hbase⟩ := hfit
      obtain ⟨rows, hlog, hplaced⟩ :=
        State.exists_rows_written hflat.ne_empty (fun _ => hbase) h.sound h.tidy h.emitted s.scopes
      exact State.backed_written hlog (h.backed.write hplaced)
    | begins kind name jsName parameters token =>
      obtain ⟨-, -, -, hblocks, -⟩ := hfit
      have hinner : s.scopes.inner = [] := by
        simpa [hblocks, expectedScopes] using h.sound.framed.inner
      obtain ⟨rows, -, hlog⟩ :=
        ((Page.Appends.refl s.page).line (headerLine jsName (Text.commas parameters))).indentBy 1
      have hgrown := h.backed.grow (fun _ _ hp => hp) rows
      rw [← hlog] at hgrown
      intro scope hscope
      simp only [Event.apply, State.pushBlock, State.openBrace, Scopes.push,
        Scopes.mapCurrent, hinner, mem_cons, not_mem_nil, or_false] at hscope
      rcases hscope with rfl | rfl
      · exact hgrown _ (by simp)
      · exact .empty rfl rfl
    -- there are no one-line functions, so no loan
    | lends list => exact absurd h.functions hfit.2
    | regains before => exact absurd h.functions hfit.2
    | _ => cases hchanges

theorem apply (h : Backing tape s) (hfit : e.Fits tape s) : Backing tape (e.apply s) where
  plain := h.plain
  sound := h.sound.apply hfit
  tidy := h.tidy.apply h.sound hfit
  emitted := h.emitted.apply h.sound h.tidy hfit
  backed := h.backed_apply hfit
  functions := by
    rcases (e.owns s).functions with ⟨key, jsName, rfl⟩ | hfunctions
    · obtain ⟨-, token, htoken, hkeyword⟩ := hfit
      rw [h.plain token htoken] at hkeyword
      cases hkeyword
    · exact hfunctions.trans h.functions

end Backing

theorem Path.backing (h : Path tape level s s') (hs : Backing tape s) : Backing tape s' := by
  obtain ⟨es, h⟩ := h
  exact h.invariant (I := Backing tape) Backing.apply hs

/-- **All states** that the events of a pass lead to. -/
theorem Visited.backing (h : Visited tape s)
    (hplain : ∀ token ∈ tape.tokens, token.isKeyword "DEF" = false) : Backing tape s := by
  induction h with
  | start collector => exact .start hplain collector
  | run _ hrun ih => exact Path.backing ⟨_, hrun⟩ ih
  | enters _ hfit ih | turns _ hfit ih => exact ih.apply hfit

end BasicScript
