import BasicScript.Proofs.Backing

/-!
# Texts of variables

What is read as a variable is declared when the reading is done, whether it was found or is declared
at its first use: in an expression, as the variable of a `FOR` loop, and as an array, a record or a
known name that is assigned to.  The variable of a text is the name in front of its indices and
fields (`headName`).

Only the place of an unknown name is not declared yet.  Its text is made of the name as it is
spelled there, and it is declared when a value is stored.  If the name was declared in between under
another spelling, the value is stored in a variable that nothing declares.

* `variables_backed`: all of this for every state of a pass over a source without one-line
  functions.
* `assignment_to_undeclared`: an assignment that stores in a variable nothing declares.
-/

namespace BasicScript

open Script Emit Text List
open Lexer (isWordChar isWordSuffix)

variable {tape : Tape} {level : Level} {s s₁ s' : State} {e : Event}
    {sc : Scopes} {scope scope' : Scope}
  {log rows : List Line} {d : Declaration} {x name : String} {v : Variable} {α β : Type}

/-! ### Variables in reach -/

/-- A line may refer to a variable: it is declared in the current scope or, inside a procedure,
shared. -/
def State.HasVariable (s : State) (x : String) : Prop :=
  Backs s.procedures s.page.log.toList s.scopes.current x ∨
    s.scopes.isModule = false ∧ ∃ key ref v, s.scopes.shared.get? key = some (some ref) ∧
      s.scopes.cell? ref = some v ∧ v.name = x

/-- More is declared, in the same scope. -/
structure State.Widens (s s' : State) : Prop where
  procedures : ∀ key p, s.procedures.get? key = some p → s'.procedures.get? key = some p
  log : s.page.log.toList <+: s'.page.log.toList
  scope : s.scopes.current.Widens s'.scopes.current
  isModule : s'.scopes.isModule = s.scopes.isModule
  shared : s'.scopes.shared = s.scopes.shared
  cells : s.scopes.Keeps s'.scopes

theorem Scope.Widens.trans {middle : Scope} (h : scope.Widens middle) (h' : middle.Widens scope') :
    scope.Widens scope' :=
  ⟨h'.spot.trans h.spot, Subset.trans h.declared h'.declared, Subset.trans h.hoisted h'.hoisted⟩

namespace State.Widens

theorem of_scopes
    (hkept : ∀ key p, s.procedures.get? key = some p → s'.procedures.get? key = some p)
    (hlog : s.page.log.toList <+: s'.page.log.toList) (hscopes : s'.scopes = s.scopes) :
    s.Widens s' where
  procedures := hkept
  log := hlog
  scope := by rw [hscopes]; exact .refl _
  isModule := by rw [hscopes]
  shared := by rw [hscopes]
  cells := .of_cells (by rw [hscopes])

theorem refl (s : State) : s.Widens s := .of_scopes (fun _ _ hp => hp) (prefix_refl _) rfl

theorem trans (h : s.Widens s₁) (h' : s₁.Widens s') : s.Widens s' where
  procedures := fun key p hp => h'.procedures key p (h.procedures key p hp)
  log := h.log.trans h'.log
  scope := h.scope.trans h'.scope
  isModule := h'.isModule.trans h.isModule
  shared := h'.shared.trans h.shared
  cells := h.cells.trans h'.cells

theorem addLine (s : State) (text : String) : s.Widens (s.addLine text) := by
  obtain ⟨rows, -, hlog⟩ := (Page.Appends.refl s.page).line text
  have hlog : (s.addLine text).page.log.toList = s.page.log.toList ++ rows := hlog
  exact .of_scopes (fun _ _ hp => hp) (by simp [hlog]) rfl

end State.Widens

theorem Scopes.shared_declare (sc : Scopes) (name : String) (v : Variable) :
    (sc.declare name v).2.shared = sc.shared := by
  cases h : sc.local? name with
  | none => rw [declare_of_local? h, bind, shared_mapCurrent]
  | some ref =>
    rw [declare_of_some h]
    split <;> rfl

/-- The current scope behind a declaration with its line. -/
theorem Scopes.widens_introduce (sc : Scopes) (name : String) (v : Variable) (d : Declaration) :
    sc.current.Widens ((sc.declare name v).2.write d).current ∧
      d ∈ ((sc.declare name v).2.write d).current.declared := by
  obtain ⟨names, hnames⟩ := sc.current_declare name v
  rw [Scopes.write, current_mapCurrent, hnames]
  have hwidens := sc.current.widens_write d
  exact ⟨⟨rfl, hwidens.declared, hwidens.hoisted⟩, by simp⟩

/-- **Quiet events** only add declarations. -/
theorem Event.widens (hfit : e.Fits tape s) (h : e.isQuiet = true) : s.Widens (e.apply s) := by
  have hkept := Event.keeps_procedures hfit
  have hlog : s.page.log.toList <+: (e.apply s).page.log.toList := by
    rewrite [(Event.still hfit h).page]
    exact prefix_refl _
  rcases Event.scopes_of_isQuiet (s := s) h with hscopes | ⟨name, v, d, hscopes⟩
  · exact .of_scopes hkept hlog hscopes
  · exact {
      procedures := hkept
      log := hlog
      scope := by rw [hscopes]; exact (s.scopes.widens_introduce name v d).1
      isModule := by rw [hscopes, Scopes.write, Scopes.isModule_mapCurrent, Scopes.isModule_declare]
      shared := by rw [hscopes, Scopes.write, Scopes.shared_mapCurrent, Scopes.shared_declare]
      cells := by
        rw [hscopes]
        exact (Scopes.Keeps.declare name v).trans (.of_cells (Scopes.cells_mapCurrent _)) }

/-- **A quiet run** only adds declarations. -/
theorem Path.widens (h : Path tape .quiet s s') : s.Widens s' := by
  obtain ⟨es, h⟩ := h
  induction h with
  | nil => exact .refl _
  | step hlevel hfit _ ih => exact (Event.widens hfit hlevel).trans ih
  | branch hlevel | branches hlevel | lending hlevel => exact absurd rfl hlevel

namespace State.HasVariable

theorem mono (h : s.HasVariable x) (hw : s.Widens s') : s'.HasVariable x := by
  rcases h with hbacks | ⟨hmodule, key, ref, v, hshared, hcell, rfl⟩
  · obtain ⟨rows, hlog⟩ := hw.log
    refine .inl ?_
    rw [← hlog]
    exact hbacks.mono hw.scope hw.procedures rows
  · obtain ⟨v', hcell', hname⟩ := hw.cells ref v hcell
    exact .inr ⟨hw.isModule.trans hmodule, key, ref, v', hw.shared ▸ hshared, hcell', hname⟩

theorem of_find? (h : Backing tape s) (hv : s.scopes.find? name = some v) :
    s.HasVariable v.name := by
  obtain ⟨ref, href, hcell⟩ := Option.bind_eq_some_iff.1 hv
  unfold Scopes.lookup? at href
  cases hlocal : s.scopes.local? name with
  | some found =>
    rw [hlocal] at href
    cases href
    obtain ⟨v', hcell', hbacks⟩ := (h.backed _ s.scopes.current_mem).names _ ref hlocal
    cases hcell'.symm.trans hcell
    exact .inl hbacks
  | none =>
    simp only [hlocal] at href
    split at href
    · cases href
    · exact .inr ⟨eq_false_of_ne_true ‹_›, _, ref, v, Option.join_eq_some_iff.1 href, hcell, rfl⟩

/-- A variable whose declaration is written, here or at the top of the scope. -/
theorem of_written (h : Backing tape s) (htext : IsDeclaration d.text x)
    (hbase : d.atTop = false → s.AtBase) (name : String) (v : Variable) :
    ({ s with scopes := (s.scopes.declare name v).2 }.written d).HasVariable x := by
  have hne : d.text ≠ "" := by
    obtain ⟨value, htext | htext⟩ := htext <;> simp [htext]
  obtain ⟨rows, hlog, hplaced⟩ := State.exists_rows_written hne hbase h.sound h.tidy h.emitted
    (s.scopes.declare name v).2
  refine .inl (.inr ⟨d, ?_, htext, ?_⟩)
  · rw [State.scopes_written]
    exact (s.scopes.widens_introduce name v d).2
  · obtain ⟨names, hnames⟩ := s.scopes.current_declare name v
    rw [hlog, State.scopes_written, Scopes.write, Scopes.current_mapCurrent, hnames]
    exact hplaced

/-- A line declares nothing by itself. -/
theorem addLine_iff (h : Backing tape s) (text : String) :
    (s.addLine text).HasVariable x ↔ s.HasVariable x := by
  obtain ⟨rows, -, hlog⟩ := (Page.Appends.refl s.page).line text
  have hlog : (s.addLine text).page.log.toList = s.page.log.toList ++ rows := hlog
  refine ⟨fun hx => hx.imp_left fun hbacks => ?_, fun hx => hx.mono (.addLine s text)⟩
  have hbacks : Backs s.procedures (s.addLine text).page.log.toList s.scopes.current x := hbacks
  rw [hlog] at hbacks
  refine hbacks.imp (fun ⟨header, hheads, hx⟩ => ⟨header, ?_, hx⟩) fun ⟨d, hd, htext, _⟩ =>
    ⟨d, hd, htext, (h.backed _ s.scopes.current_mem).placed d hd⟩
  exact hheads.of_append h.emitted.start_le

end State.HasVariable

/-! ### The variable of a text -/

/-- The name in front of indices and fields. -/
def headName (text : String) : String :=
  String.ofList (text.toList.takeWhile fun c => isWordChar c || isWordSuffix c)

/-- A text of indices and fields. -/
def Trailing (text : String) : Prop := ∀ c ∈ text.toList.head?, c = '.' ∨ c = '['

namespace Trailing

theorem empty : Trailing "" := by simp [Trailing]

theorem append {text more : String} (h : Trailing text) (hmore : Trailing more) :
    Trailing (text ++ more) := by
  intro c hc
  rw [String.toList_append, head?_append, Option.mem_def, Option.or_eq_some_iff] at hc
  rcases hc with hc | ⟨-, hc⟩
  · exact h c hc
  · exact hmore c hc

/-- One more field, whatever follows its point. -/
theorem field {text : String} (h : Trailing text) (member rest : String) :
    Trailing (text ++ "." ++ member ++ rest) := by
  have hpoint : Trailing ("." ++ (member ++ rest)) := by simp [Trailing]
  simpa only [String.append_assoc] using h.append hpoint

theorem indexed (indices : List String) : Trailing (indexed indices) := by
  cases indices with
  | nil => exact .empty
  | cons index rest => simp [Trailing, Emit.indexed]

end Trailing

theorem headName_append {rest : String} (hx : Lettered x.toList) (hrest : Trailing rest) :
    headName (x ++ rest) = x := by
  have hchars : ∀ c ∈ x.toList, (isWordChar c || isWordSuffix c) = true := fun c hc => by
    simpa using hx.chars c hc
  have htail : rest.toList.takeWhile (fun c => isWordChar c || isWordSuffix c) = [] := by
    cases hlist : rest.toList with
    | nil => rfl
    | cons c cs =>
      rcases hrest c (by simp [hlist]) with rfl | rfl <;> exact takeWhile_cons_of_neg (by decide)
  rw [headName, String.toList_append, takeWhile_append_of_pos hchars, htail,
    append_nil, String.ofList_toList]

theorem headName_self (hx : Lettered x.toList) : headName x = x := by
  simpa using headName_append hx .empty

theorem Tape.Called.lettered {key js : String} (h : tape.Called key js) : Lettered js.toList := by
  obtain ⟨word, hword, rfl⟩ := h
  exact hword.lettered.mangle

/-! ### Readings -/

/-- Whenever an action returns, its result and its last state are right. -/
def Yields (tokens : Array Token) (s : State) (x : Emit α) (Q : α → State → Prop) : Prop :=
  ∀ a s', x tokens s = .ok a s' → Q a s'

namespace Yields

variable {tokens : Array Token} {x : Emit α} {Q R : α → State → Prop}

theorem pure {a : α} (h : Q a s) : Yields tokens s (Pure.pure a) Q := by
  rintro b s' ⟨⟩
  exact h

theorem bind {f : α → Emit β} {R : β → State → Prop} (h : Yields tokens s x Q)
    (h' : ∀ a s', Q a s' → Yields tokens s' (f a) R) : Yields tokens s (x >>= f) R := by
  intro b s' hb
  cases hx : x tokens s with
  | ok a s₁ =>
    rw [bind_ok hx] at hb
    exact h' a s₁ (h a s₁ hx) b s' hb
  | error failure s₁ =>
    rw [bind_error hx] at hb
    cases hb

theorem mono (h : Yields tokens s x Q) (hQ : ∀ a s', Q a s' → R a s') : Yields tokens s x R :=
  fun a s' hx => hQ a s' (h a s' hx)

theorem get {f : State → Emit α} (h : Yields tokens s (f s) Q) :
    Yields tokens s (MonadState.get >>= f) Q := h

theorem fails {failure : Failure} (h : x tokens s = .error failure s') : Yields tokens s x Q := by
  intro a s' hx
  cases h.symm.trans hx

/-- A loop whose turns keep an invariant. -/
theorem loop {start : β} {turn : β → Emit (Turn β α)} (I : β → State → Prop) (hstart : I start s)
    (hturn : ∀ b s', I b s' → Yields tokens s' (turn b) fun
      | .again next, s'' => I next s''
      | .done a, s'' => Q a s'') :
    Yields tokens s (Emit.loop start turn) Q := by
  have hiterate : ∀ turns b s', I b s' → Yields tokens s' (Emit.iterate turn turns b) Q := by
    intro turns
    induction turns with
    | zero => exact fun _ _ _ => fails rfl
    | succ turns ih =>
      intro b s' hb
      refine (hturn b s' hb).bind fun t s'' ht => ?_
      cases t with
      | again next => exact ih next s'' ht
      | done a => exact pure ht
  exact hiterate _ start s hstart

theorem trivial : Yields tokens s x fun _ _ => True := fun _ _ _ => True.intro

theorem self : Yields tokens s x fun a s' => x tokens s = .ok a s' := fun _ _ hx => hx

theorem of_ok {a : α} (h : x tokens s = .ok a s') (hq : Q a s') : Yields tokens s x Q := by
  intro b s'' hx
  cases h.symm.trans hx
  exact hq

theorem pure_bind {a : β} {f : β → Emit α} (h : Yields tokens s (f a) Q) :
    Yields tokens s (Pure.pure a >>= f) Q := h

theorem and (h : Yields tokens s x Q) (h' : Yields tokens s x R) :
    Yields tokens s x fun a s' => Q a s' ∧ R a s' :=
  fun a s' hx => ⟨h a s' hx, h' a s' hx⟩

end Yields

/-- What a quiet action leaves behind if it returns. -/
theorem Does.yields {x : Emit α} {Q : α → State → Prop} (h : Does tape .quiet s x Q)
    (hs : Backing tape s) :
    Yields tape.tokens s x fun a s' => (Backing tape s' ∧ Path tape .quiet s s') ∧ Q a s' := by
  intro a s' hx
  obtain ⟨hpath, hq⟩ := h.of_ok hs.sound hx
  exact ⟨⟨hpath.backing hs, hpath⟩, hq⟩

theorem Sees.yields_bind {x : Emit α} {f : α → Emit β} {φ : α → Prop} {Q : β → State → Prop}
    (h : Sees tape s x φ) (hs : Backing tape s) (hf : ∀ a, φ a → Yields tape.tokens s (f a) Q) :
    Yields tape.tokens s (x >>= f) Q := by
  intro b s' hb
  obtain ⟨a, hx, ha⟩ := h hs.sound
  rw [bind_ok (of_below hx)] at hb
  exact hf a ha b s' hb

/-- A declared variable with a name that ends where its indices and fields begin. -/
structure State.Owns (s : State) (v : Variable) : Prop where
  has : s.HasVariable v.name
  lettered : Lettered v.name.toList

theorem State.Owns.mono (h : s.Owns v) (hw : s.Widens s') : s'.Owns v := ⟨h.has.mono hw, h.lettered⟩

theorem State.Owns.text {rest : String} (h : s.Owns v) (hrest : Trailing rest) :
    s.HasVariable (headName (v.name ++ rest)) := by
  rw [headName_append h.lettered hrest]
  exact h.has

theorem Backing.owns (h : Backing tape s) (hv : s.scopes.find? name = some v) : s.Owns v := by
  refine ⟨.of_find? h hv, ?_⟩
  obtain ⟨ref, -, hcell⟩ := Option.bind_eq_some_iff.1 hv
  obtain ⟨key, hcalled⟩ := h.sound.cells v (Array.mem_of_getElem? hcell)
  exact hcalled.lettered

/-! ### Declarations at the first use -/

section Declares

variable (h : Backing tape s) (tokens : Array Token)

include h

/-- A declaration is written where it was asked for, and declares its variable. -/
theorem introduce_declares (name : String) (v : Variable) (origin : Origin)
    {text : String} (atTop : Bool) (htext : IsDeclaration text x)
    (hbase : atTop = false → s.AtBase) :
    ∃ ref s', introduce name v origin text atTop tokens s = .ok ref s' ∧ s'.HasVariable x := by
  refine ⟨(s.scopes.declare name v).1, _, ?_,
    State.HasVariable.of_written (d := ⟨upper name, origin, text, atTop⟩) h htext hbase name v⟩
  cases atTop <;> rfl

theorem implicitVariable_declares (name : String) :
    ∃ v s', implicitVariable name tokens s = .ok v s' ∧ v.name = identifier name ∧
      s'.HasVariable (identifier name) := by
  unfold implicitVariable
  dsimp only
  obtain ⟨ref, s', hok, hhas⟩ := introduce_declares h tokens name
    { name := identifier name, isText := isTextName name } .plain true
    (isDeclaration_let (identifier name)
      (initialOf { name := identifier name, isText := isTextName name })) nofun
  exact ⟨_, s', bind_ok hok _, by dsimp only, hhas⟩

theorem implicitArray_declares (name : String) (dimensions : Nat) :
    ∃ v s', implicitArray name dimensions tokens s = .ok v s' ∧ v.name = identifier name ∧
      s'.HasVariable (identifier name) := by
  have htext (initial bounds : String) : IsDeclaration
      ("let " ++ identifier name ++ " = _makeArray(" ++ initial ++ ", " ++ bounds ++ ");")
        (identifier name) := by
    refine ⟨"_makeArray(" ++ initial ++ ", " ++ bounds ++ ")", .inl (String.toList_injective ?_)⟩
    simp
  unfold implicitArray
  dsimp only
  obtain ⟨ref, s', hok, hhas⟩ := introduce_declares h tokens name
    { name := identifier name, isArray := true, isText := isTextName name } .array true
    (htext (if isTextName name then "\"\"" else "0")
      (commas (List.replicate (max 1 dimensions) implicitBound))) nofun
  exact ⟨_, s', bind_ok hok _, by dsimp only, hhas⟩

/-- A name with a value is declared, wherever the statement stands. -/
theorem emitDeclaration_declares (name : String) (v : Variable) (value : String) :
    ∃ ref s', emitDeclaration name v value tokens s = .ok ref s' ∧ s'.HasVariable v.name := by
  have hat : atScopeBase tokens s =
      .ok (s.floors.isEmpty && decide (s.blocks.length = s.scopes.current.base)) s := rfl
  unfold emitDeclaration
  rw [bind_ok hat]
  split
  · rename_i hbase
    exact introduce_declares h tokens name v .plain false (isDeclaration_let ..) fun _ => by
      simpa [State.AtBase] using hbase
  · obtain ⟨ref, s', hok, hhas⟩ := introduce_declares h tokens name v .plain true
      (isDeclaration_let v.name (initialOf v)) Bool.noConfusion
    rw [bind_ok hok]
    exact ⟨_, _, rfl, hhas.mono (.addLine s' (v.name ++ " = " ++ value ++ ";"))⟩

end Declares

theorem implicitVariable_yields (h : Backing tape s) (hname : tape.HasName name)
    (hnone : s.scopes.find? name = none) : Yields tape.tokens s (implicitVariable name) fun v s' =>
      (Backing tape s' ∧ Path tape .quiet s s') ∧ s'.Owns v := by
  obtain ⟨v, s', hok, hv, hhas⟩ := implicitVariable_declares h tape.tokens name
  exact .of_ok hok ⟨((implicitVariable_does hname hnone).yields h v s' hok).1, hv ▸ hhas,
    hv ▸ hname.called.lettered⟩

/-- An array may have been declared, by its own indices, since it was not found. -/
theorem implicitArray_yields {dimensions : Nat} (h : Backing tape s) (hname : tape.HasName name)
    (hnew : scope.names.holds (upper name) = false) (hsteady : scope.Steady s.scopes.current) :
    Yields tape.tokens s (implicitArray name dimensions) fun v s' =>
      (Backing tape s' ∧ Path tape .quiet s s') ∧ s'.Owns v := by
  obtain ⟨v, s', hok, hv, hhas⟩ := implicitArray_declares h tape.tokens name dimensions
  exact .of_ok hok ⟨((implicitArray_does hname hnew hsteady).yields h v s' hok).1, hv ▸ hhas,
    hv ▸ hname.called.lettered⟩

/-! ### Names in expressions -/

theorem membersOf_trailing {tokens : Array Token} {nested : Emit String} {start : TypeSpec} :
    Yields tokens s (membersOf nested start) fun selected _ => Trailing selected.code := by
  refine .loop (fun selected _ => Trailing selected.code) .empty fun selected s₁ hcode => ?_
  refine Yields.trivial.bind fun _ s₂ _ => ?_
  split
  · refine Yields.trivial.bind fun token s₃ _ => ?_
    extract_lets jp
    have hjp : ∀ r s₄, Yields tokens s₄ (jp r) fun turn _ => ∃ next, turn = .again next ∧
        Trailing next.code :=
      fun r s₄ => Yields.trivial.bind fun _ _ _ => Yields.trivial.bind fun _ _ _ =>
        Yields.trivial.bind fun _ _ _ =>
        .pure ⟨_, rfl, hcode.field _ _⟩
    refine Yields.mono (Q := fun turn _ => ∃ next, turn = .again next ∧ Trailing next.code) ?_ ?_
    · split
      · exact hjp () s₃
      · exact Yields.trivial.bind fun r s₄ _ => hjp r s₄
    · rintro _ _ ⟨next, rfl, hnext⟩
      exact hnext
  · exact .pure hcode

variable {p : Int} {nested : Emit String} {token : Token}

theorem membersOf_yields {start : TypeSpec} (hn : Spells tape (p + 1) nested) (hp : p ≤ s.position)
    (h : Backing tape s) (hv : s.Owns v) {front : String} (hfront : Trailing front) :
    Yields tape.tokens s (membersOf nested start) fun selected s' =>
      s'.HasVariable (headName (v.name ++ front ++ selected.code)) := by
  refine (((membersOf_does hn hp).yields h).and membersOf_trailing).mono ?_
  rintro selected s' ⟨⟨⟨-, hpath⟩, -⟩, hcode⟩
  rw [String.append_assoc]
  exact (hv.mono hpath.widens).text (hfront.append hcode)

theorem variableUse_yields (hn : Spells tape (p + 1) nested) (hp : p ≤ s.position)
    (h : Backing tape s) (ht : tape.HasName token.text) :
    Yields tape.tokens s (variableUse nested token (s.scopes.find? token.text)) fun text s' =>
      s'.HasVariable (headName text) := by
  refine atMark_sees.yields_bind h fun _ _ => ?_
  split
  · refine ((argumentsOf_does hn hp).yields h).bind fun indices s₁ ⟨⟨h₁, hpath₁⟩, _⟩ => ?_
    have hp₁ := hpath₁.grows.position
    extract_lets jp
    have hjp : ∀ v s₂, Backing tape s₂ → s₂.Owns v → p ≤ s₂.position →
        Yields tape.tokens s₂ (jp v) fun text s' => s'.HasVariable (headName text) :=
          fun v s₂ h₂ hv hp₂ =>
      (membersOf_yields hn hp₂ h₂ hv (.indexed indices)).bind fun _ _ htext => .pure htext
    split
    · rename_i v hfound
      exact .pure_bind (hjp v s₁ h₁ ((h.owns hfound).mono hpath₁.widens) (by omega))
    · rename_i hnone
      have hnew := Scopes.local?_eq_none_iff.1 (h.sound.scopes.local?_eq_none hnone)
      refine (implicitArray_yields h₁ ht hnew hpath₁.still.scope).bind
        fun v s₂ ⟨⟨h₂, hpath₂⟩, hv⟩ => ?_
      have hp₂ := hpath₂.grows.position
      exact hjp v s₂ h₂ hv (by omega)
  · refine atMark_sees.yields_bind h fun _ _ => ?_
    split
    · refine ((dottedName_does ht).yields h).bind fun name s₁ ⟨⟨h₁, _⟩, hname, _⟩ => ?_
      refine lookup_finds.yields_bind h₁ fun found ⟨hfind, _⟩ => ?_
      split
      · have hv := h₁.owns hfind.symm
        exact .pure (by simpa using hv.text .empty)
      · refine (implicitVariable_yields h₁ hname hfind.symm).bind fun v s₂ ⟨_, hv⟩ => ?_
        exact .pure (by simpa using hv.text .empty)
    · extract_lets jp
      have hjp : ∀ v s₂, Backing tape s₂ → s₂.Owns v → p ≤ s₂.position →
          Yields tape.tokens s₂ (jp v) fun text s' => s'.HasVariable (headName text) :=
            fun v s₂ h₂ hv hp₂ =>
        (membersOf_yields hn hp₂ h₂ hv .empty).bind fun _ _ htext => .pure (by simpa using htext)
      split
      · rename_i v hfound
        exact .pure_bind (hjp v s h (h.owns hfound) hp)
      · rename_i hnone
        refine (implicitVariable_yields h ht hnone).bind fun v s₂ ⟨⟨h₂, hpath₂⟩, hv⟩ => ?_
        have hp₂ := hpath₂.grows.position
        exact hjp v s₂ h₂ hv (by omega)

section Names

variable (hn : Spells tape (p + 1) nested) (hp : p ≤ s.position) (h : Backing tape s)
  (ht : tape.Under s token) (hk : token.kind = .identifier)
  (hprocedure : s.procedures.get? (upper token.text) = none)
  (hbuiltin : s.scopes.find? token.text = none → Vocabulary.builtin? token.text = none)

include hn hp h ht hk hprocedure hbuiltin

/-- A name in an expression that is no procedure and no builtin is a variable. -/
theorem nameUse_yields :
    Yields tape.tokens s (nameUse nested token) fun text s' => s'.HasVariable (headName text) := by
  have hname : tape.HasName token.text := .word ⟨ht.mem, hk⟩
  have hinside : token.endsLine = false := by simp [Token.endsLine, hk]
  unfold nameUse
  extract_lets key
  refine .get ?_
  rw [hprocedure]
  refine .get ?_
  rw [h.functions]
  refine lookup_finds.yields_bind h ?_
  rintro found ⟨hfind, -⟩
  subst found
  split
  · rename_i hnone hsome
    rw [hbuiltin hnone] at hsome
    cases hsome
  · refine (((advance_from ht hinside).also fun _ _ => advance_eq).yields h).bind ?_
    rintro _ s₁ ⟨⟨h₁, hpath₁⟩, -, position, hmoved⟩
    have hp₁ := hpath₁.grows.position
    have hscopes : s₁.scopes = s.scopes := by rw [hmoved]
    rw [← hscopes]
    exact variableUse_yields hn (by omega) h₁ hname

theorem primary_yields :
    Yields tape.tokens s (primary nested) fun text s' => s'.HasVariable (headName text) := by
  refine current_sees.yields_bind h fun found hfound => ?_
  cases hfound.symm.trans ht
  simp only [hk]
  exact nameUse_yields hn hp h ht hk hprocedure hbuiltin

end Names

/-! ### Places -/

/-- A place is declared, or it is an unknown name as it is spelled. -/
def Emit.Place.Rests (p : Place) (s : State) : Prop :=
  p.fresh = none ∧ s.HasVariable (headName p.code) ∨
    ∃ name, p.fresh = some name ∧ p.code = identifier name ∧ s.scopes.find? name = none

theorem place_yields (h : Backing tape s) : Yields tape.tokens s place fun p s' => p.Rests s' := by
  refine (expectName_does.yields h).bind fun token s₁ ⟨⟨h₁, _⟩, ht, _⟩ => ?_
  refine ((placeName_does ht).yields h₁).bind fun (name, found) s₂ ⟨⟨h₂, _⟩, hname, hfind, _⟩ => ?_
  dsimp -zeta only at hname hfind ⊢
  -- the members behind a variable
  have hmembers : ∀ (v : Variable) (front : String) (s₃ : State), Backing tape s₃ →
      s₃.Owns v → Trailing front → Yields tape.tokens s₃ (do
        let selected ← members (typeOf v)
        return ({ code := v.name ++ front ++ selected.code
                  isText := selected.type.isText } : Place))
        fun p s' => p.Rests s' := fun v front s₃ h₃ hv hfront =>
    (membersOf_yields nestedExpression_spells (Int.le_refl _) h₃ hv hfront).bind fun _ _ htext =>
      .pure (.inl ⟨rfl, htext⟩)
  extract_lets jp
  have hjp : Yields tape.tokens s₂ (jp ()) fun p s' => p.Rests s' := by
    refine atMark_sees.yields_bind h₂ fun _ _ => ?_
    split
    · refine (arguments_does.yields h₂).bind fun indices s₃ ⟨⟨h₃, hpath₃⟩, _⟩ => ?_
      extract_lets jp'
      have hjp' : ∀ v s₄, Backing tape s₄ → s₄.Owns v →
          Yields tape.tokens s₄ (jp' v) fun p s' => p.Rests s' :=
        fun v s₄ h₄ hv => hmembers v _ s₄ h₄ hv (.indexed indices)
      split
      · exact .pure_bind (hjp' _ s₃ h₃ ((h₂.owns hfind.symm).mono hpath₃.widens))
      · have hnew := Scopes.local?_eq_none_iff.1 (h₂.sound.scopes.local?_eq_none hfind.symm)
        exact (implicitArray_yields h₃ hname hnew hpath₃.still.scope).bind fun v s₄ ⟨⟨h₄, _⟩, hv⟩ =>
          hjp' v s₄ h₄ hv
    · split
      · exact .pure (.inr ⟨name, rfl, by dsimp only, hfind.symm⟩)
      · simpa using hmembers _ "" s₂ h₂ (h₂.owns hfind.symm) .empty
  split
  · refine .get ?_
    split
    · exact (Yields.fails (Q := fun _ _ => False) rfl).bind fun _ _ hfalse => hfalse.elim
    · exact hjp
  · exact hjp

theorem freshName_eq {p : Place} (hfresh : p.fresh = some name) (tokens : Array Token) (s : State) :
    freshName p tokens s = .ok (if s.scopes.find? name = none then some name else none) s := by
  unfold freshName
  rw [hfresh]
  cases hfind : s.scopes.find? name with
  | none => exact congrArg (EStateM.Result.ok · s) (by simp [hfind])
  | some v => exact congrArg (EStateM.Result.ok · s) (by simp [hfind])

/-- **Storing** a value in the place of an unknown name.  The name is declared with it, unless it
was declared meanwhile: then the value is stored under the spelling of the place, whether that is
declared or not. -/
theorem store_hasVariable_iff {p : Place} (h : Backing tape s) (hfresh : p.fresh = some name)
    (value : String) (tokens : Array Token) :
    ∃ s', store p value tokens s = .ok () s' ∧
      (s'.HasVariable p.code ↔ s.scopes.find? name = none ∨ s.HasVariable p.code) := by
  have hname := freshName_eq hfresh tokens s
  unfold store
  cases hfind : s.scopes.find? name with
  | none =>
    rw [hfind, if_pos rfl] at hname
    rw [bind_ok hname]
    obtain ⟨ref, s', hok, hhas⟩ :=
      emitDeclaration_declares h tokens name { name := p.code, isText := p.isText } value
    exact ⟨s', bind_ok hok _, by simpa using hhas⟩
  | some v =>
    rw [hfind, if_neg nofun] at hname
    rw [bind_ok hname]
    exact ⟨s.addLine (p.code ++ " = " ++ value ++ ";"), rfl,
      by simpa using State.HasVariable.addLine_iff h _⟩

/-- The text of the place of an unknown name, which is declared if it is still unknown. -/
theorem declared_hasVariable_iff {p : Place} (h : Backing tape s) (hfresh : p.fresh = some name)
    (hcode : p.code = identifier name) (tokens : Array Token) :
    ∃ s', declared p tokens s = .ok p.code s' ∧
      (s'.HasVariable p.code ↔ s.scopes.find? name = none ∨ s.HasVariable p.code) := by
  have hname := freshName_eq hfresh tokens s
  unfold declared
  cases hfind : s.scopes.find? name with
  | none =>
    rw [hfind, if_pos rfl] at hname
    rw [bind_ok hname]
    obtain ⟨v, s', hok, hv, hhas⟩ := implicitVariable_declares h tokens name
    rw [← hcode] at hhas
    refine ⟨s', (bind_ok hok _).trans ?_, by simpa using hhas⟩
    rw [hv, ← hcode]
    rfl
  | some v =>
    rw [hfind, if_neg nofun] at hname
    rw [bind_ok hname]
    exact ⟨s, rfl, by simp⟩

/-- What an assignment stores in: the place was read first, and the value behind it. -/
def Assigns (tape : Tape) (s s' : State) : Prop :=
  ∃ p s₁ value s₂, place tape.tokens s = .ok p s₁ ∧ Path tape .quiet s₁ s₂ ∧
    store p value tape.tokens s₂ = .ok () s' ∧
      (s'.HasVariable (headName p.code) ↔ ∀ name ∈ p.fresh, s₂.scopes.find? name = none ∨
        s₂.HasVariable p.code)

theorem assignment_yields (h : Backing tape s) :
    Yields tape.tokens s assignment fun _ s' => Assigns tape s s' := by
  refine (((place_quiet.yields h).and (place_yields h)).and .self).bind
    fun p s₁ ⟨⟨⟨⟨h₁, _⟩, hfits, _⟩, hrests⟩, hok⟩ => ?_
  refine (expectOperator_does.yields h₁).bind fun _ s₂ ⟨⟨h₂, hpath₂⟩, _⟩ => ?_
  refine (expression_does.yields h₂).bind fun value s₃ ⟨⟨h₃, hpath₃⟩, _⟩ => ?_
  have hpath := hpath₂.trans hpath₃
  rcases hrests with ⟨hnone, hhas⟩ | ⟨name, hsome, hcode, -⟩
  · have hstore : store p value tape.tokens s₃ =
        .ok () (s₃.addLine (p.code ++ " = " ++ value ++ ";")) := by
      unfold store freshName
      rw [hnone]
      rfl
    have hhas := (hhas.mono hpath.widens).mono (.addLine s₃ (p.code ++ " = " ++ value ++ ";"))
    exact .of_ok hstore ⟨p, s₁, value, s₃, hok, hpath, hstore, by simpa [hnone] using hhas⟩
  · obtain ⟨s', hstore, hiff⟩ := store_hasVariable_iff h₃ hsome value tape.tokens
    have hname : headName p.code = p.code := by
      rw [hcode]
      exact headName_self (hfits.fresh name hsome).1.called.lettered
    exact .of_ok hstore ⟨p, s₁, value, s₃, hok, hpath, hstore, by simpa [hsome, hname] using hiff⟩

/-! ### Loops -/

/-- A `FOR` loop over a declared variable was opened by the last line. -/
def State.Counts (s : State) : Prop :=
  ∃ x start stop step, s.topForm? = some (.counting x) ∧ s.HasVariable x ∧
    s.page.log.toList.getLast?.map (·.text) = some (countingLine x start stop step)

theorem State.Owns.counts (h : s.Owns v) (start stop step : String) (token : Token) :
    ((s.openBrace (countingLine v.name start stop step)).pushBlock
      (.counting v.name) token).Counts := by
  have hne : countingLine v.name start stop step ≠ "" := by
    unfold countingLine
    simp only [ne_eq, String.append_eq_empty_iff]
    simp
  have hlog : (s.openBrace (countingLine v.name start stop step)).page.log.toList =
      s.page.log.toList ++ [⟨s.page.indent.toNat, countingLine v.name start stop step⟩] := by
    simp [State.openBrace, Page.line, Page.indentBy, hne]
  refine ⟨v.name, start, stop, step, rfl, h.has.mono (.of_scopes (fun _ _ hp => hp) ?_ rfl), ?_⟩
  · exact ⟨_, hlog.symm⟩
  · change (s.openBrace _).page.log.toList.getLast?.map _ = _
    rw [hlog]
    simp

theorem forStatement_yields (h : Backing tape s) :
    Yields tape.tokens s (forStatement token) fun _ s' => s'.Counts := by
  refine (expectName_does.yields h).bind fun name s₁ ⟨⟨h₁, _⟩, hname, _⟩ => ?_
  refine lookup_finds.yields_bind h₁ fun found ⟨hfind, _⟩ => ?_
  extract_lets open_
  have hopen : ∀ v s₂, Backing tape s₂ → s₂.Owns v →
      Yields tape.tokens s₂ (open_ v) fun _ s' => s'.Counts := by
    intro v s₂ h₂ hv
    refine (expectOperator_does.yields h₂).bind fun _ s₃ ⟨⟨h₃, hpath₃⟩, _⟩ => ?_
    refine (expression_does.yields h₃).bind fun start s₄ ⟨⟨h₄, hpath₄⟩, _⟩ => ?_
    refine (expectKeyword_does.yields h₄).bind fun _ s₅ ⟨⟨h₅, hpath₅⟩, _⟩ => ?_
    refine (expression_does.yields h₅).bind fun stop s₆ ⟨⟨h₆, hpath₆⟩, _⟩ => ?_
    refine (takeKeyword_does.yields h₆).bind fun _ s₇ ⟨⟨h₇, hpath₇⟩, _⟩ => ?_
    have hv₇ : s₇.Owns v :=
      hv.mono ((((hpath₃.trans hpath₄).trans hpath₅).trans hpath₆).trans hpath₇).widens
    extract_lets header
    have hheader : ∀ step s₈, s₈.Owns v →
        Yields tape.tokens s₈ (header step) fun _ s' => s'.Counts :=
      fun step s₈ hv₈ => .of_ok rfl (hv₈.counts start stop step token)
    split
    · exact (expression_does.yields h₇).bind fun step s₈ ⟨⟨_, hpath₈⟩, _⟩ =>
        hheader step s₈ (hv₇.mono hpath₈.widens)
    · exact .pure_bind (hheader "1" s₇ hv₇)
  cases found with
  | some v => exact .pure_bind (hopen v s₁ h₁ (h₁.owns hfind.symm))
  | none =>
    exact (implicitVariable_yields h₁ (.word hname) hfind.symm).bind fun v s₂ ⟨⟨h₂, _⟩, hv⟩ =>
      hopen v s₂ h₂ hv

/-! ### All states of a pass -/

/-- **Declared variables.**  In a pass over a source without one-line functions, at all states its
events lead to and so wherever a statement can begin, the names of all open scopes refer to declared
variables.  What is read as a variable in an expression or behind `FOR` is declared when it was
read, and so is a place, unless it is the spelling of an unknown name.  A value that is stored there
declares the name, unless it was declared meanwhile: then the variable that is stored in is declared
only if there happens to be one of that spelling. -/
theorem variables_backed (source : String) (hread : (Lexer.scan source).fault = none)
    (hplain : ∀ token ∈ (Lexer.scan source).tokens, token.isKeyword "DEF" = false)
    (collector : Collector) : let tape := Tape.ofSource source hread
    (∀ depth s, Between tape.tokens collector depth s → Visited tape s) ∧
    ∀ s, Visited tape s →
      (∀ scope ∈ s.scopes.root :: s.scopes.inner, ∀ key ref, scope.names.get? key = some ref →
        ∃ v, s.scopes.cell? ref = some v ∧ Backs s.procedures s.page.log.toList scope v.name) ∧
      (∀ (depth : Nat) token text s', tape.tokens.size ≤ depth + s.position → tape.Under s token →
        token.kind = .identifier → s.procedures.get? (upper token.text) = none →
        (s.scopes.find? token.text = none → Vocabulary.builtin? token.text = none) →
        primary (expressionTo depth) tape.tokens s = .ok text s' → s'.HasVariable (headName text)) ∧
      (∀ token s', forStatement token tape.tokens s = .ok () s' → s'.Counts) ∧
      (∀ p s', place tape.tokens s = .ok p s' → p.Rests s') ∧
      (∀ s', assignment tape.tokens s = .ok () s' → Assigns tape s s') ∧
      (∀ p name value, p.fresh = some name → ∃ s', store p value tape.tokens s = .ok () s' ∧
        (s'.HasVariable p.code ↔ s.scopes.find? name = none ∨ s.HasVariable p.code)) ∧
      ∀ p name, p.fresh = some name → p.code = identifier name → ∃ s',
        declared p tape.tokens s = .ok p.code s' ∧
          (s'.HasVariable p.code ↔ s.scopes.find? name = none ∨ s.HasVariable p.code) := by
  intro tape
  refine ⟨fun depth s hbetween => (Begun.of_between hbetween).visited, fun s hvisited => ?_⟩
  have h : Backing tape s := hvisited.backing (by simpa [tape, Tape.ofSource] using hplain)
  refine ⟨fun scope hscope => (h.backed scope hscope).names, ?_,
    fun token => forStatement_yields h (), place_yields h, assignment_yields h (),
    fun p name value hfresh => store_hasVariable_iff h hfresh value tape.tokens,
    fun p name hfresh hcode => declared_hasVariable_iff h hfresh hcode tape.tokens⟩
  intro depth token text s' hdepth ht hk hprocedure hbuiltin
  have hnested : Spells tape (s.position + 1) (expressionTo depth) := expressionTo_spells (by omega)
  exact primary_yields hnested (Int.le_refl _) h ht hk hprocedure hbuiltin text s'

/-- What can be seen of the scope at hand: whether it is that of the module, its name, the variables
that it has under some keys, the declarations in it, all lines that were appended, and whether an
error was reported. -/
structure ScopeView where
  isModule : Bool
  name : Option String
  known : List (Option String)
  declared : List String
  lines : List String
  hasError : Bool
deriving DecidableEq

/-- The scope in front of a turn. -/
def scopeAt? (source : String) (turns : Nat) (keys : List String) : Option ScopeView :=
  (turnAt? source turns).map fun s =>
    { isModule := s.scopes.isModule
      name := s.scopes.current.name
      known := keys.map fun key =>
        ((s.scopes.current.names.get? key).bind s.scopes.cell?).map (·.name)
      declared := s.scopes.current.declared.map (·.text)
      lines := s.page.log.toList.map (·.text)
      hasError := decide (HasError s.collector.toList) }

/-- A procedure in which a statement is rejected, with a parameter, and variables that are declared
in a line of their own and at the top. -/
def procedureNames : String :=
  "SUB p (n)\nNEXT +\ntotal = n\nIF n THEN total = total + rest\nEND SUB"

/-- All three are declared at the end of the procedure. -/
theorem procedure_names_backed :
    ∃ s, Between (Lexer.scan procedureNames).tokens.toArray {}
        ((Lexer.scan procedureNames).tokens.toArray.size + 1) s ∧
      s.scopes.current.name = some "p" ∧ HasError s.collector.toList ∧
      ∀ x ∈ ["n", "total", "rest"], Backs s.procedures s.page.log.toList s.scopes.current x := by
  have hscope : scopeAt? procedureNames 7 ["N", "TOTAL", "REST"] = some ⟨false, some "p",
      [some "n", some "total", some "rest"], ["let total = n;", "let rest = 0;"],
      ["async function p(n) \x7b", "let total = n;", "if (n) \x7b", "total = (total + rest);",
        "\x7d"], true⟩ := by
    decide +kernel
  obtain ⟨s, hturn, hs⟩ := Option.map_eq_some_iff.1 hscope
  simp only [ScopeView.mk.injEq, map_cons, map_nil, List.cons.injEq, decide_eq_true_eq] at hs
  obtain ⟨-, hname, ⟨hn, htotal, hrest, -⟩, -, -, herror⟩ := hs
  have hbetween := between_of_turnAt? hturn
  obtain ⟨hvisited, hbacked⟩ :=
    variables_backed procedureNames (by decide +kernel) (by decide +kernel) {}
  obtain ⟨hnames, -⟩ := hbacked s (hvisited _ s hbetween)
  have hbacks {key x : String}
      (hx : ((s.scopes.current.names.get? key).bind s.scopes.cell?).map (·.name) = some x) :
      Backs s.procedures s.page.log.toList s.scopes.current x := by
    obtain ⟨v, hv, rfl⟩ := Option.map_eq_some_iff.1 hx
    obtain ⟨ref, href, hcell⟩ := Option.bind_eq_some_iff.1 hv
    obtain ⟨v', hcell', hbacks⟩ := hnames _ s.scopes.current_mem key ref href
    cases hcell'.symm.trans hcell
    exact hbacks
  exact ⟨s, hbetween, hname, herror, by simpa using ⟨hbacks hn, hbacks htotal, hbacks hrest⟩⟩

/-- Without any report, a value is stored in `foo`, which nothing declares: its name was declared as
`FOO` while the value was read. -/
theorem assignment_to_undeclared :
    ∃ s, Between (Lexer.scan "foo = FOO + 1").tokens.toArray {}
        ((Lexer.scan "foo = FOO + 1").tokens.toArray.size + 1) s ∧
      s.page.log.toList.map (·.text) = ["foo = (FOO + 1);"] ∧ ¬HasError s.collector.toList ∧
      ¬s.HasVariable "foo" := by
  have hscope : scopeAt? "foo = FOO + 1" 1 [] =
      some ⟨true, none, [], ["let FOO = 0;"], ["foo = (FOO + 1);"], false⟩ := by
    decide +kernel
  obtain ⟨s, hturn, hs⟩ := Option.map_eq_some_iff.1 hscope
  simp only [ScopeView.mk.injEq, decide_eq_false_iff_not] at hs
  obtain ⟨hmodule, hname, -, hdeclared, hlog, herror⟩ := hs
  refine ⟨s, between_of_turnAt? hturn, hlog, herror, ?_⟩
  rintro ((⟨header, hheads, -⟩ | ⟨d, hd, hdeclares, -⟩) | ⟨hprocedure, -⟩)
  · have hkey : s.scopes.current.name.map upper = some header.key := hheads.name
    rw [hname] at hkey
    cases hkey
  · have hfoo : Wordy "foo" := ⟨by decide, by decide⟩
    have htext : d.text = "let FOO = 0;" := by
      have hmem := mem_map_of_mem (f := Declaration.text) hd
      rwa [hdeclared, mem_singleton] at hmem
    have hsame : declaredName d.text = "foo" := hdeclares.declaredName_eq hfoo
    rw [htext] at hsame
    exact absurd hsame (by decide)
  · rw [hmodule] at hprocedure
    cases hprocedure

end BasicScript
