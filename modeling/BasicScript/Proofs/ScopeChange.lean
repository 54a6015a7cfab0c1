import BasicScript.Proofs.Run

/-!
# What happens to the scopes

Most events leave the scopes as they are.  The others change them in a few ways: names are declared,
shared and refined, a declaration is written, the scope of a procedure is opened and closed
(`Scopes.Changes`), and names are lent and given back.  What is said of the scopes is shown for
these ways alone.  Most of these ways change names and nothing else (`Scopes.Renames`).
-/

namespace BasicScript

open List

variable {tape : Tape} {s : State} {sc : Scopes}

/-! ### Changes of names -/

/-- A scope without its names. -/
def Scope.unnamed (scope : Scope) : Scope := { scope with names := [] }

theorem Scope.eq_of_unnamed {scope scope' : Scope} (h : scope'.unnamed = scope.unnamed) :
    ∃ names, scope' = { scope with names } :=
  ⟨scope'.names, by cases scope; cases scope'; simpa [unnamed] using h⟩

namespace Scopes

/-- What is read off each scope stays, if the change of the current one keeps it. -/
theorem map_mapCurrent {α : Type} {f : Scope → Scope} {g : Scope → α}
    (h : ∀ scope, g (f scope) = g scope) :
    ((sc.mapCurrent f).root :: (sc.mapCurrent f).inner).map g = (sc.root :: sc.inner).map g := by
  unfold mapCurrent
  split <;> simp_all

/-- From some scopes to others that differ in their names alone. -/
structure Renames (sc sc' : Scopes) : Prop where
  unnamed : (sc'.root :: sc'.inner).map Scope.unnamed = (sc.root :: sc.inner).map Scope.unnamed
  closed : sc'.closed = sc.closed
  tops : sc'.tops = sc.tops

namespace Renames

variable {sc₁ sc' : Scopes}

theorem refl (sc : Scopes) : sc.Renames sc := ⟨rfl, rfl, rfl⟩

theorem trans (h : sc.Renames sc₁) (h' : sc₁.Renames sc') : sc.Renames sc' :=
  ⟨h'.unnamed.trans h.unnamed, h'.closed.trans h.closed, h'.tops.trans h.tops⟩

/-- What is read off each scope without its names stays. -/
theorem map {α : Type} (g : Scope → α) (h : sc.Renames sc')
    (hg : ∀ scope, g scope.unnamed = g scope) :
    (sc'.root :: sc'.inner).map g = (sc.root :: sc.inner).map g := by
  have hmap := congrArg (List.map g) h.unnamed
  simpa only [map_map, Function.comp_def, hg] using hmap

theorem declared (h : sc.Renames sc') :
    (sc'.root :: sc'.inner).map (·.declared) = (sc.root :: sc.inner).map (·.declared) :=
  h.map _ fun _ => rfl

theorem hoisted (h : sc.Renames sc') :
    (sc'.root :: sc'.inner).map (·.hoisted) = (sc.root :: sc.inner).map (·.hoisted) :=
  h.map _ fun _ => rfl

theorem mapCurrent {f : Scope → Scope} (hf : ∀ scope, (f scope).unnamed = scope.unnamed) :
    sc.Renames (sc.mapCurrent f) :=
  ⟨map_mapCurrent hf, closed_mapCurrent f, tops_mapCurrent f⟩

theorem bind (name : String) (v : Variable) :
    sc.Renames (({ sc with cells := sc.cells.push v } : Scopes).bind name sc.cells.size) := by
  have hcells : sc.Renames { sc with cells := sc.cells.push v } := ⟨rfl, rfl, rfl⟩
  exact hcells.trans (mapCurrent fun _ => rfl)

theorem declare (name : String) (v : Variable) : sc.Renames (sc.declare name v).2 := by
  cases h : sc.local? name with
  | none =>
    rw [declare_of_local? h]
    exact bind name v
  | some ref =>
    rw [declare_of_some h]
    split
    · exact ⟨rfl, rfl, rfl⟩
    · exact refl sc

theorem naming (naming : Naming) : sc.Renames (naming.apply sc) := by
  cases naming with
  | declares name v => exact declare name v
  | shares name ref =>
    simp only [Naming.apply, share]
    split
    · exact refl sc
    · exact ⟨rfl, rfl, rfl⟩
  | refines ref isArray record => exact ⟨rfl, rfl, rfl⟩

theorem hideAll (list : List Emit.Parameter) : sc.Renames (sc.hideAll list) := by
  induction list generalizing sc with
  | nil => exact refl sc
  | cons p rest ih => exact (bind p.name p.slot).trans ih

theorem lends (list : List Emit.Parameter) :
    sc.Renames ((sc.lose (list.map (·.name))).hideAll list) := by
  have hlose : sc.Renames (sc.lose (list.map (·.name))) := ⟨rfl, rfl, rfl⟩
  exact hlose.trans (hideAll list)

theorem regains (before : List (String × Option Ref)) : sc.Renames (before.foldl giveBack sc) := by
  induction before generalizing sc with
  | nil => exact refl sc
  | cons item rest ih =>
    obtain ⟨g, hg⟩ := sc.giveBack_eq item
    have hback : sc.Renames (sc.giveBack item) := hg ▸ mapCurrent fun _ => rfl
    exact hback.trans ih

end Renames

end Scopes

/-! ### Changes of the scopes -/

/-- The scopes with a declaration, which goes to the top of the current one or not. -/
def Scopes.write (sc : Scopes) (d : Declaration) : Scopes :=
  sc.mapCurrent fun scope =>
    { scope with
      declared := scope.declared ++ [d]
      hoisted := if d.atTop then scope.hoisted ++ [d.text] else scope.hoisted }

theorem State.scopes_written (s : State) (d : Declaration) :
    (s.written d).scopes = s.scopes.write d := by
  unfold State.written Scopes.write Scopes.note Scopes.hoist Scopes.mapCurrent
  cases s.scopes.inner <;> cases d.atTop <;> rfl

/-- A quiet event declares a name with its line, or leaves the scopes alone. -/
theorem Event.scopes_of_isQuiet {e : Event} (h : e.isQuiet = true) :
    (e.apply s).scopes = s.scopes ∨ ∃ name v d, (e.apply s).scopes =
    (s.scopes.declare name v).2.write d := by
  cases e with
  | advances | reports | counts | passes => exact .inl rfl
  | records r =>
    obtain ⟨caught, recorded, line, ds, he⟩ := s.refused_eq r
    exact .inl (by rw [Event.apply, he])
  | enrols entry => cases entry <;> exact .inl rfl
  | introduces name v d => exact .inr ⟨name, v, d, State.scopes_written ..⟩
  | _ => cases h

/-- **Quiet runs** only declare names with their lines. -/
theorem Run.scopes_of_quiet {R : Scopes → Scopes → Prop} {s' : State}
    {es : List Event} (hrefl : ∀ sc, R sc sc)
    (htrans : ∀ {sc sc₁ sc'}, R sc sc₁ → R sc₁ sc' → R sc sc')
    (hdeclare : ∀ sc name v d, R sc ((sc.declare name v).2.write d)) (h : Run tape .quiet s es s') :
    R s.scopes s'.scopes := by
  induction h with
  | nil => exact hrefl _
  | step hlevel _ _ ih =>
    refine htrans ?_ ih
    rcases Event.scopes_of_isQuiet hlevel with hscopes | ⟨name, v, d, hscopes⟩ <;> rw [hscopes]
    · exact hrefl _
    · exact hdeclare ..
  | branch hlevel | branches hlevel | lending hlevel => exact absurd rfl hlevel

/-- What an event may do to the scopes that lends no names and gives none back. -/
inductive Scopes.Changes (tape : Tape) (sc : Scopes) : Scopes → Prop where
  | same : sc.Changes tape sc
  | names {naming : Naming} (h : naming.Fits tape sc) : sc.Changes tape (naming.apply sc)
  | introduces {name : String} {v : Variable} {d : Declaration} (hkey : d.key = Text.upper name)
      (hadmits : sc.current.Admits d) (hcalled : tape.Called d.key v.name)
      (hname : declaredName d.text = v.name) : sc.Changes tape ((sc.declare name v).2.write d)
  | defines {d : Declaration} (h : d.origin = .function)
      (hcalled : tape.Called d.key (declaredName d.text)) : sc.Changes tape (sc.write d)
  | opens {scope : Scope} (hinner : sc.inner = []) (hnames : scope.names = [])
      (hdeclared : scope.declared = []) (hhoisted : scope.hoisted = []) :
      sc.Changes tape { sc with inner := [scope] }
  | closes {scope : Scope} (hinner : sc.inner = [scope]) : sc.Changes tape { sc with
        inner := [], closed := sc.closed ++ [scope.declared], tops := sc.tops ++ [scope.top] }

/-- A block is ended: its scope is closed if it is a procedure. -/
theorem Sound.changes_finish {block : Block} {rest : List Block} (hs : Sound tape s)
    (hb : s.blocks = block :: rest) (closed : Bool) :
    s.scopes.Changes tape ((s.without block rest closed).finish block.form).scopes := by
  have hleave (kind : ProcedureKind) (hk : block.form.kind = .procedure kind) (page : Script.Page) :
      s.scopes.Changes tape ({ s.without block rest closed with page }.leaveProcedure).scopes := by
    obtain ⟨-, scope, hinner⟩ := hs.scope_of_procedure hb hk
    have hcurrent : s.scopes.current = scope := by simp [Scopes.current, hinner]
    simp only [State.without, State.leaveProcedure, State.closeBrace, hcurrent, hinner, tail_cons]
    exact .closes hinner
  cases hform : block.form with
  | sub => exact hleave .sub (by rw [hform, BlockForm.kind]) _
  | function result => exact hleave .function (by rw [hform, BlockForm.kind]) _
  | selection value cases hasElse =>
    simp only [State.finish]
    split <;> exact .same
  | looping testsBehind => cases testsBehind <;> exact .same
  | condition hasElse | counting name | whileLoop => exact .same

/-- **What an event does to the scopes.** -/
theorem Event.changes {e : Event} (hs : Sound tape s) (hfit : e.Fits tape s)
    (hloan : e.isLoan = false) : s.scopes.Changes tape (e.apply s).scopes := by
  cases e with
  | records r =>
    obtain ⟨caught, recorded, line, ds, h⟩ := s.refused_eq r
    rw [Event.apply, h]
    exact .same
  | names naming => exact .names hfit.1
  | enrols entry => cases entry <;> exact .same
  | introduces name v d =>
    rw [Event.apply, State.scopes_written]
    obtain ⟨hcalled, -, hkey, hadmits, hname, -⟩ := hfit
    exact .introduces hkey hadmits hcalled hname
  | defines d =>
    rw [Event.apply, State.scopes_written]
    exact .defines hfit.2.1 hfit.2.2.2.1
  | begins kind name jsName parameters token =>
    have hinner : s.scopes.inner = [] := by
      simpa [hfit.2.2.2.1, expectedScopes] using hs.framed.inner
    simp only [Event.apply, State.pushBlock, State.openBrace, Scopes.push,
      Scopes.mapCurrent, hinner]
    exact .opens hinner rfl rfl rfl
  | tests test =>
    obtain ⟨page, blocks, h⟩ := s.tests_eq test
    rw [h]
    exact .same
  | elses =>
    obtain ⟨page, blocks, h⟩ := s.elses_eq
    rw [h]
    exact .same
  | ends test =>
    obtain ⟨block, hblock, -⟩ := hfit
    obtain ⟨rest, hb⟩ := head?_eq_some_iff.1 hblock
    simp only [Event.apply, hb]
    cases test with
    | none => exact hs.changes_finish hb true
    | some t => exact .same
  | abandons =>
    obtain ⟨block, rest, hb⟩ := exists_cons_of_ne_nil hfit
    simp only [Event.apply, hb]
    exact Sound.changes_finish (s := s.reported _) (hs.collector _) hb false
  | lends list => cases hloan
  | regains before => cases hloan
  | _ => exact .same

/-- A loan changes names alone. -/
theorem Event.changes_or_renames {e : Event} (hs : Sound tape s) (hfit : e.Fits tape s) :
    s.scopes.Changes tape (e.apply s).scopes ∨ s.scopes.Renames (e.apply s).scopes := by
  cases hloan : e.isLoan with
  | false => exact .inl (Event.changes hs hfit hloan)
  | true =>
    cases e with
    | lends list => exact .inr (.lends list)
    | regains before => exact .inr (.regains before)
    | _ => cases hloan

end BasicScript
