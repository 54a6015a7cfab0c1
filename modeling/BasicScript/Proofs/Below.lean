import BasicScript.Proofs.Event

/-!
# Lines in front of a page

The lines of a body may begin anywhere on a page: with other lines in front of them, each place that
was marked lies that many lines further down.  `State.below` puts lines in front of a state in this
way.

No event tells the difference (`Event.apply_below`): what it does to a state below some lines is
what it does to the state, below the same lines.  The places at which lines are put in must not be
counted from the end, so they have to be marked as places from the front (`Scopes.Marked`).
-/

namespace BasicScript

open Script List

/-! ### Pages -/

namespace Script.Page

variable (front : List Line) (page : Page)

/-- The page with lines in front. -/
def below : Page := { page with lines := front.toArray ++ page.lines }

@[simp] theorem below_nil : page.below [] = page := by simp [below]

theorem mark_below : (page.below front).mark = page.mark + front.length := by
  simp [mark, below, Nat.add_comm]

theorem line_below (text : String) :
    (page.below front).line text = (page.line text).below front := by
  simp only [line, below, Array.append_push]

theorem indentBy_below (levels : Int) :
    (page.below front).indentBy levels = (page.indentBy levels).below front := rfl

theorem dedent_below : (page.below front).dedent = page.dedent.below front := by
  unfold dedent
  split <;> rename_i h <;> simp only [below] at h ⊢ <;> simp only [h, reduceIte]

/-- Lines that are put in at a marked place land that many lines further down. -/
theorem insert_below {place : Int} (h : 0 ≤ place) (texts : List String) (indent : Int) :
    (page.below front).insert (place + front.length) texts indent =
      (page.insert place texts indent).below front := by
  have hbound : Sequence.bound (front ++ page.lines.toList).length (place + front.length) =
      front.length + Sequence.bound page.lines.toList.length place := by
    simp only [Sequence.bound, length_append]
    split <;> split <;> omega
  simp only [insert, below, Sequence.insertAt, Array.toList_append, hbound,
    take_length_add_append, drop_length_add_append]
  simp

end Script.Page

/-! ### Scopes -/

/-- The scope with its place further down. -/
def Scope.below (n : Nat) (scope : Scope) : Scope := { scope with mark := scope.mark + n }

@[simp] theorem Scope.below_zero (scope : Scope) : scope.below 0 = scope := by simp [Scope.below]

namespace Scopes

variable (n : Nat) (sc : Scopes)

/-- The scopes with their places further down. -/
def below : Scopes := { sc with root := sc.root.below n, inner := sc.inner.map (·.below n) }

/-- The places of scopes are counted from the front. -/
def Marked : Prop := ∀ scope ∈ sc.root :: sc.inner, 0 ≤ scope.mark

@[simp] theorem below_zero : sc.below 0 = sc := by
  simp [below]

@[simp] theorem shared_below : (sc.below n).shared = sc.shared := rfl

@[simp] theorem current_below : (sc.below n).current = sc.current.below n := by
  unfold current below
  cases sc.inner <;> rfl

@[simp] theorem isModule_below : (sc.below n).isModule = sc.isModule := by simp [isModule, below]

@[simp] theorem local?_below : (sc.below n).local? = sc.local? := by
  funext name
  simp only [local?, current_below, Scope.below]

@[simp] theorem lookup?_below : (sc.below n).lookup? = sc.lookup? := by
  funext name
  simp only [lookup?, local?_below, isModule_below, shared_below]

@[simp] theorem cell?_below : (sc.below n).cell? = sc.cell? := rfl

@[simp] theorem find?_below : (sc.below n).find? = sc.find? := by
  funext name
  simp only [find?, lookup?_below, cell?_below]

/-- A change of the current scope that does not look at its place. -/
theorem mapCurrent_below {f : Scope → Scope} (hf : ∀ scope, f (scope.below n) = (f scope).below n) :
    (sc.below n).mapCurrent f = (sc.mapCurrent f).below n := by
  unfold mapCurrent below
  cases sc.inner <;> simp [hf]

@[simp] theorem bind_below (name : String) (ref : Ref) :
    (sc.below n).bind name ref = (sc.bind name ref).below n :=
  mapCurrent_below n sc fun _ => rfl

@[simp] theorem forget_below (name : String) :
    (sc.below n).forget name = (sc.forget name).below n :=
  mapCurrent_below n sc fun _ => rfl

@[simp] theorem note_below (d : Declaration) : (sc.below n).note d = (sc.note d).below n :=
  mapCurrent_below n sc fun _ => rfl

@[simp] theorem hoist_below (text : String) : (sc.below n).hoist text = (sc.hoist text).below n :=
  mapCurrent_below n sc fun _ => rfl

@[simp] theorem declare_below (name : String) (v : Variable) :
    (sc.below n).declare name v = ((sc.declare name v).1, (sc.declare name v).2.below n) := by
  unfold declare
  rw [local?_below]
  cases sc.local? name with
  | none =>
    exact Prod.ext rfl (bind_below n { sc with cells := sc.cells.push v } name sc.cells.size)
  | some ref => dsimp only; split <;> rfl

@[simp] theorem share_below (name : String) (ref : Option Ref) :
    (sc.below n).share name ref = (sc.share name ref).below n := by
  simp only [share, shared_below, isModule_below]
  split <;> rfl

theorem lose_below (names : List String) : (sc.below n).lose names = (sc.lose names).below n := by
  simp only [lose, shared_below, isModule_below]
  rfl

theorem hideAll_below (list : List Emit.Parameter) :
    (sc.below n).hideAll list = (sc.hideAll list).below n := by
  induction list generalizing sc with
  | nil => rfl
  | cons p rest ih =>
    have hfirst : (sc.below n).hide p = (sc.hide p).below n :=
      bind_below n { sc with cells := sc.cells.push p.slot } p.name sc.cells.size
    simp only [hideAll, foldl_cons, hfirst] at ih ⊢
    exact ih _

theorem giveBack_below (before : List (String × Option Ref)) :
    before.foldl giveBack (sc.below n) = (before.foldl giveBack sc).below n := by
  induction before generalizing sc with
  | nil => rfl
  | cons item rest ih =>
    obtain ⟨name, ref⟩ := item
    have hfirst : (sc.below n).giveBack (name, ref) = (sc.giveBack (name, ref)).below n := by
      cases ref with
      | none => exact forget_below n sc name
      | some ref => exact bind_below n sc name ref
    rw [foldl_cons, foldl_cons, hfirst, ih]

end Scopes

theorem Naming.apply_below (naming : Naming) (n : Nat) (sc : Scopes) :
    naming.apply (sc.below n) = (naming.apply sc).below n := by
  cases naming with
  | declares name v => simp [Naming.apply]
  | shares name ref => simp [Naming.apply]
  | refines ref isArray record => rfl

/-! ### States -/

namespace State

variable (front : List Line) (s : State)

/-- The state with lines in front of its page. -/
def below : State := { s with page := s.page.below front, scopes := s.scopes.below front.length }

@[simp] theorem below_nil : s.below [] = s := by simp [below]

@[simp] theorem current_below :
    (s.below front).scopes.current = s.scopes.current.below front.length :=
  Scopes.current_below ..

theorem base_below : (s.below front).scopes.current.base = s.scopes.current.base := by
  rw [current_below]
  rfl

theorem floor_below : (s.below front).floor = s.floor := by
  rw [floor, base_below]
  rfl

theorem declare_fst_below (name : String) (v : Variable) :
    ((s.below front).scopes.declare name v).1 = (s.scopes.declare name v).1 := by
  rw [below, Scopes.declare_below]

theorem addLine_below (text : String) :
    (s.below front).addLine text = (s.addLine text).below front := by
  simp only [addLine, below, Page.line_below]

theorem openBrace_below (text : String) :
    (s.below front).openBrace text = (s.openBrace text).below front := by
  simp only [openBrace, below, Page.line_below, Page.indentBy_below]

theorem closeBrace_below (text : String) :
    (s.below front).closeBrace text = (s.closeBrace text).below front := by
  simp only [closeBrace, below, Page.line_below, Page.dedent_below]

theorem turnBrace_below (text : String) :
    (s.below front).turnBrace text = (s.turnBrace text).below front := by
  simp only [turnBrace, below, Page.line_below, Page.dedent_below, Page.indentBy_below]

theorem reform_below (form : BlockForm) :
    (s.below front).reform form = (s.reform form).below front := by
  unfold reform
  dsimp only [below]
  split <;> rfl

theorem written_below (d : Declaration) :
    (s.below front).written d = (s.written d).below front := by
  unfold written
  dsimp only [below]
  rw [Scopes.note_below, Scopes.hoist_below]
  split
  · rfl
  · exact addLine_below front { s with scopes := s.scopes.note d } d.text

theorem refused_below (r : Rejection) : (s.below front).refused r = (s.refused r).below front := by
  by_cases h : r.line = s.lastRejectedLine
  · rw [refused_of_eq h, refused_of_eq (s := s.below front) h]
    rfl
  · rw [refused_of_ne h, refused_of_ne (s := s.below front) h]
    rfl

theorem caseLine_below (cases : Nat) (test : Option String) :
    (s.below front).caseLine cases test = (s.caseLine cases test).below front := by
  cases test <;> simp only [caseLine] <;> split <;> simp only [openBrace_below, turnBrace_below]

variable {s}

theorem leaveProcedure_below (h : s.scopes.Marked) :
    (s.below front).leaveProcedure = s.leaveProcedure.below front := by
  have htail : (s.below front).scopes.inner.tail = s.scopes.inner.tail.map (·.below front.length) :=
    map_tail.symm
  have hinsert : (s.below front).page.insert (s.scopes.current.mark + front.length)
        s.scopes.current.hoisted s.scopes.current.indent =
      (s.page.insert s.scopes.current.mark s.scopes.current.hoisted
        s.scopes.current.indent).below front :=
    Page.insert_below front s.page (h _ s.scopes.current_mem) ..
  simp only [leaveProcedure, current_below, htail, ← closeBrace_below, Scope.below, hinsert]
  cases hhoisted : s.scopes.current.hoisted.isEmpty <;> rfl

theorem finish_below (h : s.scopes.Marked) (form : BlockForm) :
    (s.below front).finish form = (s.finish form).below front := by
  cases form with
  | sub => exact leaveProcedure_below front h
  | function result =>
    rw [finish, addLine_below]
    exact leaveProcedure_below front (s := s.addLine _) h
  | selection value cases hasElse =>
    simp only [finish]
    split <;> simp only [closeBrace_below]
  | looping testsBehind => cases testsBehind <;> exact closeBrace_below ..
  | condition | counting | whileLoop => exact closeBrace_below ..

theorem finishWith_below (h : s.scopes.Marked) (form : BlockForm) (test : Option String) :
    (s.below front).finishWith form test = (s.finishWith form test).below front := by
  cases test with
  | none => exact finish_below front h form
  | some test => exact closeBrace_below ..

end State

/-! ### Events -/

theorem Entry.apply_below (entry : Entry) (front : List Line) (s : State) :
    entry.apply (s.below front) = (entry.apply s).below front := by
  cases entry <;> rfl

/-- **Events** do not tell where the page begins. -/
theorem Event.apply_below (front : List Line) {s : State} (h : s.scopes.Marked) (e : Event) :
    e.apply (s.below front) = (e.apply s).below front := by
  cases e with
  | advances | breaks | reports | counts | passes => rfl
  | records r => exact State.refused_below front s r
  | names naming =>
    simp only [Event.apply, State.below, Naming.apply_below]
  | enrols entry => exact entry.apply_below front s
  | introduces name v d =>
    simp only [Event.apply, ← State.written_below]
    simp only [State.below, Scopes.declare_below]
  | defines d => exact State.written_below front s d
  | emits text => exact State.addLine_below front s text
  | exits kind =>
    exact State.addLine_below front
      { s with exits := ⟨kind, s.page.log.size, s.blocks⟩ :: s.exits } _
  | opens form text token =>
    simp only [Event.apply, State.openBrace_below]
    rfl
  | selects value selector token =>
    simp only [Event.apply, State.openBrace_below, State.addLine_below]
    rfl
  | begins kind name jsName parameters token =>
    have hmark :
        (((s.openBrace (headerLine jsName (Text.commas parameters))).below front).page.mark : Int) =
        ((s.openBrace (headerLine jsName (Text.commas parameters))).page.mark : Int) +
          front.length := by
      simp [State.below, Page.mark_below]
    simp only [Event.apply, State.openBrace_below, hmark]
    rfl
  | tests test =>
    have htop : (s.below front).topForm? = s.topForm? := rfl
    simp only [Event.apply, htop]
    split
    · rw [State.caseLine_below, State.reform_below]
    · rfl
  | elseIfs condition => exact State.turnBrace_below front s _
  | elses => simp only [Event.apply, State.reform_below, State.turnBrace_below]
  | ends test =>
    have hblocks : (s.below front).blocks = s.blocks := rfl
    simp only [Event.apply, hblocks]
    split
    · rfl
    · rename_i block rest _
      exact State.finishWith_below front (s := s.without block rest true) h block.form test
  | abandons =>
    have hblocks : (s.below front).blocks = s.blocks := rfl
    simp only [Event.apply, hblocks]
    split
    · rfl
    · rename_i block rest _
      exact State.finish_below front (s := (s.without block rest false).reported _) h block.form
  | enters condition =>
    simp only [Event.apply, State.openBrace_below]
    rfl
  | turns => exact State.turnBrace_below front s _
  | leaves => exact State.closeBrace_below front { s with floors := s.floors.drop 1 } _
  | lends list => simp only [Event.apply, State.below, Scopes.lose_below, Scopes.hideAll_below]
  | regains before => simp only [Event.apply, State.below, Scopes.giveBack_below]

end BasicScript
