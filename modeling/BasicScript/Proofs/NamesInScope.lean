import BasicScript.Proofs.Arity
import BasicScript.Proofs.Sharing

/-!
# What names in scope are called

A name in scope refers to a cell, and the variable in the cell is called in JavaScript as the source
calls the name (`Scopes.Named`).  Cells are added and never renamed (`Scopes.Keeps`), so a name that
was hidden by a parameter of a one-line function is given back a variable of its own.  The line of a
declaration declares a name for the key of the declaration (`Scopes.DeclaresKeys`).

* `Visited.named`, `Visited.declaresKeys`, `Visited.parameters`: what is known wherever the events
  of a pass lead.
* `Observed`: the states of a pass that its results speak of.
-/

namespace BasicScript

open Emit Text Lexer List

variable {tape : Tape} {level : Level} {s s' : State} {es : List Event} {sc sc₁ sc' : Scopes}
    {key name source : String}
  {ref : Ref} {v : Variable} {list : List Parameter} {e : Event}

/-! ### Cells keep their names -/

namespace Scopes

/-- Cells stay, and with them the names of their variables. -/
def Keeps (sc sc' : Scopes) : Prop :=
  ∀ ref v, sc.cell? ref = some v → ∃ v', sc'.cell? ref = some v' ∧ v'.name = v.name

namespace Keeps

theorem of_cells (h : sc'.cells = sc.cells) : sc.Keeps sc' := fun ref v hcell =>
  ⟨v, by rwa [cell?, h], rfl⟩

theorem trans (h : sc.Keeps sc₁) (h' : sc₁.Keeps sc') : sc.Keeps sc' := by
  intro ref v hcell
  obtain ⟨v₁, hcell₁, hname₁⟩ := h ref v hcell
  obtain ⟨v', hcell', hname'⟩ := h' ref v₁ hcell₁
  exact ⟨v', hcell', hname'.trans hname₁⟩

theorem allocate (v : Variable) : sc.Keeps (sc.allocate v).2 := by
  intro ref old hcell
  have hlt : ref < sc.cells.size := (Array.getElem?_eq_some_iff.1 hcell).1
  exact ⟨old,
    by simpa [cell?, Scopes.allocate, Array.getElem?_push, Nat.ne_of_lt hlt] using hcell, rfl⟩

theorem modify (ref : Ref) (f : Variable → Variable) (hf : ∀ v, (f v).name = v.name) :
    sc.Keeps (sc.modify ref f) := by
  intro ref' v hcell
  by_cases href : ref = ref'
  · exact ⟨f v, by simp_all [cell?, Scopes.modify, Array.getElem?_modify], hf v⟩
  · exact ⟨v, by simp_all [cell?, Scopes.modify, Array.getElem?_modify], rfl⟩

theorem declare (name : String) (v : Variable) : sc.Keeps (sc.declare name v).2 := by
  cases h : sc.local? name with
  | none =>
    rw [declare_of_local? h]
    exact (allocate v).trans (of_cells (cells_mapCurrent _))
  | some ref =>
    rw [declare_of_some h]
    split
    · exact modify ref _ fun _ => rfl
    · exact of_cells rfl

theorem hide (p : Parameter) : sc.Keeps (sc.hide p) :=
  (allocate p.slot).trans (of_cells (cells_mapCurrent _))

theorem hideAll (list : List Parameter) : sc.Keeps (sc.hideAll list) := by
  induction list generalizing sc with
  | nil => exact of_cells rfl
  | cons p rest ih => exact (hide p).trans ih

end Keeps

end Scopes

/-- A quiet run keeps the names of all cells. -/
theorem Run.keeps (h : Run tape .quiet s es s') : s.scopes.Keeps s'.scopes :=
  h.scopes_of_quiet (R := Scopes.Keeps) (fun _ => .of_cells rfl) .trans fun _ name v _ =>
    (Scopes.Keeps.declare name v).trans (.of_cells (Scopes.cells_mapCurrent _))

/-! ### Names and their variables -/

namespace Scopes

/-- The variable in a cell is called as the source calls the key. -/
def Holds (tape : Tape) (sc : Scopes) (key : String) (ref : Ref) : Prop :=
  ∃ v, sc.cell? ref = some v ∧ tape.Called key v.name

theorem Holds.keep (h : sc.Holds tape key ref) (hkeeps : sc.Keeps sc') :
    sc'.Holds tape key ref := by
  obtain ⟨v, hcell, hcalled⟩ := h
  obtain ⟨v', hcell', hname⟩ := hkeeps ref v hcell
  exact ⟨v', hcell', hname ▸ hcalled⟩

/-- What a name refers to, in its scope or as a shared name, is called as the source calls the
name. -/
structure Named (tape : Tape) (sc : Scopes) : Prop where
  names : ∀ scope ∈ sc.root :: sc.inner, ∀ key ref, scope.names.get? key = some ref →
    sc.Holds tape key ref
  shared : ∀ key ref, sc.shared.get? key = some (some ref) → sc.Holds tape key ref

namespace Named

theorem start (mark indent : Int) : (Scopes.start mark indent).Named tape :=
  ⟨by simp [Scopes.start, Table.get?], by simp [Scopes.start, Table.get?]⟩

variable (h : sc.Named tape)

include h

theorem lookup (href : sc.lookup? name = some ref) : sc.Holds tape (upper name) ref := by
  unfold lookup? at href
  cases hlocal : sc.local? name with
  | some found =>
    rw [hlocal] at href
    cases href
    exact h.names _ sc.current_mem _ ref hlocal
  | none =>
    simp only [hlocal] at href
    split at href
    · cases href
    · exact h.shared _ ref (Option.join_eq_some_iff.1 href)

/-- A variable that is found for a name is called as the source calls the name. -/
theorem find (hv : sc.find? name = some v) : tape.Called (upper name) v.name := by
  obtain ⟨ref, href, hcell⟩ := Option.bind_eq_some_iff.1 hv
  obtain ⟨v', hcell', hcalled⟩ := h.lookup href
  cases hcell'.symm.trans hcell
  exact hcalled

/-- The current scope changes, in its names at most. -/
theorem mapCurrent {f : Scope → Scope}
    (hf : ∀ key ref, (f sc.current).names.get? key = some ref → sc.Holds tape key ref) :
    (sc.mapCurrent f).Named tape := by
  have hholds : ∀ key ref, (sc.mapCurrent f).Holds tape key ref ↔ sc.Holds tape key ref := by
    simp [Holds]
  refine ⟨fun scope hscope key ref hget => ?_, fun key ref hget => ?_⟩
  · rw [hholds]
    exact forall_mapCurrent (P := fun scope => ∀ key ref, scope.names.get? key = some ref →
      sc.Holds tape key ref)
      h.names (fun _ => hf) scope hscope key ref hget
  · rw [hholds]
    exact h.shared key ref (by rwa [shared_mapCurrent] at hget)

theorem keep {cells : Array Variable} (hkeeps : sc.Keeps { sc with cells }) :
    Scopes.Named tape { sc with cells } :=
  ⟨fun scope hscope key ref hget => (h.names scope hscope key ref hget).keep hkeeps,
    fun key ref hget => (h.shared key ref hget).keep hkeeps⟩

theorem bind (href : sc.Holds tape (upper name) ref) : (sc.bind name ref).Named tape := by
  refine h.mapCurrent fun key ref' hget => ?_
  rw [Table.get?_insert] at hget
  split at hget
  · rename_i hkey
    cases hget
    rwa [hkey]
  · exact h.names _ sc.current_mem key ref' hget

theorem forget (name : String) : (sc.forget name).Named tape := by
  refine h.mapCurrent fun key ref hget => ?_
  rw [Table.get?_erase] at hget
  split at hget
  · cases hget
  · exact h.names _ sc.current_mem key ref hget

theorem allocate (hv : tape.Called (upper name) v.name) :
    ((sc.allocate v).2.bind name (sc.allocate v).1).Named tape := by
  have hcells : (sc.allocate v).2.Named tape := h.keep (.allocate v)
  exact hcells.bind ⟨v, by simp [cell?, Scopes.allocate], hv⟩

theorem declare (hv : tape.Called (upper name) v.name) : (sc.declare name v).2.Named tape := by
  cases hlocal : sc.local? name with
  | none =>
    rw [declare_of_local? hlocal]
    exact h.allocate hv
  | some ref =>
    rw [declare_of_some hlocal]
    split
    · exact h.keep (.modify ref _ fun _ => rfl)
    · exact h

theorem write (d : Declaration) : (sc.write d).Named tape :=
  h.mapCurrent fun key ref hget => h.names _ sc.current_mem key ref hget

theorem share {found : Option Ref} (hfound : sc.lookup? name = found) :
    (sc.share name found).Named tape := by
  unfold Scopes.share
  dsimp only
  split
  · exact h
  refine ⟨h.names, fun key ref hget => ?_⟩
  dsimp only at hget
  rw [Table.get?_insert] at hget
  split at hget
  · rename_i hkey
    subst hkey
    exact h.lookup (hfound.trans (Option.some.inj hget))
  · exact h.shared key ref hget

end Named

theorem Changes.named (h : sc.Changes tape sc') (hnamed : sc.Named tape) : sc'.Named tape := by
  cases h with
  | same => exact hnamed
  | @names naming hfit =>
    cases naming with
    | declares name v => exact hnamed.declare hfit
    | shares name found => exact hnamed.share hfit.2
    | refines ref isArray record => exact hnamed.keep (.modify ref _ fun _ => rfl)
  | introduces hkey _ hcalled => exact (hnamed.declare (hkey ▸ hcalled)).write _
  | defines => exact hnamed.write _
  | opens hinner hnames =>
    have hroot := hnamed.names sc.root (by simp)
    refine ⟨forall_mem_cons.2 ⟨hroot, ?_⟩, hnamed.shared⟩
    simp [hnames, Table.get?]
  | closes hinner =>
    have hroot := hnamed.names sc.root (by simp)
    exact ⟨forall_mem_cons.2 ⟨hroot, by simp⟩, hnamed.shared⟩

/-! ### Names that are lent -/

theorem Named.hide {p : Parameter} (h : sc.Named tape) (hp : p.Fits tape) :
    (sc.hide p).Named tape :=
  h.allocate hp.called

theorem Named.hideAll (h : sc.Named tape) (hlist : ∀ p ∈ list, p.Fits tape) :
    (sc.hideAll list).Named tape := by
  induction list generalizing sc with
  | nil => exact h
  | cons p rest ih => exact ih (h.hide (hlist p (by simp))) fun q hq => hlist q (by simp [hq])

/-- The names that parameters hide keep their variables. -/
theorem Named.hidden (h : sc.Named tape) (hlist : ∀ p ∈ list, p.Fits tape) :
    ∀ name ref, (name, some ref) ∈ sc.hidden list →
      (sc.hideAll list).Holds tape (upper name) ref := by
  induction list generalizing sc with
  | nil => simp [Scopes.hidden]
  | cons p rest ih =>
    intro name ref hmem
    rcases mem_cons.1 hmem with heq | hmem
    · obtain ⟨rfl, hlocal⟩ := Prod.mk.inj heq
      exact (h.names _ sc.current_mem _ ref hlocal.symm).keep (.hideAll (p :: rest))
    · exact ih (h.hide (hlist p (by simp))) (fun q hq => hlist q (by simp [hq])) name ref hmem

theorem Named.regains {before : List (String × Option Ref)} (h : sc.Named tape)
    (hbefore : ∀ name ref, (name, some ref) ∈ before → sc.Holds tape (upper name) ref) :
    (before.foldl giveBack sc).Named tape := by
  induction before generalizing sc with
  | nil => exact h
  | cons item rest ih =>
    obtain ⟨g, hg⟩ := sc.giveBack_eq item
    refine ih ?_ fun name ref hmem => ?_
    · obtain ⟨name, found⟩ := item
      cases found with
      | some ref => exact h.bind (hbefore name ref (by simp))
      | none => exact h.forget name
    · have hholds := hbefore name ref (by simp [hmem])
      exact hholds.keep (.of_cells (by rw [hg, cells_mapCurrent]))

end Scopes

/-- **A run** keeps what names are called.  Inside a loan the names that are hidden keep their
cells. -/
theorem Run.named (h : Run tape level s es s') (hs : Sound tape s) (hnamed : s.scopes.Named tape) :
    s'.scopes.Named tape := by
  induction h with
  | nil => exact hnamed
  | step hlevel hfit _ ih =>
    exact ih (hs.apply hfit) ((Event.changes hs hfit (Level.isLoan_of_allows hlevel)).named hnamed)
  | branch _ henter first hleave _ ih₁ ih =>
    have hs₁ := first.sound (hs.apply henter)
    exact ih (hs₁.apply hleave) (ih₁ (hs.apply henter) hnamed)
  | branches _ henter first hturn second hleave _ ih₁ ih₂ ih =>
    have hs₁ := first.sound (hs.apply henter)
    have hs₂ := second.sound (hs₁.apply hturn)
    exact ih (hs₂.apply hleave) (ih₂ (hs₁.apply hturn) (ih₁ (hs.apply henter) hnamed))
  | @lending s s₁ s' list inner es _ hlend first hquiet hregain _ ih₁ ih =>
    have hs₁ := first.sound (hs.apply hlend)
    have hlost : (s.scopes.lose (list.map (·.name))).Named tape := ⟨hnamed.names, hnamed.shared⟩
    have hlent := hlost.hidden hlend.1
    rw [Scopes.hidden_lose] at hlent
    refine ih (hs₁.apply hregain)
      ((ih₁ (hs.apply hlend) (hlost.hideAll hlend.1)).regains fun name ref hmem => ?_)
    exact (hlent name ref hmem).keep (first.hush hquiet).keeps

/-! ### Declarations and parameters -/

/-- The line of every declaration declares a name for its key. -/
def Scopes.DeclaresKeys (tape : Tape) (sc : Scopes) : Prop :=
  ∀ ds ∈ sc.declarations, ∀ d ∈ ds, tape.Called d.key (declaredName d.text)

theorem Event.declaresKeys (hs : Sound tape s) (hfit : e.Fits tape s)
    (hkeys : s.scopes.DeclaresKeys tape) : (e.apply s).scopes.DeclaresKeys tape :=
  Event.forall_declarations hs hfit (by simp) (fun _ _ hcalled hcurrent =>
    forall_mem_append.2 ⟨hcurrent, by simpa using hcalled⟩) hkeys

/-- The parameters of procedures are called as the source calls them. -/
def State.TitledParameters (tape : Tape) (s : State) : Prop :=
  ∀ header ∈ s.headers, ∀ x ∈ header.parameters, ∃ key, tape.Titled key x

theorem Event.titledParameters (hfit : e.Fits tape s) (h : s.TitledParameters tape) :
    (e.apply s).TitledParameters tape := by
  rcases (e.owns s).headers with ⟨kind, name, jsName, parameters, token, rfl⟩ | hheaders
  · obtain ⟨-, -, -, -, -, -, hparameters, -⟩ := hfit
    exact forall_mem_cons.2 ⟨hparameters, h⟩
  · rwa [State.TitledParameters, hheaders]

/-! ### Where the events of a pass lead -/

namespace Visited

theorem named (h : Visited tape s) : s.scopes.Named tape := by
  induction h with
  | start collector => exact .start 0 1
  | run h hrun ih => exact hrun.named h.sound ih
  | enters _ _ ih | turns _ _ ih => exact ih

theorem declaresKeys (h : Visited tape s) : s.scopes.DeclaresKeys tape := by
  induction h with
  | start collector => simp [Scopes.DeclaresKeys, Scopes.declarations, Scopes.start]
  | run h hrun ih =>
    exact hrun.invariant_of_sound (I := fun s => s.scopes.DeclaresKeys tape)
      (fun hs hkeys hfit => Event.declaresKeys hs hfit hkeys) h.sound ih
  | enters _ _ ih | turns _ _ ih => exact ih

theorem parameters (h : Visited tape s) : s.TitledParameters tape := by
  induction h with
  | start collector => simp [State.TitledParameters]
  | run h hrun ih =>
    exact hrun.invariant (I := State.TitledParameters tape)
      (fun h hfit => Event.titledParameters hfit h) ih
  | enters _ hfit ih | turns _ hfit ih => exact Event.titledParameters hfit ih

end Visited

/-- A state of a pass: a statement can begin in it, or the pass is over. -/
inductive Observed (tokens : Array Token) (collector : Collector) (s : State) : Prop where
  | between {depth : Nat} (h : Between tokens collector depth s)
  | finished (h : pass tokens collector = .ok () s)

/-- The events of the pass lead to all of its states, but for the page. -/
theorem Observed.exists_visited {collector : Collector} (hread : (scan source).fault = none)
    (h : Observed (scan source).tokens.toArray collector s) :
    ∃ s₀ page, Visited (Tape.ofSource source hread) s₀ ∧ s = { s₀ with page } := by
  cases h with
  | between h =>
    have hbegun : Begun (Tape.ofSource source hread) _ s := .of_between h
    exact ⟨s, s.page, hbegun.visited, rfl⟩
  | finished h =>
    obtain ⟨last, hlast, rfl⟩ := exists_finished hread h
    obtain ⟨page, hhoisted⟩ := last.hoisted_eq
    obtain ⟨es, hrun⟩ := hlast.path
    exact ⟨last, page, (Visited.start collector).run hrun, hhoisted⟩

/-- What the end of the pass over a source shows, if the source is read and the pass comes to its
end. -/
def ending? {α : Type} (source : String) (read : State → α) : Option α :=
  match (scan source).fault, pass (scan source).tokens.toArray {} with
  | none, .ok _ s => some (read s)
  | _, _ => none

theorem pass_of_ending? {α : Type} {read : State → α} {a : α} (h : ending? source read = some a) :
    ∃ s, (scan source).fault = none ∧ pass (scan source).tokens.toArray {} = .ok () s ∧
      read s = a := by
  unfold ending? at h
  split at h
  case h_1 s hread hpass => exact ⟨s, hread, hpass, Option.some.inj h⟩
  case h_2 => cases h

/-! ### Everything that is declared -/

namespace State

/-- The JavaScript names of parameters, procedures, one-line functions and record types. -/
def titles (s : State) : List String :=
  s.headers.flatMap (·.parameters) ++
    (s.procedures.map (·.2.jsName) ++ (s.functions.map (·.2) ++ s.records.map (·.2.maker)))

/-- All JavaScript names that are declared: those of variables, those of the lines of declarations,
and the titles. -/
def declaredNames (s : State) : List String :=
  s.scopes.cells.toList.map (·.name) ++ (s.declaredTexts.map declaredName ++ s.titles)

end State

namespace Visited

variable {x : String}

theorem titled (h : Visited tape s) (hx : x ∈ s.titles) : ∃ key, tape.Titled key x := by
  have hs := h.sound
  simp only [State.titles, mem_append, mem_flatMap, mem_map] at hx
  rcases hx with ⟨header, hheader, hx⟩ | ⟨entry, hentry, rfl⟩ | ⟨entry, hentry, rfl⟩ |
    ⟨entry, hentry, rfl⟩
  · exact h.parameters header hheader x hx
  · exact ⟨_, hs.procedures entry hentry⟩
  · exact ⟨_, hs.functions entry hentry⟩
  · exact ⟨_, hs.records entry hentry⟩

/-- **Everything that is declared** is called as the source calls it. -/
theorem calls (h : Visited tape s) (hx : x ∈ s.declaredNames) : tape.Calls x := by
  simp only [State.declaredNames, State.declaredTexts, map_map, mem_append, mem_map,
    mem_flatten, Array.mem_toList_iff] at hx
  rcases hx with ⟨v, hv, rfl⟩ | ⟨d, ⟨ds, hds, hd⟩, rfl⟩ | hx
  · exact h.sound.cells v hv
  · exact ⟨_, h.declaresKeys ds hds d hd⟩
  · obtain ⟨key, htitled⟩ := h.titled hx
    exact ⟨key, htitled.called⟩

end Visited

end BasicScript
