import BasicScript.Scope

/-!
# Scopes and their declarations

What a change of the current scope leaves alone, and how the declarations of a scope go with its
names.

Scopes are **coherent** (`Scopes.Coherent`) if every name refers to a cell, every declaration is of
a name that its scope has, and the places of the scopes are counted from the front of the page;
one-line functions are no names of a scope and stand apart.  A scope is **steady** towards a later
state of it (`Scope.Steady`) if in between names came only by declarations: a name that it had
without a declaration has none later, and a name that it gained has one.
-/

namespace BasicScript

open Text List

/-! ### Tables -/

section Tables

variable {α : Type} {table : Table α} {key key' : String} {value : α}

theorem mem_insert {entry : String × α} (h : entry ∈ Table.insert key value table) :
    entry = (key, value) ∨ entry ∈ table := by
  induction table with
  | nil => simpa [Table.insert] using h
  | cons first rest ih =>
    obtain ⟨k, v⟩ := first
    simp only [Table.insert] at h
    split at h <;> simp only [mem_cons] at h ⊢ <;> grind

theorem Table.get?_insert (key key' : String) (value : α) (table : Table α) :
    (Table.insert key value table).get? key' = if key' =
      key then some value else table.get? key' := by
  induction table with
  | nil => simp only [Table.insert, Table.get?, lookup_cons, lookup_nil]; grind
  | cons entry rest ih =>
    obtain ⟨k, v⟩ := entry
    simp only [Table.get?] at ih
    simp only [Table.insert]
    split <;> simp only [Table.get?, lookup_cons] <;> grind

theorem Table.get?_erase (table : Table α) (key key' : String) :
    (table.erase key).get? key' = if key' = key then none else table.get? key' := by
  induction table with
  | nil => simp [Table.erase, Table.get?]
  | cons entry rest ih =>
    obtain ⟨k, v⟩ := entry
    simp only [Table.get?, Table.erase] at ih
    simp only [Table.erase, Table.get?, filter_cons]
    split <;> simp only [lookup_cons] <;> grind

theorem insert_ne_nil (key : String) (value : α) (table : Table α) :
    Table.insert key value table ≠ [] := by
  unfold Table.insert
  split
  · simp
  · split <;> simp

theorem holds_insert (h : table.holds key' = true) :
    (Table.insert key value table).holds key' = true := by
  rw [Table.holds, Table.get?_insert]
  split
  · rfl
  · exact h

end Tables

/-! ### The current scope -/

namespace Scopes

variable {sc : Scopes} {name other : String} {v : Variable}

theorem current_mem (sc : Scopes) : sc.current ∈ sc.root :: sc.inner := by
  unfold current
  split <;> simp [*]

section MapCurrent

variable (f : Scope → Scope)

@[simp] theorem current_mapCurrent : (sc.mapCurrent f).current = f sc.current := by
  unfold mapCurrent current
  cases sc.inner <;> rfl

@[simp] theorem isModule_mapCurrent : (sc.mapCurrent f).isModule = sc.isModule := by
  unfold mapCurrent isModule
  cases sc.inner <;> rfl

@[simp] theorem shared_mapCurrent : (sc.mapCurrent f).shared = sc.shared := by
  unfold mapCurrent
  split <;> rfl

@[simp] theorem cells_mapCurrent : (sc.mapCurrent f).cells = sc.cells := by
  unfold mapCurrent
  split <;> rfl

@[simp] theorem cell?_mapCurrent : (sc.mapCurrent f).cell? = sc.cell? := by
  unfold mapCurrent
  split <;> rfl

@[simp] theorem closed_mapCurrent : (sc.mapCurrent f).closed = sc.closed := by
  unfold mapCurrent
  split <;> rfl

@[simp] theorem tops_mapCurrent : (sc.mapCurrent f).tops = sc.tops := by
  unfold mapCurrent
  split <;> rfl

variable {f}

/-- What holds of all scopes still does if the change of the current one keeps it. -/
theorem forall_mapCurrent {P : Scope → Prop} (h : ∀ scope ∈ sc.root :: sc.inner, P scope)
    (hf : P sc.current → P (f sc.current)) :
    ∀ scope ∈ (sc.mapCurrent f).root :: (sc.mapCurrent f).inner, P scope := by
  have hcurrent := hf (h _ sc.current_mem)
  revert hcurrent
  unfold mapCurrent current
  split <;> simp_all

end MapCurrent

/-! ### Names -/

/-- Names are the same when their capital forms are. -/
theorem lookup?_congr (h : upper name = upper other) : sc.lookup? name = sc.lookup? other := by
  simp only [lookup?, local?, h]

theorem find?_congr (h : upper name = upper other) : sc.find? name = sc.find? other := by
  rw [find?, lookup?_congr h, find?]

theorem local?_eq_none_iff :
    sc.local? name = none ↔ sc.current.names.holds (upper name) = false := by
  rw [local?, Table.holds, Option.isSome_eq_false_iff, Option.isNone_iff_eq_none]

/-- A name that is new in its scope gets a new cell. -/
theorem declare_of_local? (h : sc.local? name = none) (v : Variable) :
    (sc.declare name v).2 = { sc with cells := sc.cells.push v }.bind name sc.cells.size := by
  rw [declare, h]
  rfl

theorem local?_declare (h : sc.local? name = none) (v : Variable) (other : String) :
    (sc.declare name v).2.local? other =
      if upper other = upper name then some sc.cells.size else sc.local? other := by
  rw [declare_of_local? h, local?, bind, current_mapCurrent]
  exact Table.get?_insert ..

/-- A declaration of a name that its scope has already changes at most the variable in its cell. -/
theorem declare_of_some {ref : Ref} (h : sc.local? name = some ref) (v : Variable) :
    (sc.declare name v).2 = if v.isArray then sc.modify ref
    ({ · with isArray := true }) else sc := by
  rw [declare, h]

theorem local?_declare_self (sc : Scopes) (name : String) (v : Variable) :
    (sc.declare name v).2.local? name = some (sc.declare name v).1 := by
  cases h : sc.local? name with
  | none =>
    rw [local?_declare h, if_pos rfl, declare, h]
    rfl
  | some ref =>
    have hkept : (sc.declare name v).2.local? name = sc.local? name := by
      rw [declare_of_some h]
      split <;> rfl
    rw [hkept, h, declare, h]

theorem lookup?_of_local? {ref : Ref} (h : sc.local? name = some ref) :
    sc.lookup? name = some ref := by
  rw [lookup?, h]

@[simp] theorem declared_bind (sc : Scopes) (name : String) (ref : Ref) :
    (sc.bind name ref).current.declared = sc.current.declared := by
  rw [bind, current_mapCurrent]

theorem names_bind (sc : Scopes) (name : String) (ref : Ref) :
    (sc.bind name ref).current.names = sc.current.names.insert (upper name) ref := by
  rw [bind, current_mapCurrent]

@[simp] theorem declared_declare (sc : Scopes) (name : String) (v : Variable) :
    (sc.declare name v).2.current.declared = sc.current.declared := by
  cases h : sc.local? name with
  | none =>
    rw [declare_of_local? h, declared_bind]
    rfl
  | some ref =>
    rw [declare_of_some h]
    split <;> rfl

/-- Declaring a name touches nothing of the current scope but its map. -/
theorem current_declare (sc : Scopes) (name : String) (v : Variable) :
    ∃ names, (sc.declare name v).2.current = { sc.current with names } := by
  cases h : sc.local? name with
  | none =>
    rw [declare_of_local? h, bind, current_mapCurrent]
    exact ⟨_, rfl⟩
  | some ref =>
    rw [declare_of_some h]
    split <;> exact ⟨_, rfl⟩

theorem isModule_declare (sc : Scopes) (name : String) (v : Variable) :
    (sc.declare name v).2.isModule = sc.isModule := by
  cases h : sc.local? name with
  | none =>
    rw [declare_of_local? h, bind, isModule_mapCurrent]
    rfl
  | some ref =>
    rw [declare_of_some h]
    split <;> rfl

theorem cells_declare (sc : Scopes) (name : String) (v : Variable) :
    sc.cells.size ≤ (sc.declare name v).2.cells.size := by
  cases h : sc.local? name with
  | none => simp [declare_of_local? h, bind]
  | some ref =>
    rw [declare_of_some h]
    split <;> simp [modify]

/-- A declaration leaves the names of the scope as they were, its own apart. -/
theorem holds_declare (sc : Scopes) (name : String) (v : Variable) (key : String) :
    (sc.declare name v).2.current.names.holds key = true ↔
      key = upper name ∨ sc.current.names.holds key = true := by
  cases h : sc.local? name with
  | none =>
    rw [declare_of_local? h, names_bind, Table.holds, Table.get?_insert]
    split
    · simp [*]
    · simp only [*, false_or]
      rfl
  | some ref =>
    have hname : sc.current.names.holds (upper name) = true := by
      rw [Table.holds]
      exact Option.isSome_iff_exists.2 ⟨ref, h⟩
    have hnames : (sc.declare name v).2.current.names = sc.current.names := by
      rw [declare_of_some h]
      split <;> rfl
    rw [hnames]
    refine ⟨.inr, ?_⟩
    rintro (rfl | hkey)
    · exact hname
    · exact hkey

end Scopes

/-! ### Declarations -/

namespace Scope

/-- Whether a scope has a declaration of a name, one-line functions apart. -/
def Declares (scope : Scope) (key : String) : Prop :=
  ∃ d ∈ scope.declared, d.key = key ∧ d.origin ≠ .function

/-- When a name may be declared.  A plain name is not bound in its scope.  An array was not bound
when its indices began, so it is bound now only if they declared it. -/
def Admits (scope : Scope) (d : Declaration) : Prop :=
  match d.origin with
  | .plain => scope.names.holds d.key = false
  | .array => scope.names.holds d.key = false ∨ scope.Declares d.key
  | .result => scope.declared = [] ∧ d.atTop = false
  | .function => False

/-- The names of a scope refer to cells, its declarations are of names that it has, and its place is
counted from the front. -/
structure Coherent (cells : Nat) (scope : Scope) : Prop where
  refs : ∀ key ref, scope.names.get? key = some ref → ref < cells
  bound : ∀ key, scope.Declares key → scope.names.holds key = true
  mark : 0 ≤ scope.mark

theorem coherent_of_nil {scope : Scope} (cells : Nat) (hnames : scope.names = [])
    (hdeclared : scope.declared = []) (hmark : 0 ≤ scope.mark) : scope.Coherent cells := by
  refine ⟨?_, ?_, hmark⟩
  · intro key ref href
    rw [hnames] at href
    cases href
  · rintro key ⟨d, hd, -⟩
    rw [hdeclared] at hd
    cases hd

theorem declares_append {scope : Scope} {d : Declaration} {key : String} :
    { scope with declared := scope.declared ++ [d] }.Declares key ↔
      scope.Declares key ∨ d.key = key ∧ d.origin ≠ .function := by
  simp [Declares, or_and_right, exists_or]

/-- From a scope to a later state of it, with only declarations in between. -/
structure Steady (scope scope' : Scope) : Prop where
  holds : ∀ key, scope.names.holds key = true → scope'.names.holds key = true
  declares : ∀ key, scope.Declares key → scope'.Declares key
  keeps : ∀ key, scope.names.holds key = true → scope'.Declares key → scope.Declares key
  gains : ∀ key, scope.names.holds key = false → scope'.names.holds key = true → scope'.Declares key

namespace Steady

variable {scope scope' scope₁ : Scope}

theorem of_eq (hnames : scope'.names = scope.names) (hdeclared : scope'.declared = scope.declared) :
    scope.Steady scope' where
  holds key h := hnames ▸ h
  declares key h := by rwa [Declares, hdeclared]
  keeps key _ h := by rwa [Declares, hdeclared] at h
  gains key h h' := by rw [hnames, h] at h'; cases h'

theorem refl (scope : Scope) : scope.Steady scope := of_eq rfl rfl

theorem trans (h : scope.Steady scope₁) (h' : scope₁.Steady scope') : scope.Steady scope' where
  holds key hkey := h'.holds key (h.holds key hkey)
  declares key hkey := h'.declares key (h.declares key hkey)
  keeps key hkey hdeclares := h.keeps key hkey (h'.keeps key (h.holds key hkey) hdeclares)
  gains key hkey hkey' := by
    cases h₁ : scope₁.names.holds key with
    | true => exact h'.declares key (h.gains key hkey h₁)
    | false => exact h'.gains key h₁ hkey'

end Steady

end Scope

/-- The scopes are coherent, each by itself. -/
def Scopes.Coherent (sc : Scopes) : Prop :=
  ∀ scope ∈ sc.root :: sc.inner, scope.Coherent sc.cells.size

namespace Scopes.Coherent

variable {sc : Scopes} {name : String} {v : Variable} {d : Declaration}

variable (h : sc.Coherent)

include h

theorem current : sc.current.Coherent sc.cells.size := h _ sc.current_mem

/-- A name without a variable is not in its scope. -/
theorem local?_eq_none (hnone : sc.find? name = none) : sc.local? name = none := by
  cases hlocal : sc.local? name with
  | none => rfl
  | some ref =>
    have hlt : ref < sc.cells.size := h.current.refs _ ref hlocal
    simp [find?, lookup?, hlocal, cell?, hlt] at hnone

theorem of_cells {cells : Array Variable} (hsize : sc.cells.size ≤ cells.size) :
    { sc with cells }.Coherent := fun scope hscope =>
  { h scope hscope with
    refs := fun key ref href => Nat.lt_of_lt_of_le ((h scope hscope).refs key ref href) hsize }

theorem mapCurrent {f : Scope → Scope}
    (hf : sc.current.Coherent sc.cells.size → (f sc.current).Coherent sc.cells.size) :
    (sc.mapCurrent f).Coherent := by
  unfold Scopes.Coherent
  rw [cells_mapCurrent]
  exact forall_mapCurrent h hf

theorem modify (ref : Ref) (f : Variable → Variable) : (sc.modify ref f).Coherent :=
  h.of_cells (by simp)

theorem bind {ref : Ref} (href : ref < sc.cells.size) : (sc.bind name ref).Coherent := by
  refine h.mapCurrent fun hscope =>
    ⟨fun key ref' hkey => ?_, fun key hkey => holds_insert (hscope.bound key hkey), hscope.mark⟩
  rw [Table.get?_insert] at hkey
  split at hkey
  · cases hkey
    exact href
  · exact hscope.refs key ref' hkey

theorem allocate (v : Variable) : (sc.allocate v).2.Coherent := h.of_cells (by simp)

theorem declare (name : String) (v : Variable) : (sc.declare name v).2.Coherent := by
  cases hlocal : sc.local? name with
  | none =>
    rw [declare_of_local? hlocal]
    exact Coherent.bind (h.allocate v) (by simp [Scopes.allocate])
  | some ref =>
    rw [declare_of_some hlocal]
    split
    · exact h.modify ref _
    · exact h

/-- Only a name without a declaration may be forgotten. -/
theorem forget (hname : ¬sc.current.Declares (upper name)) : (sc.forget name).Coherent := by
  refine h.mapCurrent fun hscope => ⟨fun key ref hkey => ?_, fun key hkey => ?_, hscope.mark⟩
  · rw [Table.get?_erase] at hkey
    split at hkey
    · cases hkey
    · exact hscope.refs key ref hkey
  · have hkey' : sc.current.Declares key := hkey
    rw [Table.holds, Table.get?_erase, if_neg]
    · exact hscope.bound key hkey'
    · rintro rfl
      exact hname hkey'

theorem note (hd : d.origin ≠ .function → sc.current.names.holds d.key = true) :
    (sc.note d).Coherent := by
  refine h.mapCurrent fun hscope => ⟨hscope.refs, fun key hkey => ?_, hscope.mark⟩
  rcases Scope.declares_append.1 hkey with hkey | ⟨rfl, horigin⟩
  · exact hscope.bound key hkey
  · exact hd horigin

theorem hoist (text : String) : (sc.hoist text).Coherent :=
  h.mapCurrent fun hscope => ⟨hscope.refs, hscope.bound, hscope.mark⟩

theorem share (ref : Option Ref) : (sc.share name ref).Coherent := by
  unfold Scopes.share
  dsimp only
  split <;> exact h

end Scopes.Coherent

/-! ### Admitted declarations -/

namespace Scope.Admits

variable {scope : Scope} {d : Declaration}

/-- A declaration that is admitted is of a new name, or repeats one, or is the first of all. -/
theorem cases (h : scope.Admits d) :
    scope.names.holds d.key = false ∨ d.origin = .array ∧ scope.Declares d.key ∨
      scope.declared = [] ∧ d.atTop = false := by
  unfold Admits at h
  split at h
  · exact .inl h
  · exact h.imp_right fun h => .inl ⟨‹_›, h⟩
  · exact .inr (.inr h)
  · cases h

theorem origin (h : scope.Admits d) : d.origin ≠ .function := by
  intro horigin
  rw [Admits, horigin] at h
  exact h

end Scope.Admits

namespace Scopes

variable {sc : Scopes} {name : String} {d : Declaration}

/-- A declaration at the top that is admitted keeps the scope steady. -/
theorem steady_introduce (hkey : d.key = upper name) (hadmits : sc.current.Admits d)
    (htop : d.atTop = true) (v : Variable) :
    sc.current.Steady ((sc.declare name v).2.note d).current := by
  have hholds (key : String) : ((sc.declare name v).2.note d).current.names.holds key = true ↔
      key = d.key ∨ sc.current.names.holds key = true := by
    rw [note, current_mapCurrent, hkey]
    exact holds_declare ..
  have hdeclares (key : String) : ((sc.declare name v).2.note d).current.Declares key ↔
      sc.current.Declares key ∨ d.key = key := by
    rw [note, current_mapCurrent, Scope.declares_append, and_iff_left hadmits.origin,
      Scope.Declares, declared_declare]
    rfl
  constructor
  · exact fun key h => (hholds key).2 (.inr h)
  · exact fun key h => (hdeclares key).2 (.inl h)
  · intro key h h'
    rcases (hdeclares key).1 h' with h' | rfl
    · exact h'
    · rcases hadmits.cases with hnew | ⟨-, hdeclared⟩ | ⟨-, hhere⟩
      · rw [h] at hnew
        cases hnew
      · exact hdeclared
      · rw [htop] at hhere
        cases hhere
  · intro key h h'
    rcases (hholds key).1 h' with rfl | h'
    · exact (hdeclares _).2 (.inr rfl)
    · rw [h] at h'
      cases h'

end Scopes

end BasicScript
