import BasicScript.Fault
import BasicScript.Table
import BasicScript.Text.Case

/-!
# Scopes

QBasic has two levels of visibility: the module, and one level for each procedure.  A procedure sees
its own variables and the shared names, and no other variable of the module.  Names are the same
when their capital forms are.

A variable is kept in a cell, and tables hold references to cells: a shared name and the name in its
scope refer to one cell, so that a change of the variable shows under both.  A name can be shared
while it refers to no variable; the first sharing stands, so it is then shared without one.
-/

namespace BasicScript

/-- A variable: its JavaScript name and what is known of its type. -/
structure Variable where
  name : String
  isArray : Bool := false
  isText : Bool := false
  record : Option String := none
deriving Repr, DecidableEq

/-- What a scope belongs to.  `other` is a kind that compiling never gives. -/
inductive ScopeKind where
  | module
  | sub
  | function
  | other (name : String)
deriving Repr, DecidableEq

namespace ScopeKind

def name : ScopeKind → String
  | module => "global"
  | sub => "sub"
  | function => "function"
  | other name => name

def ofName (name : String) : ScopeKind :=
  if name = "global" then module
  else if name = "sub" then sub
  else if name = "function" then function
  else other name

end ScopeKind

/-- A reference to the cell of a variable. -/
abbrev Ref := Nat

/-- Where a declaration comes from. -/
inductive Origin where
  /-- A variable or a constant. -/
  | plain
  /-- An array that is used and was never declared. -/
  | array
  | result
  /-- A one-line function. -/
  | function
deriving Repr, DecidableEq

/-- A declaration in JavaScript: the capital form of the name, and the line, which stands at the top
of its scope or where the name is declared. -/
structure Declaration where
  key : String
  origin : Origin
  text : String
  atTop : Bool
deriving Repr, DecidableEq

/-- The names of a procedure or of the module.  The hoisted declarations belong at the place `mark`
of the page; `declared` are all declarations so far; `base` is how many blocks are open around a
statement directly in this scope; `start` is how many lines had been appended when it was opened. -/
structure Scope where
  kind : ScopeKind
  name : Option String
  mark : Int
  indent : Int
  names : Table Ref := []
  hoisted : List String := []
  declared : List Declaration := []
  base : Nat := 0
  start : Nat := 0
deriving Repr

/-- The top of a scope: its name, how many lines had been appended there, its depth, and the
declarations that belong there. -/
structure Top where
  name : Option String
  start : Nat
  indent : Int
  hoisted : List String
deriving Repr, DecidableEq

def Scope.top (scope : Scope) : Top :=
  { name := scope.name, start := scope.start, indent := scope.indent, hoisted := scope.hoisted }

/-- The open scopes, the innermost procedure first, with the cells of all variables, and the
declarations and the tops of the procedures that are over.  A shared name without a cell was shared
before it had a variable.  `strays` are shared names that the module does not know as they were
shared: those of a procedure that shared them first, and those that a one-line function took
away. -/
structure Scopes where
  cells : Array Variable := #[]
  inner : List Scope := []
  root : Scope
  shared : Table (Option Ref) := []
  closed : List (List Declaration) := []
  tops : List Top := []
  strays : List String := []
deriving Repr

namespace Scopes

/-- Only the module's scope. -/
def start (mark indent : Int) : Scopes :=
  { root := { kind := .module, name := none, mark := mark, indent := indent } }

/-- The scope of the statement at hand. -/
def current (s : Scopes) : Scope :=
  match s.inner with
  | [] => s.root
  | scope :: _ => scope

/-- Whether the module's scope is the only one. -/
def isModule (s : Scopes) : Bool := s.inner.isEmpty

def depth (s : Scopes) : Nat := s.inner.length + 1

def mapCurrent (s : Scopes) (f : Scope → Scope) : Scopes :=
  match s.inner with
  | [] => { s with root := f s.root }
  | scope :: rest => { s with inner := f scope :: rest }

def push (s : Scopes) (kind : ScopeKind) (name : Option String) (mark indent : Int) : Scopes :=
  { s with inner := { kind, name, mark, indent } :: s.inner }

/-- The innermost scope and the scopes without it; the module's scope stays. -/
def pop (s : Scopes) : Except Fault (Scope × Scopes) :=
  match s.inner with
  | [] => .error .moduleScope
  | scope :: rest =>
    .ok (scope,
      { s with
        inner := rest, closed := s.closed ++ [scope.declared], tops := s.tops ++ [scope.top] })

/-! ### Cells -/

def cell? (s : Scopes) (ref : Ref) : Option Variable := s.cells[ref]?

/-- A new cell with a variable, and its reference. -/
def allocate (s : Scopes) (v : Variable) : Ref × Scopes :=
  (s.cells.size, { s with cells := s.cells.push v })

/-- The scopes with the variable of a cell changed. -/
def modify (s : Scopes) (ref : Ref) (f : Variable → Variable) : Scopes :=
  { s with cells := s.cells.modify ref f }

/-! ### Names -/

/-- The reference of a name in the current scope alone. -/
def local? (s : Scopes) (name : String) : Option Ref :=
  s.current.names.get? (Text.upper name)

/-- The reference that a name has in the current scope: its own, or inside a procedure the shared
one. -/
def lookup? (s : Scopes) (name : String) : Option Ref :=
  match s.local? name with
  | some ref => some ref
  | none => if s.isModule then none else (s.shared.get? (Text.upper name)).join

/-- The variable that a name refers to. -/
def find? (s : Scopes) (name : String) : Option Variable :=
  (s.lookup? name).bind s.cell?

def visible (s : Scopes) (name : String) : Bool := (s.lookup? name).isSome

/-- The scopes with a name in the current scope bound to a cell. -/
def bind (s : Scopes) (name : String) (ref : Ref) : Scopes :=
  s.mapCurrent fun scope => { scope with names := scope.names.insert (Text.upper name) ref }

def forget (s : Scopes) (name : String) : Scopes :=
  s.mapCurrent fun scope => { scope with names := scope.names.erase (Text.upper name) }

/-- A name declared in the current scope, and its cell.  The first declaration stands; a later one
as an array makes an array of it. -/
def declare (s : Scopes) (name : String) (v : Variable) : Ref × Scopes :=
  match s.local? name with
  | some ref =>
    (ref, if v.isArray then s.modify ref ({ · with isArray := true }) else s)
  | none =>
    let (ref, s) := s.allocate v
    (ref, s.bind name ref)

/-- The scopes with a name shared with all procedures.  The first sharing stands, also one without
a cell. -/
def share (s : Scopes) (name : String) (ref : Option Ref) : Scopes :=
  let key := Text.upper name
  if s.shared.holds key then s
  else
    { s with
      shared := s.shared.insert key ref
      strays := if s.isModule then s.strays else key :: s.strays }

/-- The scopes with a name shared as what it refers to now. -/
def shareFound (s : Scopes) (name : String) : Scopes := s.share name (s.lookup? name)

/-- The scopes in front of parameters of a one-line function.  Of two parameters with one name, the
name is given back what the first of them was: a shared name of the module is lost that way. -/
def lose (s : Scopes) (names : List String) : Scopes :=
  let keys := names.map Text.upper
  let lost := keys.filter fun key => s.isModule && s.shared.holds key && 1 < keys.count key
  { s with strays := lost ++ s.strays }

/-- The scopes with a declaration for the top of the current one. -/
def hoist (s : Scopes) (declaration : String) : Scopes :=
  s.mapCurrent fun scope => { scope with hoisted := scope.hoisted ++ [declaration] }

/-- The scopes with a declaration noted in the current one. -/
def note (s : Scopes) (d : Declaration) : Scopes :=
  s.mapCurrent fun scope => { scope with declared := scope.declared ++ [d] }

end Scopes

end BasicScript
