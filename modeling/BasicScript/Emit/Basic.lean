import BasicScript.Diagnostic.Collector
import BasicScript.Script.Page
import BasicScript.Scope
import BasicScript.Token

/-!
# Emitting a program

A program is compiled in one pass: an action reads tokens at a cursor, and appends lines to a page.
This module has the state of the pass and the type of its actions.

An action that fails leaves the state as it was when it failed: what was emitted, declared or
reported before stays.  A statement that is not accepted fails with a `Rejection`, after which the
pass goes on behind the statement; a `Fault` ends the pass.
-/

namespace BasicScript

/-- A statement that is not accepted, and where. -/
structure Rejection where
  message : String
  line : Int
  column : Int
  category : Category := .syntactic
  suggestions : List String := []
deriving Repr, DecidableEq

/-- The rejection with its place. -/
def Rejection.display (r : Rejection) : String :=
  r.message ++ " at line " ++ toString r.line ++ " col " ++ toString r.column

/-- The rejection as an error. -/
def Rejection.diagnostic (r : Rejection) : Diagnostic :=
  { severity := .error, category := r.category, message := r.message, line := r.line,
    column := r.column, suggestions := r.suggestions }

/-- Why an action failed. -/
inductive Failure where
  | rejected (rejection : Rejection)
  | fault (fault : Fault)
  /-- A loop took more turns than there are tokens. -/
  | stalled
deriving Repr, DecidableEq

/-! ### Blocks -/

inductive ProcedureKind where
  | sub
  | function
deriving Repr, DecidableEq

def ProcedureKind.word : ProcedureKind → String
  | sub => "SUB"
  | function => "FUNCTION"

def ProcedureKind.scope : ProcedureKind → ScopeKind
  | sub => .sub
  | function => .function

/-- The kinds of block, by what closes them. -/
inductive BlockKind where
  | condition
  | counting
  | looping
  | whileLoop
  | selection
  | procedure (kind : ProcedureKind)
deriving Repr, DecidableEq

namespace BlockKind

/-- The report on a block that was never closed. -/
def unclosed : BlockKind → String
  | condition => "Block IF without END IF"
  | counting => "FOR without NEXT"
  | looping => "DO without LOOP"
  | whileLoop => "WHILE without WEND"
  | selection => "SELECT CASE without END SELECT"
  | procedure .sub => "SUB without END SUB"
  | procedure .function => "FUNCTION without END FUNCTION"

/-- The report on a closing statement without its block. -/
def stray : BlockKind → String
  | condition => "END IF without block IF"
  | counting => "NEXT without FOR"
  | looping => "LOOP without DO"
  | whileLoop => "WEND without WHILE"
  | selection => "END SELECT without SELECT CASE"
  | procedure .sub => "END SUB without SUB"
  | procedure .function => "END FUNCTION without FUNCTION"

end BlockKind

/-- What is known of an open block. -/
inductive BlockForm where
  /-- `IF`, and whether its `ELSE` was seen. -/
  | condition (hasElse : Bool)
  /-- `FOR` over a variable. -/
  | counting (name : String)
  /-- `DO`, and whether the test stands behind the body. -/
  | looping (testsBehind : Bool)
  | whileLoop
  /-- `SELECT CASE` on a value, the number of cases so far, and whether `CASE ELSE` was seen. -/
  | selection (value : String) (cases : Nat) (hasElse : Bool)
  | sub
  /-- `FUNCTION`, with the variable of its result. -/
  | function (result : String)
deriving Repr, DecidableEq

def BlockForm.kind : BlockForm → BlockKind
  | condition _ => .condition
  | counting _ => .counting
  | looping _ => .looping
  | whileLoop => .whileLoop
  | selection _ _ _ => .selection
  | sub => .procedure .sub
  | function _ => .procedure .function

/-- An open block, with the place of its opening keyword. -/
structure Block where
  form : BlockForm
  line : Int
  column : Int
deriving Repr, DecidableEq

def Block.kind (block : Block) : BlockKind := block.form.kind

/-- A block that was taken off the stack, whether its own closing statement did so, and whether that
was inside a single-line `IF`. -/
structure Removal where
  block : Block
  closed : Bool
  inLine : Bool
deriving Repr, DecidableEq

/-- An `EXIT` from a loop: the kind of loop that it names, how many lines were appended in front of
its own, and the open blocks. -/
structure Exit where
  kind : BlockKind
  place : Nat
  blocks : List Block
deriving Repr, DecidableEq

/-! ### Procedures and record types -/

/-- A procedure of the program. -/
structure Procedure where
  name : String
  jsName : String
  kind : ProcedureKind
  parameters : Nat
deriving Repr, DecidableEq

/-- A procedure that was begun: the capital form of its name, and the parameters of its first
line. -/
structure Header where
  key : String
  parameters : List String
deriving Repr, DecidableEq

/-- A call of a procedure: the capital form of its name, and the arguments. -/
structure Call where
  key : String
  arguments : List String
deriving Repr, DecidableEq

/-- A type as far as it matters: text or number, or a record type by its key. -/
structure TypeSpec where
  isText : Bool := false
  record : Option String := none
deriving Repr, DecidableEq

/-- A record type: the function that makes one, and the types of its fields. -/
structure RecordType where
  maker : String
  fields : Table TypeSpec
deriving Repr

/-! ### The state -/

/-- The state of the pass.  Blocks and floors have the innermost first; a floor is the number of
blocks that were open in front of a single-line `IF`.  `dataPassed` are the `DATA` statements so
far: for each one, the place of the first token behind its keyword and the place of its end.
`headers` and `calls` are the procedures that were begun and the calls that were made, the latest
first.  So are `opened` and `removed`, the blocks that were opened and taken off, `exits`, the
`EXIT`s from loops, and `caught` and `recorded`, the rejections that were caught and those of them
that were reported. -/
structure State where
  position : Int := 0
  page : Script.Page := { indent := 1 }
  scopes : Scopes := .start 0 1
  blocks : List Block := []
  floors : List Nat := []
  dataValues : List String := []
  dataPassed : List (Int × Int) := []
  procedures : Table Procedure := []
  functions : Table String := []
  records : Table RecordType := []
  headers : List Header := []
  calls : List Call := []
  opened : List Block := []
  removed : List Removal := []
  exits : List Exit := []
  caught : List Rejection := []
  recorded : List Rejection := []
  temporaries : Nat := 0
  lastRejectedLine : Int := 0
  collector : Collector := {}
deriving Repr

/-- An action of the pass, over the tokens of the program. -/
abbrev Emit := ReaderT (Array Token) (EStateM Failure State)

namespace Emit

/-- Ends the pass. -/
def fail {α : Type} (fault : Fault) : Emit α := throw (.fault fault)

/-- Refuses a statement. -/
def reject {α : Type} (rejection : Rejection) : Emit α := throw (.rejected rejection)

/-- The result of a computation that may end the pass. -/
def ofExcept {α : Type} : Except Fault α → Emit α
  | .ok a => pure a
  | .error fault => fail fault

/-- An action, and another one behind it whether it fails or not. -/
def ensuring {α : Type} (action : Emit α) (after : Emit Unit) : Emit α :=
  fun tokens state =>
    match action tokens state with
    | .ok a state =>
      match after tokens state with
      | .ok _ state => .ok a state
      | .error failure state => .error failure state
    | .error failure state =>
      match after tokens state with
      | .ok _ state => .error failure state
      | .error failure state => .error failure state

/-- An action, and what is done in its stead once it was rejected. -/
def rescuing {α : Type} (action : Emit α) (instead : Rejection → Emit α) : Emit α :=
  fun tokens state =>
    match action tokens state with
    | .error (.rejected rejection) state =>
      instead rejection tokens { state with caught := rejection :: state.caught }
    | result => result

/-! ### Loops -/

/-- What a turn of a loop comes to. -/
inductive Turn (β α : Type) where
  | again (next : β)
  | done (result : α)

/-- At most `turns` turns of a loop. -/
def iterate {β α : Type} (turn : β → Emit (Turn β α)) : Nat → β → Emit α
  | 0, _ => throw .stalled
  | turns + 1, b => do
    match ← turn b with
    | .again next => iterate turn turns next
    | .done a => pure a

/-- One turn for each token, and one more: enough for a loop that uses up a token in every turn but
the last. -/
def budget : Emit Nat := do return (← read).size + 1

/-- A loop each of whose turns, the last one apart, uses up a token. -/
def loop {β α : Type} (start : β) (turn : β → Emit (Turn β α)) : Emit α := do
  iterate turn (← budget) start

end Emit

end BasicScript
