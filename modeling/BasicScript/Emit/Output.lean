import BasicScript.Emit.Cursor
import BasicScript.Script.Literal
import BasicScript.Script.Name

/-!
# Lines, blocks and names

What an action does to the page, to the stack of blocks and to the scopes.
-/

namespace BasicScript.Emit

open Script (Page)

/-! ### Lines -/

def onPage (f : Page → Page) : Emit Unit :=
  modify fun s => { s with page := f s.page }

def line (text : String) : Emit Unit := onPage (·.line text)

/-- Emits a line that opens a brace. -/
def openLine (text : String) : Emit Unit := onPage fun page => (page.line text).indentBy 1

/-- Emits a line that closes a brace. -/
def closeLine (text : String) : Emit Unit := onPage fun page => page.dedent.line text

/-- Emits a line that closes a brace and opens another. -/
def turnLine (text : String) : Emit Unit :=
  onPage fun page => (page.dedent.line text).indentBy 1

/-- A name that no other generated variable has. -/
def temporary (stem : String) : Emit String := do
  modify fun s => { s with temporaries := s.temporaries + 1 }
  return stem ++ toString (← get).temporaries

/-! ### Scopes -/

def scopes : Emit Scopes := do return (← get).scopes

def onScopes (f : Scopes → Scopes) : Emit Unit :=
  modify fun s => { s with scopes := f s.scopes }

def lookup (name : String) : Emit (Option Variable) := do return (← scopes).find? name

/-- Declares a name in the current scope. -/
def declare (name : String) (v : Variable) : Emit Ref := do
  let (ref, next) := (← scopes).declare name v
  modify fun s => { s with scopes := next }
  return ref

/-- Puts a declaration at the top of the current scope. -/
def hoist (declaration : String) : Emit Unit := onScopes (·.hoist declaration)

/-- The value of a variable before its first assignment. -/
def initialOf (v : Variable) : String :=
  if v.isArray then "[]"
  else if v.record.isSome then "\x7b\x7d"
  else if v.isText then "\"\""
  else "0"

/-- Whether a statement here stands directly in its scope, in no block and no single-line `IF`. -/
def atScopeBase : Emit Bool := do
  let s ← get
  return s.floors.isEmpty && s.blocks.length = s.scopes.current.base

/-- Writes a declaration, here or at the top of the current scope. -/
def writeDeclaration (d : Declaration) : Emit Unit := do
  onScopes (·.note d)
  if d.atTop then hoist d.text else line d.text

/-- Declares a name in the current scope, and writes its declaration. -/
def introduce (name : String) (v : Variable) (origin : Origin) (text : String) (atTop : Bool) :
    Emit Ref := do
  let ref ← declare name v
  writeDeclaration { key := Text.upper name, origin, text, atTop }
  return ref

/-- Declares a name with a value: here if this is the top level of the scope, else at its top, and
the value is assigned here. -/
def emitDeclaration (name : String) (v : Variable) (value : String) : Emit Ref := do
  if ← atScopeBase then
    introduce name v .plain ("let " ++ v.name ++ " = " ++ value ++ ";") false
  else
    let ref ← introduce name v .plain ("let " ++ v.name ++ " = " ++ initialOf v ++ ";") true
    line (v.name ++ " = " ++ value ++ ";")
    return ref

/-- Declares a plain variable at its first use. -/
def implicitVariable (name : String) : Emit Variable := do
  let v : Variable := { name := Script.identifier name, isText := Script.isTextName name }
  let _ ← introduce name v .plain ("let " ++ v.name ++ " = " ++ initialOf v ++ ";") true
  return v

/-- The bound of an array that was never declared, in each of its dimensions. -/
def implicitBound : String := "10"

/-- Declares an array at its first use. -/
def implicitArray (name : String) (dimensions : Nat) : Emit Variable := do
  let v : Variable :=
    { name := Script.identifier name, isArray := true, isText := Script.isTextName name }
  let initial := if v.isText then "\"\"" else "0"
  let bounds := Text.commas (List.replicate (max 1 dimensions) implicitBound)
  let _ ← introduce name v .array ("let " ++ v.name ++ " = _makeArray(" ++ initial ++
      ", " ++ bounds ++ ");") true
  return v

/-! ### Blocks -/

/-- Opens a block that a token begins. -/
def openBlock (form : BlockForm) (token : Token) : Emit Unit :=
  modify fun s =>
    let block : Block := ⟨form, token.line, token.column⟩
    { s with blocks := block :: s.blocks, opened := block :: s.opened }

/-- How many of the open blocks a statement here cannot reach: those around the procedure, and those
around the innermost single-line `IF`. -/
def blockFloor : Emit Nat := do
  let s ← get
  return max s.scopes.current.base (s.floors.head?.getD 0)

/-- The innermost block, if a statement here can reach it. -/
def topBlock : Emit (Option Block) := do
  let s ← get
  if (← blockFloor) < s.blocks.length then return s.blocks.head? else return none

/-- What is known of the innermost block, if a statement here can reach it. -/
def topForm : Emit (Option BlockForm) := do return (← topBlock).map (·.form)

/-- Changes what is known of the innermost block. -/
def setTopForm (form : BlockForm) : Emit Unit :=
  modify fun s =>
    match s.blocks with
    | [] => s
    | block :: rest => { s with blocks := { block with form } :: rest }

/-- Takes the innermost block off the stack, for its own closing statement or without one. -/
def dropBlock (closed : Bool) : Emit Unit :=
  modify fun s =>
    { s with
      blocks := s.blocks.drop 1
      removed := (s.blocks.take 1).map (Removal.mk · closed !s.floors.isEmpty) ++ s.removed }

/-- Ends the procedure whose block was just taken off: its result is returned, its hoisted
declarations go to its top, its scope is closed. -/
def finishProcedure (block : Block) : Emit Unit := do
  let scope := (← scopes).current
  match block.form with
  | .function result => line ("return " ++ result ++ ";")
  | _ => pure ()
  unless scope.hoisted.isEmpty do
    onPage (·.insert scope.mark scope.hoisted scope.indent)
  let (_, rest) ← ofExcept (← scopes).pop
  onScopes fun _ => rest
  closeLine "\x7d"

/-- Ends a block that was just taken off, without its closing statement. -/
def finishBlock (block : Block) : Emit Unit := do
  match block.form with
  | .sub | .function _ => finishProcedure block
  | .selection _ cases _ =>
    if 0 < cases then closeLine "\x7d"
    closeLine "\x7d"
  | .looping true => closeLine "\x7d while (true);"
  | _ => closeLine "\x7d"

/-- Reports the innermost `count` blocks as never closed, and ends them. -/
def abandonBlocks : Nat → Emit Unit
  | 0 => pure ()
  | count + 1 => do
    match (← get).blocks.head? with
    | none => pure ()
    | some block =>
      report { severity := .error, category := .syntactic, message := block.kind.unclosed,
               line := block.line, column := block.column }
      dropBlock false
      finishBlock block
      abandonBlocks count

def abandonAll : Emit Unit := do abandonBlocks (← get).blocks.length

def abandonAbove (floor : Nat) : Emit Unit := do
  abandonBlocks ((← get).blocks.length - floor)

/-- Takes the innermost block of a kind off the stack, for its closing statement at a token.  Blocks
inside it that are still open are reported and ended.  Without such a block the token is
reported. -/
def closeBlock (kind : BlockKind) (closer : Token) : Emit (Option Block) := do
  let s ← get
  let floor ← match kind with
    | .procedure _ => pure (s.scopes.current.base - 1)
    | _ => blockFloor
  match (s.blocks.take (s.blocks.length - floor)).findIdx? (·.kind = kind) with
  | none =>
    reportAt closer .syntactic kind.stray
    return none
  | some inside =>
    abandonBlocks inside
    let block := (← get).blocks.head?
    dropBlock true
    return block

/-- Whether a statement here stands in a block of a kind, inside the same procedure. -/
def inside (kind : BlockKind) : Emit Bool := do
  let s ← get
  return (s.blocks.take (s.blocks.length - s.scopes.current.base)).any (·.kind = kind)

/-! ### The end of a statement -/

/-- Refuses anything but the end of the statement.  `ELSE` ends a statement of a single-line
`IF`. -/
def endStatement : Emit Unit := do
  let token ← current
  let inLine := !(← get).floors.isEmpty
  unless token.endsLine || token.isMark ":" || (inLine && token.isKeyword "ELSE") do
    rejectHere ("Expected end of statement, found " ++ token.describe)

end BasicScript.Emit
