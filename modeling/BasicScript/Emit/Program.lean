import BasicScript.Emit.Announcement
import BasicScript.Emit.Verb
import BasicScript.Script.Target
import BasicScript.Vocabulary

/-!
# Programs

A program is its statements one after another.  A statement that is rejected is recorded, and the
pass goes on behind it.  Single-line `IF`s nest to any depth, as expressions do: there is no limit
of a host here.
-/

namespace BasicScript.Emit

/-! ### Statements -/

/-- A statement that begins with a keyword of no verb. -/
def strangeKeyword (token : Token) : Emit Bool := do
  if (← peek 1).isOperator "=" then
    rejectAt token ("Reserved word '" ++ token.text ++ "' cannot be used as a variable")
      .semantic []
  rejectHere ("Unexpected keyword '" ++ token.text ++ "'")

/-- A statement that begins with a name and is neither a label nor a call: an assignment. -/
def plainNameStatement (token following : Token) : Emit Bool := do
  if following.isOperator "=" || following.isMark "(" || following.isMark "." then
    assignment
    return true
  let vocabulary := Vocabulary.words ++ (← procedureNames)
  rejectAt token ("Unknown statement '" ++ token.text ++ "'") .reference
    (Suggestion.suggest token.text vocabulary)

/-- A statement that begins with a name: a label at the start of a line, a call, or an
assignment. -/
def nameStatement (token : Token) : Emit Bool := do
  let following ← peek 1
  if following.isMark ":" && (← atLineStart) then
    let _ ← advance
    let _ ← advance
    line ("// Label: " ++ token.text)
    return false
  match (← get).procedures.get? (Text.upper token.text) with
  | some procedure =>
    match procedure.kind with
    | .sub =>
      let _ ← advance
      let values ← callArguments
      callProcedure procedure values token
      return true
    | .function => plainNameStatement token following
  | none => plainNameStatement token following

/-- A statement, given the action for the statements inside it.  The answer says whether the end of
the statement must follow. -/
def statementOver (inner : Emit Bool) : Emit Bool := do
  let token ← current
  match token.kind with
  | .keyword =>
    match Verb.ofWord? token.text with
    | some verb =>
      let _ ← advance
      verb.run inner token
      return verb.needsEnd
    | none => strangeKeyword token
  | .identifier => nameStatement token
  | .number =>
    unless ← atLineStart do rejectHere ("Unexpected " ++ token.describe)
    let _ ← advance
    line ("// Line " ++ token.text)
    return false
  | _ => rejectHere ("Unexpected " ++ token.describe)

/-- A statement whose single-line `IF`s nest at most so deep. -/
def statementTo : Nat → Emit Bool
  | 0 => throw .stalled
  | depth + 1 => statementOver (statementTo depth)

/-- A statement.  There is a token for each level of nesting. -/
def statement : Emit Bool := do statementTo (← budget)

/-! ### Programs -/

def endedStatement : Emit Unit := do
  if ← statement then endStatement

/-- Behind a rejection the pass goes on where it can. -/
def recover (rejection : Rejection) : Emit Unit := do
  record rejection
  resume

/-- A statement with its end, rejected or not. -/
def guardedStatement : Emit Unit := rescuing endedStatement recover

/-- One turn of the loop over statements. -/
def statementTurn (_ : Unit) : Emit (Turn Unit Unit) := do
  let token ← current
  if token.kind = .endOfInput then return .done ()
  if token.kind = .newline || token.isMark ":" then
    let _ ← advance
    return .again ()
  guardedStatement
  return .again ()

/-- All statements, up to the end of the input. -/
def statements : Emit Unit := loop () statementTurn

/-- Puts the hoisted declarations of the module at its top. -/
def hoistModule : Emit Unit := do
  let root := (← scopes).root
  unless root.hoisted.isEmpty do
    onPage (·.insert root.mark root.hoisted root.indent)

def body : Emit Unit := do
  statements
  abandonAll
  hoistModule

/-- Writes the lines in front of the body.  The scope of the module begins behind them. -/
def openBody (target : Target) : Emit Unit :=
  modify fun s =>
    let page := { s.page.rawLines (target.preamble s.dataValues) with indent := 1 }
    { s with page, scopes := .start page.mark page.indent }

/-- Writes the lines behind the body. -/
def closeBody (target : Target) : Emit Unit :=
  onPage fun page => { page with indent := 0 }.rawLines target.postamble

/-- A whole program for a target. -/
def programFor (target : Target) : Emit Unit := do
  announce
  openBody target
  body
  closeBody target

/-- A program whose page has the body alone. -/
def program : Emit Unit := do
  announce
  body

end BasicScript.Emit

namespace BasicScript

/-- The pass over some tokens: its end state, or how it failed and the state in which it did. -/
def Emit.passFor (target : Target) (tokens : Array Token) (collector : Collector) :
    EStateM.Result Failure State Unit :=
  Emit.programFor target tokens { collector }

/-- The pass that writes the body alone. -/
def Emit.pass (tokens : Array Token) (collector : Collector) : EStateM.Result Failure State Unit :=
  Emit.program tokens { collector }

/-- The text of a program around the body that was written alone. -/
def State.code (s : State) (target : Target) : String :=
  target.program s.dataValues (s.page.render Script.indentUnit)

end BasicScript
