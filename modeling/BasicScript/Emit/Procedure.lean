import BasicScript.Emit.TypeName
import BasicScript.Diagnostic.Suggestion

/-!
# Procedures

The headers of procedures and their calls as statements.
-/

namespace BasicScript.Emit

/-! ### Headers -/

/-- The procedure of a header.  One that was not announced is added. -/
def headerProcedure (kind : ProcedureKind) (name : String) (parameters : Nat) :
    Emit Procedure := do
  let key := Text.upper name
  match (← get).procedures.get? key with
  | some procedure => return procedure
  | none =>
    let procedure : Procedure := { name, jsName := Script.mangle name, kind, parameters }
    modify fun s => { s with procedures := s.procedures.insert key procedure }
    return procedure

def declareParameters : List Parameter → Emit Unit
  | [] => pure ()
  | p :: rest => do
    let _ ← declare p.name p.slot
    declareParameters rest

/-- Emits the first line of a procedure. -/
def openProcedure (name jsName : String) (list : List Parameter) : Emit Unit := do
  modify fun s => { s with headers := ⟨Text.upper name, list.map (·.slot.name)⟩ :: s.headers }
  openLine ("async function " ++ jsName ++ "(" ++ parameterNames list ++ ") \x7b")

/-- Opens the scope of a procedure at the end of the page. -/
def openScope (kind : ProcedureKind) (name : String) (form : BlockForm) (token : Token) :
    Emit Unit := do
  let page := (← get).page
  onScopes (·.push kind.scope (some name) page.mark page.indent)
  openBlock form token
  let base := (← get).blocks.length
  onScopes (·.mapCurrent fun scope => { scope with base, start := page.log.size })

/-- `SUB` and `FUNCTION`.  Every block that is still open ends here. -/
def procedureStatement (kind : ProcedureKind) (token : Token) : Emit Unit := do
  unless (← get).floors.isEmpty do
    rejectAt token (kind.word ++ " not allowed in a single-line IF") .syntactic []
  let name ← expectName "procedure name"
  let list ← parameters
  let isText := (typeOfName name.text (← typeSpec?)).isText
  let _ ← takeKeyword "STATIC"
  abandonAll
  let procedure ← headerProcedure kind name.text list.length
  openProcedure name.text procedure.jsName list
  match kind with
  | .sub =>
    openScope kind name.text .sub token
    declareParameters list
  | .function =>
    let result : Variable := { name := procedure.jsName ++ "_result", isText }
    openScope kind name.text (.function result.name) token
    declareParameters list
    let _ ← introduce name.text result .result ("let " ++ result.name ++ " = " ++
        initialOf result ++ ";") false

/-! ### Calls -/

/-- Whether the first parenthesis of some tokens, inside `depth` others, closes right in front of
the end of the statement. -/
def closesStatement (depth : Nat) : List Token → Bool
  | [] => false
  | token :: rest =>
    if token.endsLine then false
    else if token.isMark "(" then closesStatement (depth + 1) rest
    else if token.isMark ")" then
      if depth = 1 then rest.head?.any (·.endsStatement) else closesStatement (depth - 1) rest
    else closesStatement depth rest

/-- Whether the parenthesis under the cursor holds all arguments of the statement. -/
def holdsAllArguments : Emit Bool := do
  let tokens ← read
  let start := Sequence.bound tokens.size (← get).position
  return closesStatement 0 (tokens.extract start tokens.size).toList

/-- The arguments of a call statement, with or without parentheses. -/
def callArguments : Emit (List String) := do
  if ← atStatementEnd then return []
  if ← atMark "(" then
    if ← holdsAllArguments then return ← arguments
  commaList expression

def emitCall (jsName : String) (values : List String) : Emit Unit :=
  line ("await " ++ jsName ++ "(" ++ Text.commas values ++ ");")

/-- Emits a call of a procedure; a wrong number of arguments is reported. -/
def callProcedure (procedure : Procedure) (values : List String) (token : Token) : Emit Unit := do
  noteCall procedure values token
  emitCall procedure.jsName values

def procedureNames : Emit (List String) := do
  return (← get).procedures.values.map (·.name)

def callStatement : Emit Unit := do
  let token ← expectName "procedure name"
  let values ← callArguments
  match (← get).procedures.get? (Text.upper token.text) with
  | some procedure => callProcedure procedure values token
  | none =>
    report { severity := .error, category := .reference,
             message := "Unknown procedure '" ++ token.text ++ "'", line := token.line,
             column := token.column,
             suggestions := Suggestion.suggest token.text (← procedureNames) }
    emitCall (Script.mangle token.text) values

end BasicScript.Emit
