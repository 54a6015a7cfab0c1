import BasicScript.Emit.Jump

/-!
# Control flow

Conditions, loops and selections.  A statement that opens a block emits a line with an open brace
and puts the block on the stack; the closing statement takes it off and emits the brace.  A
single-line `IF` is closed by the end of its line.
-/

namespace BasicScript.Emit

/-! ### Conditions -/

/-- One turn of the loop over the statements of a branch of a single-line `IF`. -/
def inlineTurn (statement : Emit Bool) (_ : Unit) : Emit (Turn Unit Unit) := do
  if ← atLineEnd then return .done ()
  if ← atKeyword "ELSE" then return .done ()
  if ← takeMark ":" then return .again ()
  if ← statement then endStatement
  return .again ()

/-- The statements of one branch of a single-line `IF`, with colons between them.  A number is the
label of a jump. -/
def inlineBranch (statement : Emit Bool) : Emit Unit := do
  if ← atKind .number then emitGoto (← advance) else loop () (inlineTurn statement)

/-- The branches of a single-line `IF`.  However they end, the blocks inside them are ended and the
brace is closed. -/
def inlineBranches (statement : Emit Bool) : Emit Unit := do
  let floor := (← get).blocks.length
  modify fun s => { s with floors := floor :: s.floors }
  ensuring
    (do
      inlineBranch statement
      if ← takeKeyword "ELSE" then
        abandonAbove floor
        turnLine "\x7d else \x7b"
        inlineBranch statement)
    (do
      abandonAbove floor
      modify fun s => { s with floors := s.floors.drop 1 }
      closeLine "\x7d")

/-- The condition of an `IF`, up to its statements. -/
def ifCondition : Emit String := do
  let condition ← expression
  unless ← takeKeyword "THEN" do
    unless ← atKeyword "GOTO" do
      reportAt (← current) .syntactic "Expected THEN"
  return condition

/-- `IF`: a block if the line ends behind `THEN`, else a single line. -/
def ifStatement (statement : Emit Bool) (token : Token) : Emit Unit := do
  let condition ← ifCondition
  let isBlock ← atLineEnd
  openLine ("if (" ++ condition ++ ") \x7b")
  if isBlock then openBlock (.condition false) token else inlineBranches statement

def elseIfStatement (token : Token) : Emit Unit := do
  match ← topForm with
  | some (.condition hasElse) =>
    if hasElse then reportAt token .syntactic "ELSEIF after ELSE"
    let condition ← expression
    unless ← takeKeyword "THEN" do
      reportAt (← current) .syntactic "Expected THEN"
    turnLine ("\x7d else if (" ++ condition ++ ") \x7b")
  | _ => rejectAt token "ELSEIF without block IF" .syntactic []

/-- `ELSE` of a block. -/
def elseStatement (token : Token) : Emit Unit := do
  match ← topForm with
  | some (.condition hasElse) =>
    if hasElse then reportAt token .syntactic "Duplicate ELSE"
    setTopForm (.condition true)
    turnLine "\x7d else \x7b"
  | _ => rejectAt token "ELSE without IF" .syntactic []

/-! ### Loops -/

def forStatement (token : Token) : Emit Unit := do
  let name ← expectName "loop variable"
  let v ← match ← lookup name.text with
    | some v => pure v
    | none => implicitVariable name.text
  let _ ← expectOperator "="
  let start ← expression
  let _ ← expectKeyword "TO"
  let stop ← expression
  let step ← if ← takeKeyword "STEP" then expression else pure "1"
  openLine ("for (" ++ v.name ++ " = " ++ start ++ "; (" ++ step ++ " >= 0) ? " ++ v.name ++
    " <= " ++ stop ++ " : " ++ v.name ++ " >= " ++ stop ++ "; " ++ v.name ++ " += " ++ step ++
    ") \x7b")
  openBlock (.counting v.name) token

/-- Ends a `FOR` for each entry; a name must be that of the loop. -/
def endCounting (token : Token) : List (Option Token) → Emit Unit
  | [] => pure ()
  | name :: rest => do
    if let some block ← closeBlock .counting token then
      if let some name := name then
        let v ← lookup name.text
        unless v.map (fun v => BlockForm.counting v.name) = some block.form do
          reportAt name .syntactic "NEXT variable does not match FOR"
      finishBlock block
      endCounting token rest

def nextStatement (token : Token) : Emit Unit := do
  if ← atKind .identifier then
    let names ← commaList (expectName "loop variable")
    endCounting token (names.map some)
  else endCounting token [none]

/-- The condition behind `WHILE` or `UNTIL`, in parentheses. -/
def loopCondition? : Emit (Option String) := do
  if ← takeKeyword "WHILE" then return some ("(" ++ (← expression) ++ ")")
  if ← takeKeyword "UNTIL" then return some ("(!(" ++ (← expression) ++ "))")
  return none

def doStatement (token : Token) : Emit Unit := do
  match ← loopCondition? with
  | some condition =>
    openLine ("while " ++ condition ++ " \x7b")
    openBlock (.looping false) token
  | none =>
    openLine "do \x7b"
    openBlock (.looping true) token

/-- `LOOP`.  The condition may stand at one end of the loop only. -/
def loopStatement (token : Token) : Emit Unit := do
  let condition ← loopCondition?
  if let some block ← closeBlock .looping token then
    match block.form, condition with
    | .looping true, some condition => closeLine ("\x7d while " ++ condition ++ ";")
    | .looping false, some _ =>
      reportAt token .syntactic "LOOP condition after DO WHILE/UNTIL"
      finishBlock block
    | _, _ => finishBlock block

def whileStatement (token : Token) : Emit Unit := do
  openLine ("while (" ++ (← expression) ++ ") \x7b")
  openBlock .whileLoop token

/-! ### Selections -/

def selectStatement (token : Token) : Emit Unit := do
  let _ ← expectKeyword "CASE"
  let selector ← expression
  let value ← temporary "_select_"
  openLine "\x7b"
  line ("const " ++ value ++ " = " ++ selector ++ ";")
  openBlock (.selection value 0 false) token

/-- One test of a `CASE`: a comparison, a range or a value. -/
def caseTest (value : String) : Emit String := do
  let isForm ← takeKeyword "IS"
  let token ← current
  match if token.kind = .operator then comparison? token.text else none with
  | some sign =>
    let _ ← advance
    return value ++ " " ++ sign ++ " " ++ (← expression)
  | none =>
    if isForm then rejectHere "Expected relational operator after IS"
    let low ← expression
    if ← takeKeyword "TO" then
      let high ← expression
      return "(" ++ value ++ " >= " ++ low ++ " && " ++ value ++ " <= " ++ high ++ ")"
    return value ++ " === " ++ low

/-- The line of a case that is not the first closes the one before it. -/
def caseLine (cases : Nat) (test : Option String) : Emit Unit :=
  match test with
  | some test =>
    if cases = 0 then openLine ("if (" ++ test ++ ") \x7b")
    else turnLine ("\x7d else if (" ++ test ++ ") \x7b")
  | none => if cases = 0 then openLine "if (true) \x7b" else turnLine "\x7d else \x7b"

def caseStatement (token : Token) : Emit Unit := do
  match ← topForm with
  | some (.selection value cases hasElse) =>
    if hasElse then reportAt token .syntactic "CASE after CASE ELSE"
    if ← takeKeyword "ELSE" then
      caseLine cases none
      setTopForm (.selection value (cases + 1) true)
    else
      let tests ← commaList (caseTest value)
      caseLine cases (some (Text.joinWith " || " tests))
      setTopForm (.selection value (cases + 1) hasElse)
  | _ => rejectAt token "CASE without SELECT CASE" .syntactic []

/-! ### Ends -/

/-- A statement that closes a block and nothing else. -/
def closeStatement (kind : BlockKind) (token : Token) : Emit Unit := do
  if let some block ← closeBlock kind token then finishBlock block

def emitEnd : Emit Unit := do
  if (← scopes).isModule then line "return;" else line "throw \"END\";"

/-- `END`, alone or with what it ends. -/
def endKeyword (token : Token) : Emit Unit := do
  if ← takeKeyword "IF" then closeStatement .condition token
  else if ← takeKeyword "SELECT" then closeStatement .selection token
  else if ← takeKeyword "SUB" then closeStatement (.procedure .sub) token
  else if ← takeKeyword "FUNCTION" then closeStatement (.procedure .function) token
  else if ← takeKeyword "TYPE" then rejectAt token "END TYPE without TYPE" .syntactic []
  else if ← takeKeyword "DEF" then rejectAt token "END DEF without DEF" .syntactic []
  else
    unless ← atStatementEnd do
      let _ ← expression
    emitEnd

def systemStatement : Emit Unit := do
  unless ← atStatementEnd do
    let _ ← expression
  emitEnd

/-- The result of the function around a statement. -/
def currentResult : Emit String := do
  let results := (← get).blocks.filterMap fun block =>
    match block.form with
    | .function result => some result
    | _ => none
  return results.head?.getD absent

def exitLoop (kind : BlockKind) (token : Token) (message : String) : Emit Unit := do
  unless ← inside kind do reportAt token .syntactic message
  modify fun s => { s with exits := ⟨kind, s.page.log.size, s.blocks⟩ :: s.exits }
  line "break;"

def exitStatement : Emit Unit := do
  let token ← current
  if ← takeKeyword "FOR" then exitLoop .counting token "EXIT FOR not within FOR...NEXT"
  else if ← takeKeyword "DO" then exitLoop .looping token "EXIT DO not within DO...LOOP"
  else if ← takeKeyword "WHILE" then exitLoop .whileLoop token "EXIT WHILE not within WHILE...WEND"
  else if ← takeKeyword "SUB" then
    unless (← scopes).current.kind = .sub do
      reportAt token .syntactic "EXIT SUB not within SUB"
    line "return;"
  else if ← takeKeyword "FUNCTION" then
    if (← scopes).current.kind = .function then line ("return " ++ (← currentResult) ++ ";")
    else
      reportAt token .syntactic "EXIT FUNCTION not within FUNCTION"
      line "return;"
  else rejectHere "Expected FOR, DO, WHILE, SUB or FUNCTION after EXIT"

end BasicScript.Emit
