import BasicScript.Emit.Basic

/-!
# The cursor

Looking at the token under the cursor and moving on.  The cursor never moves beyond the end of the
input.
-/

namespace BasicScript.Emit

/-- The token under the cursor. -/
def current : Emit Token := do
  match Sequence.at? (← read) (← get).position with
  | some token => pure token
  | none => fail .position

/-- The token `offset` places ahead, at most the last one. -/
def peek (offset : Int) : Emit Token := do
  let tokens ← read
  let place := (← get).position + offset
  let place := if (tokens.size : Int) ≤ place then (tokens.size : Int) - 1 else place
  match Sequence.at? tokens place with
  | some token => pure token
  | none => fail .position

/-- The token in front of the cursor; there is none in front of the first. -/
def previous : Emit (Option Token) := do
  let position := (← get).position
  if position = 0 then return none
  match Sequence.at? (← read) (position - 1) with
  | some token => return some token
  | none => fail .position

/-- Moves behind the token under the cursor, and returns it.  The end of the input is not passed. -/
def advance : Emit Token := do
  let token ← current
  if token.kind ≠ .endOfInput then
    modify fun s => { s with position := s.position + 1 }
  return token

/-! ### Tests -/

def atEnd : Emit Bool := do return (← current).kind = .endOfInput

def atKind (kind : Kind) : Emit Bool := do return (← current).kind = kind

def atKeyword (word : String) : Emit Bool := do return (← current).isKeyword word

def atMark (mark : String) : Emit Bool := do return (← current).isMark mark

/-- Whether the token is a name or keyword with the capital form `word`. -/
def atWord (word : String) : Emit Bool := do
  let token ← current
  return token.isWord && Text.upper token.text = word

def atLabel : Emit Bool := do return (← current).isLabel

def atLineEnd : Emit Bool := do return (← current).endsLine

/-- Whether the cursor is at the start of a line. -/
def atLineStart : Emit Bool := do
  match ← previous with
  | none => return true
  | some token => return token.kind = .newline

def atStatementEnd : Emit Bool := do return (← current).endsStatement

/-- Whether an optional argument is left out here. -/
def atGap : Emit Bool := do
  let token ← current
  return token.isMark "," || token.endsStatement

/-! ### Taking a token if it is there -/

/-- Moves on if the token passes a test, and says whether it did. -/
def take (test : Token → Bool) : Emit Bool := do
  if test (← current) then
    let _ ← advance
    return true
  return false

def takeKeyword (word : String) : Emit Bool := take (·.isKeyword word)

def takeOperator (sign : String) : Emit Bool := take (·.isOperator sign)

def takeMark (mark : String) : Emit Bool := take (·.isMark mark)

/-! ### Rejections and reports -/

/-- Refuses the statement, at the token under the cursor. -/
def rejectHere {α : Type} (message : String) : Emit α := do
  let token ← current
  reject { message, line := token.line, column := token.column }

/-- Refuses the statement, at a token. -/
def rejectAt {α : Type} (token : Token) (message : String) (category : Category)
    (suggestions : List String) : Emit α :=
  reject { message, line := token.line, column := token.column, category, suggestions }

def report (d : Diagnostic) : Emit Unit :=
  modify fun s => { s with collector := s.collector.add d }

def reportAt (token : Token) (category : Category) (message : String) : Emit Unit :=
  report { severity := .error, category, message, line := token.line, column := token.column }

def warnAt (token : Token) (message : String) : Emit Unit :=
  report { severity := .warning, category := .semantic, message, line := token.line,
           column := token.column }

/-- Reports a rejection as an error.  Of several on one line, the first is reported: the rest are
mostly fallout. -/
def record (r : Rejection) : Emit Unit := do
  if r.line ≠ (← get).lastRejectedLine then
    modify fun s => { s with lastRejectedLine := r.line, recorded := r :: s.recorded }
    report r.diagnostic

/-! ### Tokens that must be there -/

/-- Moves behind a token that must pass a test. -/
def expect (test : Token → Bool) (what : String) : Emit Token := do
  let token ← current
  if test token then advance
  else rejectHere ("Expected " ++ what ++ ", found " ++ token.describe)

def expectKeyword (word : String) : Emit Token := expect (·.isKeyword word) word

def expectOperator (sign : String) : Emit Token := expect (·.isOperator sign) ("'" ++ sign ++ "'")

def expectMark (mark : String) : Emit Token := expect (·.isMark mark) ("'" ++ mark ++ "'")

/-- Moves behind a name that must be there.  A reserved word is no name. -/
def expectName (what : String) : Emit Token := do
  let token ← current
  match token.kind with
  | .identifier => advance
  | .keyword =>
    rejectAt token ("Reserved word '" ++ token.text ++ "' cannot be used as " ++ what) .semantic []
  | _ => rejectHere ("Expected " ++ what ++ ", found " ++ token.describe)

/-! ### Skipping -/

/-- Moves on while a test on the token under the cursor holds. -/
def skipWhile (test : Token → Bool) : Emit Unit :=
  loop () fun _ => do
    if test (← current) then
      let _ ← advance
      return .again ()
    return .done ()

/-- Moves to the end of the statement. -/
def skipStatement : Emit Unit :=
  skipWhile fun token => !token.endsStatement

/-- Moves to an operator, a punctuation mark or the end of the statement. -/
def skipToOperator : Emit Unit :=
  skipWhile fun token =>
    !token.endsStatement && token.kind ≠ .operator && token.kind ≠ .punctuation

/-- Moves behind the parenthesis that closes one already passed. -/
def skipParentheses : Emit Unit :=
  loop 1 fun (depth : Nat) => do
    let token ← current
    if token.kind = .endOfInput || depth = 0 then return .done ()
    let _ ← advance
    if token.isMark "(" then return .again (depth + 1)
    if token.isMark ")" then return .again (depth - 1)
    return .again depth

/-- Moves to where the pass can go on after a rejection: behind the end of the line, or at the next
keyword. -/
def resume : Emit Unit := do
  let _ ← advance
  loop () fun _ => do
    if ← atEnd then return .done ()
    let front ← previous
    if front.any (·.kind = .newline) then return .done ()
    if ← atKind .keyword then return .done ()
    let _ ← advance
    return .again ()

/-! ### Lists -/

/-- Items that are separated by commas, one at least. -/
def commaList {α : Type} (item : Emit α) : Emit (List α) :=
  loop [] fun front => do
    let front := front ++ [← item]
    if ← takeMark "," then return .again front
    return .done front

/-- What is left out is `undefined`. -/
def absent : String := "undefined"

end BasicScript.Emit
