import BasicScript.Emit.Place

/-!
# Jumps and error trapping

JavaScript has no jumps to labels: a `GOTO` becomes a comment with a warning, a `GOSUB` the call of
a function with the label's name.  Error trapping becomes comments.
-/

namespace BasicScript.Emit

/-- A label behind a keyword. -/
def labelAfter (keyword : String) : Emit Token := do
  unless ← atLabel do rejectHere ("Expected label after " ++ keyword)
  advance

/-- Emits the stand-in of a jump. -/
def emitGoto (label : Token) : Emit Unit := do
  line ("// GOTO " ++ label.text ++ " (not supported)")
  warnAt label ("GOTO " ++ label.text ++
    ": labels and GOTO are not supported when transpiling to JavaScript")

def gotoStatement : Emit Unit := do emitGoto (← labelAfter "GOTO")

def gosubStatement : Emit Unit := do
  let label ← labelAfter "GOSUB"
  warnAt label ("GOSUB " ++ label.text ++ ": subroutine labels are called as functions")
  if label.kind = .number then line ("// GOSUB " ++ label.text ++ " (not supported)")
  else line ("await " ++ Script.mangle label.text ++ "(); // GOSUB " ++ label.text)

def returnStatement : Emit Unit := do
  let _ ← take (·.isLabel)
  line "return;"

def onErrorStatement : Emit Unit := do
  if ← takeKeyword "GOTO" then
    let label ← labelAfter "ON ERROR GOTO"
    if label.text = "0" then line "// ON ERROR GOTO 0"
    else line ("// ON ERROR GOTO " ++ label.text ++ " (error trapping ignored)")
  else if ← takeKeyword "RESUME" then
    let _ ← expectKeyword "NEXT"
    line "// ON ERROR RESUME NEXT"
  else rejectHere "Expected GOTO or RESUME after ON ERROR"

/-- Events that QBasic can trap. -/
def trappedEvents : List String := ["TIMER", "KEY", "STRIG", "PEN", "PLAY", "COM"]

/-- `ON` with the name of an event. -/
def onEventStatement (event : Token) : Emit Unit := do
  let name := Text.upper event.text
  skipStatement
  warnAt event ("ON " ++ name ++ " event trapping is not supported")
  line ("// ON " ++ name ++ " (unsupported)")

/-- The functions of the labels of `ON ... GOSUB`; a line number has none. -/
def labelFunctions (labels : List Token) : List String :=
  (labels.filter (·.kind = .identifier)).map fun label => Script.mangle label.text

/-- `ON` with a value that selects a label. -/
def onValueStatement (token : Token) : Emit Unit := do
  let selector ← expression
  if ← takeKeyword "GOTO" then
    let labels ← commaList (labelAfter "GOTO")
    line ("// ON " ++ selector ++ " GOTO " ++ Text.commas (labels.map (·.text)) ++
      " (not supported)")
    warnAt token "ON...GOTO is not supported when transpiling to JavaScript"
  else if ← takeKeyword "GOSUB" then
    let labels ← commaList (labelAfter "GOSUB")
    warnAt token "ON...GOSUB labels are called as functions"
    let choice ← temporary "_on_"
    line ("\x7b const " ++ choice ++ " = " ++ selector ++ "; if (" ++ choice ++ " >= 1 && " ++
      choice ++ " <= " ++ toString labels.length ++ ") \x7b await [" ++
      Text.commas (labelFunctions labels) ++ "][" ++ choice ++ " - 1](); \x7d \x7d")
  else rejectHere "Expected GOTO or GOSUB after ON expression"

def onStatement (token : Token) : Emit Unit := do
  if ← takeKeyword "ERROR" then onErrorStatement
  else
    let event ← current
    if trappedEvents.contains (Text.upper event.text) then onEventStatement event
    else onValueStatement token

def resumeStatement : Emit Unit := do
  if ← takeKeyword "NEXT" then line "// RESUME NEXT"
  else if ← atLabel then line ("// RESUME " ++ (← advance).text)
  else line "// RESUME"

end BasicScript.Emit
