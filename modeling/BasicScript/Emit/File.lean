import BasicScript.Emit.Expression

/-!
# Files

Opening and closing files.
-/

namespace BasicScript.Emit

/-- The modes in which a file is opened. -/
def fileModes : List String := ["INPUT", "OUTPUT", "APPEND", "BINARY", "RANDOM"]

/-- The mode behind `FOR`; without one a file is opened for records. -/
def fileMode : Emit String := do
  unless ← takeKeyword "FOR" do return "RANDOM"
  let token ← current
  unless token.kind = .keyword && fileModes.contains token.text do
    rejectHere ("Expected file mode after FOR, found " ++ token.describe)
  let _ ← advance
  return token.text

/-- The old form of `OPEN`, behind the mode and its comma. -/
def openOldForm (mode : String) : Emit Unit := do
  let _ ← takeMark "#"
  let number ← expression
  let _ ← expectMark ","
  let file ← expression
  line ("await _open(" ++ file ++ ", (\x7b I: \"INPUT\", O: \"OUTPUT\", A: \"APPEND\", " ++
    "R: \"RANDOM\", B: \"BINARY\" \x7d)[String(" ++ mode ++ ").toUpperCase().charAt(0)], " ++
    number ++ ");")

def openStatement : Emit Unit := do
  let file ← expression
  if ← takeMark "," then openOldForm file
  else
    let mode ← fileMode
    skipWhile fun token => !token.isKeyword "AS" && !token.endsStatement
    let _ ← expectKeyword "AS"
    let _ ← takeMark "#"
    let number ← expression
    if ← takeKeyword "LEN" then
      let _ ← expectOperator "="
      let _ ← expression
    line ("await _open(" ++ file ++ ", " ++ Script.literal mode ++ ", " ++ number ++ ");")

def closeItem : Emit Unit := do
  let _ ← takeMark "#"
  line ("await _close(" ++ (← expression) ++ ");")

def closeFileStatement : Emit Unit := do
  if ← atStatementEnd then line "await _closeAll();"
  else
    let _ ← commaList closeItem

end BasicScript.Emit
