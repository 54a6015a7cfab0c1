import BasicScript.Emit.Place

/-!
# Console statements

Printing, reading, the screen, and sound.
-/

namespace BasicScript.Emit

/-! ### Printing -/

/-- The items of a `PRINT` statement, and whether a line end follows them: a semicolon joins, a
comma moves to the next column, and either of them at the end keeps the line open. -/
def printItems : Emit (List String × Bool) :=
  loop (([], true) : List String × Bool) fun (items, ended) => do
    if ← atStatementEnd then return .done (items, ended)
    if ← takeMark ";" then return .again (items, false)
    if ← takeMark "," then return .again (items ++ [Script.literal "\t"], false)
    return .again (items ++ [← expression], true)

/-- Printed items as one value. -/
def joined : List String → String
  | [] => "\"\""
  | [item] => item
  | items => "[" ++ Text.commas items ++ "].join(\"\")"

/-- The number of a file, if one is given. -/
def fileNumber? : Emit (Option String) := do
  unless ← takeMark "#" do return none
  let number ← expression
  let _ ← takeMark ","
  return some number

def printStatement (token : Token) : Emit Unit := do
  let file ← fileNumber?
  if ← takeKeyword "USING" then
    let _ ← expression
    let _ ← expectMark ";"
    warnAt token "PRINT USING formatting is not supported; values are printed unformatted"
  let (items, ended) ← printItems
  let content := joined items
  match file with
  | some number =>
    let text := "String(" ++ content ++ ")" ++ if ended then " + \"\\n\"" else ""
    line ("await _printFileFunc(" ++ number ++ ", " ++ text ++ ");")
  | none => line ("_print(" ++ content ++ ", " ++ (if ended then "true" else "false") ++ ");")

/-- The values of a `WRITE` statement. -/
def writeValues : Emit (List String) :=
  loop ([] : List String) fun values => do
    if ← atStatementEnd then return .done values
    let values := values ++ ["_writeValue(" ++ (← expression) ++ ")"]
    if ← takeMark "," then return .again values
    if ← takeMark ";" then return .again values
    return .done values

def writeStatement : Emit Unit := do
  let file ← fileNumber?
  let values ← writeValues
  let content := if values.isEmpty then "\"\"" else "[" ++ Text.commas values ++ "].join(\",\")"
  match file with
  | some number =>
    line ("await _printFileFunc(" ++ number ++ ", " ++ content ++ " + \"\\n\");")
  | none => line ("_print(" ++ content ++ ", true);")

/-! ### Reading -/

/-- The assignments of the parts of one input line to several places. -/
def fieldValues (fields : String) (places : List Place) : List (Place × String) :=
  places.zipIdx.map fun (p, i) =>
    (p, coerced p ("(" ++ fields ++ "[" ++ toString i ++ "] ?? \"\").trim()"))

/-- The prompt of an `INPUT` statement.  A comma behind it suppresses the question mark. -/
def inputPrompt : Emit String := do
  let _ ← takeMark ";"
  unless ← atKind .string do return "? "
  let text := (← advance).text
  if ← takeMark "," then return text
  if ← takeMark ";" then return text ++ "? "
  rejectHere "Expected ';' or ',' after INPUT prompt"

def inputStatement : Emit Unit := do
  match ← fileNumber? with
  | some number =>
    let places ← commaList place
    storeAll (places.map fun p => (p, coerced p ("await _inputFileFunc(" ++ number ++ ")")))
  | none =>
    let prompt ← inputPrompt
    let call := "await _input(" ++ Script.literal prompt ++ ")"
    match ← commaList place with
    | [p] => store p (coerced p call)
    | places =>
      let fields ← temporary "_fields_"
      line ("const " ++ fields ++ " = String(" ++ call ++ ").split(\",\");")
      storeAll (fieldValues fields places)

/-- The prompt of a `LINE INPUT` statement. -/
def lineInputPrompt : Emit String := do
  let _ ← takeMark ";"
  unless ← atKind .string do return ""
  let text := (← advance).text
  if ← takeMark ";" then return text
  if ← takeMark "," then return text
  rejectHere "Expected ';' or ',' after LINE INPUT prompt"

def lineInputStatement : Emit Unit := do
  match ← fileNumber? with
  | some number =>
    let p ← place
    store p ("String(await _inputFileFunc(" ++ number ++ "))")
  | none =>
    let prompt ← lineInputPrompt
    let p ← place
    store p ("String(await _input(" ++ Script.literal prompt ++ "))")

/-! ### Screen and sound -/

/-- Arguments that are separated by commas, any of which may be left out. -/
def gappedArguments : Emit (List String) := do
  if ← atStatementEnd then return []
  commaList do if ← atGap then return absent else expression

/-- An expression, unless the statement ends here. -/
def optionalExpression : Emit (Option String) := do
  if ← atStatementEnd then return none
  return some (← expression)

/-- A call with the first two of some arguments. -/
def pairStatement (callee : String) : Emit Unit := do
  let values ← gappedArguments
  line (callee ++ "(" ++ values.getD 0 absent ++ ", " ++ values.getD 1 absent ++ ");")

def screenStatement : Emit Unit := do
  let values ← gappedArguments
  line ("_screen(" ++ values.getD 0 "0" ++ ");")

/-- `CLS` and other statements whose argument does not matter. -/
def bareStatement (text : String) : Emit Unit := do
  let _ ← optionalExpression
  line text

def soundStatement : Emit Unit := do
  let frequency ← expression
  let _ ← expectMark ","
  let duration ← expression
  line ("await _sound(" ++ frequency ++ ", " ++ duration ++ ");")

/-- A statement with one argument, between two texts. -/
def unaryStatement (front back : String) : Emit Unit := do
  line (front ++ (← expression) ++ back)

/-- A statement with one argument that may be left out. -/
def defaultStatement (front default back : String) : Emit Unit := do
  line (front ++ (← optionalExpression).getD default ++ back)

end BasicScript.Emit
