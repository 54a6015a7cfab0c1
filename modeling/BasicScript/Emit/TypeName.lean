import BasicScript.Emit.Expression

/-!
# Types and parameters

What stands behind `AS`, and the parameters of procedures and functions.
-/

namespace BasicScript.Emit

/-! ### Types -/

/-- A type behind `AS`.  An unknown name is reported and is a number. -/
def typeSpec : Emit TypeSpec := do
  let token ← current
  match token.kind with
  | .identifier =>
    let _ ← advance
    let key := Text.upper token.text
    if (← get).records.holds key then return { record := some key }
    reportAt token .typing ("Unknown type '" ++ token.text ++ "'")
    return {}
  | .keyword =>
    let _ ← advance
    if token.text = "_UNSIGNED" then
      let _ ← take (·.kind = .keyword)
    if token.text = "STRING" then
      if ← takeOperator "*" then
        let _ ← expression
      return { isText := true }
    return {}
  | _ => rejectHere ("Expected type name, found " ++ token.describe)

/-- A type behind `AS`, if there is one. -/
def typeSpec? : Emit (Option TypeSpec) := do
  if ← takeKeyword "AS" then return some (← typeSpec) else return none

/-- The type of a name with the type that was given for it.  A name for text holds text whatever
type was given. -/
def typeOfName (name : String) (given : Option TypeSpec) : TypeSpec :=
  match given with
  | none => { isText := Script.isTextName name }
  | some type => { type with isText := type.isText || Script.isTextName name }

/-- The function that makes a record. -/
def makerOf (key : String) : Emit String := do
  match (← get).records.get? key with
  | some type => return type.maker
  | none => fail (.recordType key)

/-- The first value of a text or a number. -/
def plainValue (type : TypeSpec) : String := if type.isText then "\"\"" else "0"

/-- The first value of a type. -/
def initialValue (type : TypeSpec) : Emit String := do
  match type.record with
  | some key => return (← makerOf key) ++ "()"
  | none => return plainValue type

/-- How the elements of an array are made: by a function for records, else a value. -/
def elementValue (type : TypeSpec) : Emit String := do
  match type.record with
  | some key => makerOf key
  | none => return plainValue type

/-! ### Parameters -/

/-- A parameter: its name and the variable for it. -/
structure Parameter where
  name : String
  slot : Variable

def parameter : Emit Parameter := do
  unless ← takeKeyword "BYVAL" do
    let _ ← takeKeyword "BYREF"
  let token ← expectName "parameter name"
  let isArray ← takeMark "("
  if isArray then
    let _ ← expectMark ")"
  let type := typeOfName token.text (← typeSpec?)
  return { name := token.text,
           slot := { name := Script.mangle token.text, isArray, isText := type.isText,
                      record := type.record } }

/-- Parameters in parentheses, if there are any. -/
def parameters : Emit (List Parameter) := do
  unless ← takeMark "(" do return []
  if ← takeMark ")" then return []
  let list ← commaList parameter
  let _ ← expectMark ")"
  return list

/-- The JavaScript names of parameters. -/
def parameterNames (list : List Parameter) : String :=
  Text.commas (list.map (·.slot.name))

end BasicScript.Emit
