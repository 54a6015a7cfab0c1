import BasicScript.Emit.Expression

/-!
# Places

A place is what a value can be assigned to: a variable, an element of an array, a field of a record.
-/

namespace BasicScript.Emit

/-- A place: its JavaScript text, whether it holds text, and its name if that is not declared
yet. -/
structure Place where
  code : String
  isText : Bool
  fresh : Option String := none

/-- The name and the variable of a place.  A name with points in it is one name, unless it begins
with a record. -/
def placeName (token : Token) : Emit (String × Option Variable) := do
  let found ← lookup token.text
  if (← atMark ".") && (found.bind (·.record)).isNone then
    let name ← dottedName token
    return (name, ← lookup name)
  return (token.text, found)

/-- A place.  A procedure is none, except for its result inside a function. -/
def place : Emit Place := do
  let token ← expectName "variable"
  let (name, found) ← placeName token
  if found.isNone then
    if let some procedure := (← get).procedures.get? (Text.upper name) then
      rejectAt token ("Cannot assign to " ++ procedure.kind.word ++ " '" ++ procedure.name ++ "'")
        .semantic []
  if ← atMark "(" then
    let indices ← arguments
    let v ← match found with
      | some v => pure v
      | none => implicitArray name indices.length
    let selected ← members (typeOf v)
    return { code := v.name ++ indexed indices ++ selected.code, isText := selected.type.isText }
  match found with
  | none =>
    return { code := Script.identifier name, isText := Script.isTextName name, fresh := some name }
  | some v =>
    let selected ← members (typeOf v)
    return { code := v.name ++ selected.code, isText := selected.type.isText }

/-- The name of a place that is still not declared. -/
def freshName (p : Place) : Emit (Option String) := do
  match p.fresh with
  | none => return none
  | some name => return if (← lookup name).isNone then some name else none

/-- Assigns a value to a place, and declares a fresh name. -/
def store (p : Place) (value : String) : Emit Unit := do
  match ← freshName p with
  | some name =>
    let v : Variable := { name := p.code, isText := p.isText }
    let _ ← emitDeclaration name v value
  | none => line (p.code ++ " = " ++ value ++ ";")

/-- The text of a place, whose fresh name is declared. -/
def declared (p : Place) : Emit String := do
  match ← freshName p with
  | some name => return (← implicitVariable name).name
  | none => return p.code

/-- A value that was read, as the type of the place wants it. -/
def coerced (p : Place) (value : String) : String :=
  if p.isText then "String(" ++ value ++ ")" else "(Number(" ++ value ++ ") || 0)"

/-- Assigns to places in turn. -/
def storeAll : List (Place × String) → Emit Unit
  | [] => pure ()
  | (p, value) :: rest => do
    store p value
    storeAll rest

def assignment : Emit Unit := do
  let p ← place
  let _ ← expectOperator "="
  store p (← expression)

end BasicScript.Emit
