import BasicScript.Emit.Output
import BasicScript.Script.Number
import BasicScript.Vocabulary.BuiltinRows

/-!
# Expressions

The JavaScript text of an expression.  From the loosest to the tightest: `OR` and `XOR`, `AND`,
comparisons, sums, products, signs and `NOT`, powers, and primaries.  Every operation is put in
parentheses or is a call, so that no operator around it can regroup it.

Each level is written over the action for the level below it.  The one recursion, of an expression
inside another, is on a number that bounds the nesting; there is a token for each level of nesting.
So expressions nest to any depth: a limit that a host sets on its stack is no part of the program.
-/

namespace BasicScript.Emit

/-! ### Operators -/

/-- The JavaScript comparison for a QBasic one. -/
def comparison? (sign : String) : Option String :=
  if sign = "=" then some "==="
  else if sign = "<>" then some "!=="
  else if sign = "<" ∨ sign = ">" ∨ sign = "<=" ∨ sign = ">=" then some sign
  else none

/-- How the two sides of an operator are put together. -/
abbrev Combine := String → String → String

/-- Two sides with an operator between them, in parentheses. -/
def between (sign : String) : Combine := fun left right =>
  "(" ++ left ++ " " ++ sign ++ " " ++ right ++ ")"

/-- The operators of the loosest level. -/
def disjunctionSign? (token : Token) : Option Combine :=
  if token.isKeyword "OR" then some (between "||")
  else if token.isKeyword "XOR" then
    some fun left right => "(Boolean(" ++ left ++ ") !== Boolean(" ++ right ++ "))"
  else none

def conjunctionSign? (token : Token) : Option Combine :=
  if token.isKeyword "AND" then some (between "&&") else none

def comparisonSign? (token : Token) : Option Combine :=
  if token.kind = .operator then (comparison? token.text).map between else none

def sumSign? (token : Token) : Option Combine :=
  if token.isOperator "+" then some (between "+")
  else if token.isOperator "-" then some (between "-")
  else none

/-- The operators of a product.  The backslash divides whole numbers. -/
def productSign? (token : Token) : Option Combine :=
  if token.isOperator "*" then some (between "*")
  else if token.isOperator "/" then some (between "/")
  else if token.isOperator "\\" then
    some fun left right => "Math.trunc(" ++ left ++ " / " ++ right ++ ")"
  else if token.isKeyword "MOD" then some (between "%")
  else none

def powerSign? (token : Token) : Option Combine :=
  if token.isOperator "^" then some fun left right => "Math.pow(" ++ left ++ ", " ++ right ++ ")"
  else none

/-- How an operand with a sign in front is written. -/
def unarySign? (token : Token) : Option (String → String) :=
  if token.isOperator "-" then some fun operand => "(-" ++ operand ++ ")"
  else if token.isOperator "+" then some id
  else if token.isKeyword "NOT" then some fun operand => "(!" ++ operand ++ ")"
  else none

/-- How an exponent with a sign in front is written. -/
def exponentSign? (token : Token) : Option (String → String) :=
  if token.isOperator "-" then some fun operand => "(-" ++ operand ++ ")"
  else if token.isOperator "+" then some id
  else none

/-- Operands with operators between them, grouped from the left. -/
def chain (first operand : Emit String) (sign? : Token → Option Combine) : Emit String := do
  let left ← first
  loop left fun left => do
    match sign? (← current) with
    | none => return .done left
    | some combine =>
      let _ ← advance
      return .again (combine left (← operand))

/-- Signs in front of an operand. -/
def signed (operand : Emit String) (sign? : Token → Option (String → String)) : Emit String := do
  let wrap ← loop (id : String → String) fun wrap => do
    match sign? (← current) with
    | none => return .done wrap
    | some inner =>
      let _ ← advance
      return .again (wrap ∘ inner)
  return wrap (← operand)

/-! ### Arguments, members and calls -/

/-- Refuses an expression that is missing altogether. -/
def demandExpression : Emit Unit := do
  let token ← current
  if token.endsStatement || token.isMark "," || token.isMark ")" then
    rejectHere ("Expected expression, found " ++ token.describe)

section Levels

variable (nested : Emit String)

/-- An expression that must be there. -/
def demanded : Emit String := do
  demandExpression
  nested

/-- Arguments in parentheses. -/
def argumentsOf : Emit (List String) := do
  let _ ← expectMark "("
  if ← takeMark ")" then return []
  let values ← commaList (demanded nested)
  let _ ← expectMark ")"
  return values

/-- Arguments in parentheses, if there are any. -/
def optionalArguments : Emit (List String) := do
  if ← atMark "(" then argumentsOf nested else return []

/-- Indices behind an array. -/
def indexed (indices : List String) : String :=
  String.join (indices.map fun index => "[" ++ index ++ "]")

/-- The JavaScript name of a field of a record. -/
def memberName (token : Token) : String := Script.mangle (Text.lower token.text)

/-- What is known of a value while its members are read: the text so far and its type. -/
structure Selected where
  code : String
  type : TypeSpec

/-- The field of a record type that a token names; an unknown one is reported.  Of a value that is
no record, a member is a number or a text by its name. -/
def memberType (record : Option String) (token : Token) : Emit TypeSpec := do
  let byName : TypeSpec := { isText := Script.isTextName token.text }
  match record with
  | none => return byName
  | some key =>
    match ((← get).records.get? key).bind (·.fields.get? (memberName token)) with
    | some type => return type
    | none =>
      reportAt token .reference ("Unknown field '" ++ token.text ++ "'")
      return byName

/-- Members behind a value: points with field names, and indices. -/
def membersOf (start : TypeSpec) : Emit Selected :=
  loop (⟨"", start⟩ : Selected) fun selected => do
    unless ← takeMark "." do return .done selected
    let token ← current
    unless token.isWord do rejectHere "Expected field name after '.'"
    let _ ← advance
    let type ← memberType selected.type.record token
    let indices ← optionalArguments nested
    return .again ⟨selected.code ++ "." ++ memberName token ++ indexed indices, type⟩

/-- A name with points in it, as old programs have them. -/
def dottedName (first : Token) : Emit String :=
  loop first.text fun name => do
    unless ← atMark "." do return .done name
    unless (← peek 1).isWord do return .done name
    let _ ← advance
    let part ← advance
    return .again (name ++ "." ++ part.text)

/-- What is known of a variable's type. -/
def typeOf (v : Variable) : TypeSpec := { isText := v.isText, record := v.record }

/-- A call of a builtin function.  A wrong number of arguments is reported. -/
def builtinCall (builtin : Builtin) (token : Token) : Emit String := do
  let values ← optionalArguments nested
  unless builtin.accepts values.length do
    reportAt token .typing ("'" ++ builtin.name ++ "' expects " ++ builtin.arityText ++
      " argument(s), got " ++ toString values.length)
  return builtin.call values

/-- Reports a wrong number of arguments of a procedure. -/
def checkArity (procedure : Procedure) (count : Nat) (token : Token) : Emit Unit := do
  unless count = procedure.parameters do
    reportAt token .typing ("Wrong number of arguments for '" ++ procedure.name ++ "': expected " ++
      toString procedure.parameters ++ ", got " ++ toString count)

/-- Notes a call of a procedure by its name.  A wrong number of arguments is reported. -/
def noteCall (procedure : Procedure) (values : List String) (token : Token) : Emit Unit := do
  checkArity procedure values.length token
  modify fun s => { s with calls := ⟨Text.upper token.text, values⟩ :: s.calls }

/-- A call of a function of the program. -/
def functionCall (jsName : String) (procedure : Option Procedure) (token : Token) :
    Emit String := do
  let values ← optionalArguments nested
  if let some procedure := procedure then noteCall procedure values token
  return "(await " ++ jsName ++ "(" ++ Text.commas values ++ "))"

/-! ### Primaries -/

/-- A name that is no procedure, function or builtin: a variable, an element of an array, with its
members. -/
def variableUse (token : Token) (found : Option Variable) : Emit String := do
  if ← atMark "(" then
    let indices ← argumentsOf nested
    let v ← match found with
      | some v => pure v
      | none => implicitArray token.text indices.length
    let members ← membersOf nested (typeOf v)
    return v.name ++ indexed indices ++ members.code
  else if (← atMark ".") && (found.bind (·.record)).isNone then
    let name ← dottedName token
    match ← lookup name with
    | some v => return v.name
    | none => return (← implicitVariable name).name
  else
    let v ← match found with
      | some v => pure v
      | none => implicitVariable token.text
    let members ← membersOf nested (typeOf v)
    return v.name ++ members.code

/-- A name in an expression: a procedure, a function defined by an expression, a variable, or a
builtin that no variable hides. -/
def nameUse (token : Token) : Emit String := do
  let key := Text.upper token.text
  match (← get).procedures.get? key with
  | some procedure =>
    let _ ← advance
    match procedure.kind with
    | .sub =>
      rejectAt token ("SUB '" ++ procedure.name ++ "' cannot be used in an expression") .semantic []
    | .function => functionCall nested procedure.jsName (some procedure) token
  | none =>
    match (← get).functions.get? key with
    | some jsName =>
      let _ ← advance
      functionCall nested jsName none token
    | none =>
      let found ← lookup token.text
      match found, Vocabulary.builtin? token.text with
      | none, some builtin =>
        let _ ← advance
        builtinCall nested builtin token
      | _, _ =>
        let _ ← advance
        variableUse nested token found

/-- A number, a string, an expression in parentheses, a builtin or a name. -/
def primary : Emit String := do
  let token ← current
  match token.kind with
  | .number =>
    let _ ← advance
    ofExcept (Script.number token.text)
  | .string =>
    let _ ← advance
    return Script.literal token.text
  | .keyword =>
    match Vocabulary.builtin? token.text with
    | none => rejectHere ("Unexpected keyword '" ++ token.text ++ "' in expression")
    | some builtin =>
      let _ ← advance
      builtinCall nested builtin token
  | .identifier => nameUse nested token
  | _ =>
    if token.isMark "(" then
      let _ ← advance
      let inner ← nested
      let _ ← expectMark ")"
      return "(" ++ inner ++ ")"
    else rejectHere ("Expected expression, found " ++ token.describe)

/-! ### Levels -/

def power : Emit String :=
  chain (primary nested) (signed (primary nested) exponentSign?) powerSign?

def unary : Emit String := signed (power nested) unarySign?

def product : Emit String := chain (unary nested) (unary nested) productSign?

def sum : Emit String := chain (product nested) (product nested) sumSign?

def comparison : Emit String := chain (sum nested) (sum nested) comparisonSign?

def conjunction : Emit String := chain (comparison nested) (comparison nested) conjunctionSign?

def disjunction : Emit String := chain (conjunction nested) (conjunction nested) disjunctionSign?

end Levels

/-- An expression whose parts nest at most so deep. -/
def expressionTo : Nat → Emit String
  | 0 => throw .stalled
  | depth + 1 => disjunction (expressionTo depth)

/-- An expression that may begin with anything. -/
def nestedExpression : Emit String := do expressionTo (← budget)

def expression : Emit String := demanded nestedExpression

def arguments : Emit (List String) := argumentsOf nestedExpression

def members (start : TypeSpec) : Emit Selected := membersOf nestedExpression start

end BasicScript.Emit
