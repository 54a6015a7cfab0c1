import BasicScript.Emit.Place
import BasicScript.Emit.TypeName

/-!
# Declarations and data

Variables and arrays, constants, record types, one-line functions, and the statements that work on
data.
-/

namespace BasicScript.Emit

/-! ### Variables and arrays -/

/-- How a statement declares: whether the names are shared, whether an array may be made anew, and
whether it keeps its elements then. -/
structure Declaring where
  shared : Bool := false
  renews : Bool := false
  keeps : Bool := false

/-- The upper bound of one dimension; a lower bound does not matter. -/
def bound : Emit String := do
  let first ← expression
  if ← takeKeyword "TO" then expression else return first

/-- The bounds of an array, if there are parentheses. -/
def bounds? : Emit (Option (List String)) := do
  unless ← takeMark "(" do return none
  let list ← if ← atMark ")" then pure [] else commaList bound
  let _ ← expectMark ")"
  return some list

/-- The value that a declaration gives to a variable.  `kept` is the array whose elements stay. -/
def declaredValue (bounds : Option (List String)) (type : TypeSpec) (kept : Option String) :
    Emit String := do
  match bounds, kept with
  | none, _ => initialValue type
  | some [], _ => return "[]"
  | some bounds, none =>
    return "_makeArray(" ++ (← elementValue type) ++ ", " ++ Text.commas bounds ++ ")"
  | some bounds, some array =>
    return "_redimPreserve(" ++ array ++ ", " ++ (← elementValue type) ++ ", " ++
      Text.commas bounds ++ ")"

/-- Declares a name that has no variable yet. -/
def declareNew (name : String) (isArray : Bool) (type : TypeSpec) (shared : Bool) (value : String) :
    Emit Unit := do
  let v : Variable :=
    { name := Script.mangle name, isArray, isText := type.isText, record := type.record }
  let ref ← emitDeclaration name v value
  if shared then onScopes (·.share name (some ref))

/-- Declares a name again: its variable gets a new value, and may become an array or a record. -/
def declareAgain (token : Token) (ref : Ref) (isArray : Bool) (type : TypeSpec)
    (how : Declaring) (old : Variable) (value : String) : Emit Unit := do
  if !how.renews && !isArray && old.isArray then
    reportAt token .semantic ("Duplicate definition '" ++ token.text ++ "'")
  onScopes (·.modify ref fun v =>
    { v with isArray := v.isArray || isArray, record := type.record.or v.record })
  line (old.name ++ " = " ++ value ++ ";")
  if how.shared then onScopes (·.share token.text (some ref))

/-- Declares a name.  Only an array that is made anew may be a shared one of the module. -/
def declareName (token : Token) (bounds : Option (List String)) (type : TypeSpec)
    (how : Declaring) : Emit Unit := do
  let here ← scopes
  let existing :=
    (if how.renews then here.lookup? token.text else here.local? token.text).bind fun ref =>
      (here.cell? ref).map fun v => (ref, v)
  let kept := if how.keeps then existing.map (·.2.name) else none
  let value ← declaredValue bounds type kept
  match existing with
  | some (ref, old) => declareAgain token ref bounds.isSome type how old value
  | none => declareNew token.text bounds.isSome type how.shared value

/-- One item of a declaration.  Its own type comes before the one for all items. -/
def declarationItem (how : Declaring) (common : Option TypeSpec) : Emit Unit := do
  let token ← expectName "variable name"
  let bounds ← bounds?
  let own ← typeSpec?
  declareName token bounds (typeOfName token.text (own.or common)) how

def declarationItems (how : Declaring) : Emit Unit := do
  let common ← typeSpec?
  let _ ← commaList (declarationItem how common)

def dimStatement : Emit Unit := do
  declarationItems { shared := ← takeKeyword "SHARED" }

def redimStatement : Emit Unit := do
  let keeps ← takeKeyword "PRESERVE"
  declarationItems { shared := ← takeKeyword "SHARED", renews := true, keeps }

def commonStatement (token : Token) : Emit Unit := do
  let _ ← takeKeyword "SHARED"
  unless (← scopes).isModule do
    reportAt token .semantic "COMMON is only allowed at module level"
  declarationItems { shared := true }

/-! ### Constants -/

/-- Whether the text of an expression begins and ends like a string. -/
def looksQuoted (value : String) : Bool :=
  value.toList.head? = some '"' && value.toList.getLast? = some '"'

def constItem : Emit Unit := do
  let token ← expectName "constant name"
  let _ ← expectOperator "="
  let value ← expression
  if ((← scopes).local? token.text).isSome then
    reportAt token .semantic ("Duplicate definition '" ++ token.text ++ "'")
  else
    let v : Variable :=
      { name := Script.mangle token.text,
        isText := Script.isTextName token.text || looksQuoted value }
    let ref ←
      if ← atScopeBase then
        introduce token.text v .plain ("const " ++ v.name ++ " = " ++ value ++ ";") false
      else emitDeclaration token.text v value
    if (← scopes).isModule then onScopes (·.share token.text (some ref))

def constStatement : Emit Unit := do
  let _ ← commaList constItem

/-! ### Record types -/

/-- The fields of a record type up to its end, and whether the end was there. -/
def recordFields : Emit (Table TypeSpec × Bool) :=
  loop ([] : Table TypeSpec) fun fields => do
    let token ← current
    if token.kind = .endOfInput then return .done (fields, false)
    if token.kind = .newline || token.isMark ":" then
      let _ ← advance
      return .again fields
    if ← takeKeyword "END" then
      let _ ← expectKeyword "TYPE"
      return .done (fields, true)
    unless token.isWord do rejectHere ("Expected field name, found " ++ token.describe)
    let _ ← advance
    let _ ← expectKeyword "AS"
    let type := typeOfName token.text (some (← typeSpec))
    endStatement
    return .again (Table.insert (memberName token) type fields)

/-- The fields of a new record with their first values. -/
def fieldInitials : Table TypeSpec → Emit (List String)
  | [] => return []
  | (field, type) :: rest => do
    let value ← initialValue type
    return (field ++ ": " ++ value) :: (← fieldInitials rest)

/-- Moves behind the end of a record type whose name was rejected. -/
def skipRecord : Emit Unit :=
  loop () fun _ => do
    if ← atEnd then return .done ()
    if (← atLineStart) && (← atKeyword "END") && (← peek 1).text = "TYPE" then
      let _ ← advance
      let _ ← advance
      return .done ()
    let _ ← advance
    return .again ()

/-- The record type behind its name. -/
def recordBody (token name : Token) : Emit Unit := do
  let (fields, closed) ← recordFields
  unless closed do reportAt token .syntactic "TYPE without END TYPE"
  let maker := Script.mangle name.text
  modify fun s => { s with records := s.records.insert (Text.upper name.text) ⟨maker, fields⟩ }
  let initials ← fieldInitials fields
  line ("function " ++ maker ++ "() \x7b return \x7b " ++ Text.commas initials ++ " \x7d; \x7d")

/-- `TYPE`.  With a rejected name the whole type is skipped. -/
def typeStatement (token : Token) : Emit Unit := do
  let name ← rescuing (some <$> expectName "type name") fun rejection => do
    record rejection
    return none
  match name with
  | some name => recordBody token name
  | none => skipRecord

/-! ### One-line functions -/

/-- Binds parameters in the current scope, and returns what their names referred to before. -/
def bindEach : List Parameter → Emit (List (String × Option Ref))
  | [] => return []
  | p :: rest => do
    let before := (← scopes).local? p.name
    onScopes fun here =>
      let (ref, next) := here.allocate p.slot
      next.bind p.name ref
    return (p.name, before) :: (← bindEach rest)

/-- Binds the parameters of a one-line function. -/
def bindParameters (list : List Parameter) : Emit (List (String × Option Ref)) := do
  onScopes (·.lose (list.map (·.name)))
  bindEach list

/-- Gives names back what they referred to. -/
def restoreNames : List (String × Option Ref) → Emit Unit
  | [] => pure ()
  | (name, some ref) :: rest => do
    onScopes (·.bind name ref)
    restoreNames rest
  | (name, none) :: rest => do
    onScopes (·.forget name)
    restoreNames rest

/-- Whether a name begins like that of a one-line function. -/
def beginsWithFn (name : String) : Bool := (Text.upper name).toList.take 2 = ['F', 'N']

/-- The head of a one-line function, with its equals sign: the name and the parameters. -/
def defHead : Emit (String × List Parameter) := do
  let apart ← takeKeyword "FN"
  let token ← expectName "function name"
  let name := if apart then "FN" ++ token.text else token.text
  unless beginsWithFn name do
    rejectAt token "DEF function names must begin with FN" .syntactic []
  let list ← parameters
  unless ← takeOperator "=" do rejectHere "Multi-line DEF FN is not supported"
  return (name, list)

def defStatement : Emit Unit := do
  let (name, list) ← defHead
  let jsName := Script.mangle name
  modify fun s => { s with functions := s.functions.insert (Text.upper name) jsName }
  let before ← bindParameters list
  let body ← ensuring expression (restoreNames before)
  let text := "const " ++ jsName ++ " = async (" ++ parameterNames list ++ ") => " ++ body ++ ";"
  if ← atScopeBase then
    writeDeclaration { key := Text.upper name, origin := .function, text, atTop := false }
  else line text

/-! ### Data -/

/-- `DATA`.  The items are announced; the place of the statement is kept. -/
def dataStatement : Emit Unit := do
  let start := (← get).position
  skipStatement
  modify fun s => { s with dataPassed := s.dataPassed ++ [(start, s.position)] }

def readStatement : Emit Unit := do
  let places ← commaList place
  storeAll (places.map fun p => (p, if p.isText then "String(_read())" else "Number(_read())"))

def restoreStatement : Emit Unit := do
  if ← atLabel then
    let label ← advance
    warnAt label ("RESTORE " ++ label.text ++ " restarts from the first DATA item")
  line "_restore();"

def swapStatement : Emit Unit := do
  let first ← place
  let _ ← expectMark ","
  let second ← place
  let a ← declared first
  let b ← declared second
  line ("[" ++ a ++ ", " ++ b ++ "] = [" ++ b ++ ", " ++ a ++ "];")

def eraseItem : Emit Unit := do
  let token ← expectName "array name"
  match ← lookup token.text with
  | none => reportAt token .reference ("Array '" ++ token.text ++ "' not defined")
  | some v => line (v.name ++ " = [];")

def eraseStatement : Emit Unit := do
  let _ ← commaList eraseItem

def randomizeStatement : Emit Unit := do
  if ← atStatementEnd then line "_randomize();"
  else
    let _ ← takeKeyword "USING"
    line ("_randomize(" ++ (← expression) ++ ");")

end BasicScript.Emit
