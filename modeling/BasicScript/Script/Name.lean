/-!
# Names

The JavaScript name of a QBasic name.  A string suffix `$` is legal in JavaScript and kept; a
numeric suffix becomes a tail, so that `a%` and `a&` stay apart; a word that JavaScript or the
generated program needs for itself gets an underscore.
-/

namespace BasicScript.Script

/-- Words that a generated name must not be. -/
def reserved : List String :=
  ["arguments", "async", "await", "break", "catch", "class", "const", "debugger", "default",
   "delete", "enum", "eval", "export", "extends", "false", "finally", "function", "implements",
   "import", "in", "instanceof", "interface", "let", "new", "null", "of", "package", "private",
   "protected", "public", "super", "switch", "this", "throw", "true", "try", "typeof", "undefined",
   "var", "void", "with", "yield", "NaN", "Infinity", "Array", "Math", "Number", "Object",
   "Promise", "String", "console", "process", "require", "window", "rl", "readline", "INSTR",
   "INKEY", "TRUE", "FALSE"]

/-- A name that is not reserved. -/
def safeName (name : String) : String :=
  if reserved.contains name then name ++ "_" else name

/-- The tail that stands for a numeric type suffix. -/
def suffixTail? (c : Char) : Option String :=
  if c = '%' then some "_int"
  else if c = '&' then some "_lng"
  else if c = '!' then some "_sng"
  else if c = '#' then some "_dbl"
  else none

/-- The JavaScript name of a QBasic name. -/
def mangle (name : String) : String :=
  match name.toList.reverse with
  | [] => safeName name
  | last :: front =>
    match suffixTail? last with
    | some tail => String.ofList front.reverse ++ tail
    | none => safeName name

/-- The JavaScript name of a QBasic name that may hold points. -/
def identifier (name : String) : String :=
  mangle (String.ofList (name.toList.map fun c => if c = '.' then '_' else c))

/-- Whether a name is that of a string variable. -/
def isTextName (name : String) : Bool :=
  name.toList.getLast? = some '$'

/-- The value of a variable before its first assignment. -/
def defaultValue (name : String) : String :=
  if isTextName name then "\"\"" else "0"

end BasicScript.Script
