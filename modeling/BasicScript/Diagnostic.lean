import BasicScript.Text.Quoted

/-!
# Diagnostics

A diagnostic is a message about a place in the source, with a severity, a category and suggestions
for what may have been meant.
-/

namespace BasicScript

/-- How grave a diagnostic is.  `other` is a severity that compiling never gives. -/
inductive Severity where
  | error
  | warning
  | info
  | hint
  | other (name : String)
deriving Repr, DecidableEq

namespace Severity

def name : Severity → String
  | error => "error"
  | warning => "warning"
  | info => "info"
  | hint => "hint"
  | other name => name

def ofName (name : String) : Severity :=
  if name = "error" then error
  else if name = "warning" then warning
  else if name = "info" then info
  else if name = "hint" then hint
  else other name

/-- The letter that marks a severity in a report. -/
def marker : Severity → String
  | error => "E"
  | warning => "W"
  | info => "I"
  | hint => "H"
  | other _ => "*"

end Severity

/-- What a diagnostic is about.  `other` is a category that compiling never gives. -/
inductive Category where
  | syntactic
  | semantic
  | typing
  | reference
  | runtime
  | other (name : String)
deriving Repr, DecidableEq

namespace Category

def name : Category → String
  | syntactic => "syntax"
  | semantic => "semantic"
  | typing => "type"
  | reference => "reference"
  | runtime => "runtime"
  | other name => name

def ofName (name : String) : Category :=
  if name = "syntax" then syntactic
  else if name = "semantic" then semantic
  else if name = "type" then typing
  else if name = "reference" then reference
  else if name = "runtime" then runtime
  else other name

end Category

/-- A message about a place in the source. -/
structure Diagnostic where
  severity : Severity
  category : Category
  message : String
  line : Int
  column : Int
  length : Int := 1
  suggestions : List String := []
deriving Repr, DecidableEq

namespace Diagnostic

def suggesting (d : Diagnostic) (text : String) : Diagnostic :=
  { d with suggestions := d.suggestions ++ [text] }

def isError (d : Diagnostic) : Bool := d.severity = .error

def isWarning (d : Diagnostic) : Bool := d.severity = .warning

/-- The diagnostic in a report, each suggestion on a line of its own. -/
def report (d : Diagnostic) : String :=
  let head := "[" ++ d.severity.marker ++ "] [" ++ d.category.name ++
    "] Line " ++ toString d.line ++ ":" ++ toString d.column ++ " - " ++ d.message
  match d.suggestions with
  | [] => head
  | texts => texts.foldl (fun out text => out ++ "\n    - " ++ text) (head ++ "\n  Suggestions:")

/-- The diagnostic on one line. -/
def brief (d : Diagnostic) : String :=
  d.severity.name ++ ":" ++ toString d.line ++ ":" ++ toString d.column ++ ": " ++ d.message

/-- The diagnostic with its main parts. -/
def display (d : Diagnostic) : String :=
  "Diagnostic(" ++ d.severity.name ++ ", " ++ d.category.name ++ ", " ++ Text.quoted d.message ++
    ", " ++ toString d.line ++ ", " ++ toString d.column ++ ")"

end Diagnostic

end BasicScript
