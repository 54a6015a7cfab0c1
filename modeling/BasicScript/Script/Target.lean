import BasicScript.Fault
import BasicScript.Script.FixedLines
import BasicScript.Text.Join

/-!
# Targets

A program is generated for Node or for a browser.  The body is the same; the lines around it differ.
-/

namespace BasicScript

/-- Where a generated program runs. -/
inductive Target where
  | node
  | web
deriving Repr, DecidableEq

namespace Target

def name : Target → String
  | node => "node"
  | web => "web"

def ofName (name : String) : Except Fault Target :=
  if name = "node" then .ok node
  else if name = "web" then .ok web
  else .error (.target name)

open Script

/-- The lines for input and output. -/
def runtimeLines : Target → List String
  | node => nodeLines
  | web => webLines

/-- The line of a program that holds its data. -/
def dataLine (values : List String) : String :=
  "const _DATA = [" ++ Text.commas values ++ "];"

/-- The lines in front of the body. -/
def preamble (target : Target) (values : List String) : List String :=
  headerLines ++ [""] ++ target.runtimeLines ++ [""] ++
    [dataLine values, "let _DATA_PTR = 0;", ""] ++ commonLines ++ [""] ++ bodyOpening

/-- The lines behind the body. -/
def postamble : Target → List String
  | node => catchLines ++ [exitCodeLine] ++ finallyLines ++ [closeInputLine] ++ closingLines
  | web => catchLines ++ finallyLines ++ closingLines

/-- A whole program around a body. -/
def program (target : Target) (values body : List String) : String :=
  Text.joinWith "\n" (target.preamble values ++ body ++ target.postamble)

end Target

end BasicScript
