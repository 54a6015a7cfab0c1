import BasicScript.Table
import BasicScript.Text.Alphanumeric
import BasicScript.Text.Case
import BasicScript.Text.Join

/-!
# Builtin functions

A builtin is a function of QBasic with the JavaScript expression that is called for it and the
number of arguments that it takes.  A table of builtins is built from rows, each of which is
checked.
-/

namespace BasicScript

structure Builtin where
  name : String
  template : String
  least : Int
  most : Int
deriving Repr, DecidableEq

namespace Builtin

/-- Whether a template is a plain name, with members. -/
def isPlainCallee (template : String) : Bool :=
  template.toList.all (fun c => Text.isAlphanumeric c || c = '_' || c = '.' || c = '$') &&
    !template.toList.isEmpty

/-- What stands in front of the arguments of a call. -/
def callee (b : Builtin) : String :=
  if isPlainCallee b.template then b.template else "(" ++ b.template ++ ")"

def call (b : Builtin) (arguments : List String) : String :=
  b.callee ++ "(" ++ Text.commas arguments ++ ")"

/-- Whether the builtin takes that many arguments. -/
def accepts (b : Builtin) (count : Int) : Bool :=
  b.least ≤ count && count ≤ b.most

/-- The number of arguments in a message. -/
def arityText (b : Builtin) : String :=
  if b.least = b.most then toString b.least else toString b.least ++ " to " ++ toString b.most

/-! ### Checked tables -/

/-- What is wrong with a row of a table. -/
inductive Flaw where
  | notUpperCase (name : String)
  | duplicate (name : String)
  | emptyTemplate (name : String)
  | badArity (name : String)
  | noName
  | badName (name : String)
deriving Repr, DecidableEq

def Flaw.message : Flaw → String
  | notUpperCase name => "builtin name must be upper case: " ++ name
  | duplicate name => "duplicate builtin: " ++ name
  | emptyTemplate name => "empty template for builtin " ++ name
  | badArity name => "bad arity for builtin " ++ name
  | noName => "string index out of range"
  | badName name => "bad builtin name: " ++ name

/-- Type suffixes of a name. -/
def nameSuffixes : List Char := ['$', '%', '&', '!', '#']

/-- The characters of a name without its type suffix; the empty name has none. -/
def nameBody? (name : String) : Option (List Char) :=
  match name.toList.reverse with
  | [] => none
  | last :: front => some (if nameSuffixes.contains last then front.reverse else name.toList)

/-- Whether a name's body is letters, digits and underscores. -/
def isNameBody (body : List Char) : Bool :=
  !body.isEmpty && body.all fun c => Text.isAlphanumeric c || c = '_'

/-- The table with one more row, or the first flaw of that row. -/
def addRow (table : Table Builtin) (row : Builtin) : Except Flaw (Table Builtin) :=
  if row.name ≠ Text.upper row.name then .error (.notUpperCase row.name)
  else if table.holds row.name then .error (.duplicate row.name)
  else if row.template.isEmpty then .error (.emptyTemplate row.name)
  else if row.least < 0 ∨ row.most < row.least then .error (.badArity row.name)
  else
    match nameBody? row.name with
    | none => .error .noName
    | some body =>
      if isNameBody body then .ok (table ++ [(row.name, row)]) else .error (.badName row.name)

/-- The table of some rows, or the first flaw. -/
def buildTable (rows : List Builtin) : Except Flaw (Table Builtin) :=
  rows.foldlM addRow []

end Builtin

end BasicScript
