import BasicScript.Emit.Output
import BasicScript.Script.Number

/-!
# What a program announces

QBasic allows `READ` in front of the `DATA` that it reads, and calls in front of the procedure.  So
all data values and all headers of procedures are collected from the tokens before the pass.
-/

namespace BasicScript.Emit

/-- What some tokens of a program announce. -/
inductive Announcement where
  /-- The items of a `DATA` statement, each as its tokens. -/
  | data (items : List (List Token))
  /-- The header of a procedure. -/
  | header (kind : ProcedureKind) (name : Token) (parameters : Nat)

/-! ### Data -/

/-- Whether a token ends a list of data items. -/
def endsData (token : Token) : Bool := token.endsLine || token.isMark ":"

/-- Tokens cut at their commas. -/
def splitItems : List Token → List (List Token)
  | [] => [[]]
  | token :: rest =>
    if token.isMark "," then [] :: splitItems rest
    else
      match splitItems rest with
      | [] => [[token]]
      | item :: items => (token :: item) :: items

/-- The items of a `DATA` statement, from the tokens behind its keyword. -/
def dataItems (rest : List Token) : List (List Token) :=
  splitItems (rest.takeWhile fun token => !endsData token)

/-- The words of an item as one text. -/
def itemText (item : List Token) : String :=
  Text.joinWith " " (item.map (·.text))

/-- The literal of a data item: a number with an optional sign, else a string. -/
def dataLiteral (item : List Token) : Except Fault String :=
  match item with
  | [token] =>
    if token.kind = .number then Script.number token.text
    else .ok (Script.literal token.text)
  | [sign, token] =>
    if token.kind = .number && sign.isOperator "-" then
      (Script.number token.text).map ("-" ++ ·)
    else if token.kind = .number && sign.isOperator "+" then Script.number token.text
    else .ok (Script.literal (itemText item))
  | _ => .ok (Script.literal (itemText item))

/-! ### Headers -/

/-- The kind of procedure whose header a token begins. -/
def headerKind? (token : Token) : Option ProcedureKind :=
  if token.isKeyword "SUB" then some .sub
  else if token.isKeyword "FUNCTION" then some .function
  else none

/-- Whether a token in front of `SUB` or `FUNCTION` keeps it from beginning a header. -/
def precedesNoHeader (token : Token) : Bool :=
  token.isKeyword "END" || token.isKeyword "EXIT" || token.isKeyword "DECLARE"

/-- The number of parameters: the commas directly in the parentheses, and one more if anything else
stands there.  The list ends with its parenthesis or with the line. -/
def countParameters (depth commas : Nat) (any : Bool) : List Token → Nat
  | [] => commas + any.toNat
  | token :: rest =>
    if token.endsLine then commas + any.toNat
    else if token.isMark "(" then countParameters (depth + 1) commas any rest
    else if token.isMark ")" then
      if depth = 1 then commas + any.toNat else countParameters (depth - 1) commas any rest
    else if depth = 1 then
      if token.isMark "," then countParameters depth (commas + 1) any rest
      else countParameters depth commas true rest
    else countParameters depth commas any rest

/-- The number of parameters of a procedure, from the tokens behind its name. -/
def parameterCount (rest : List Token) : Nat :=
  match rest with
  | token :: _ => if token.isMark "(" then countParameters 0 0 false rest else 0
  | [] => 0

/-- The header that begins with a keyword, from the tokens behind it. -/
def header? (kind : ProcedureKind) (rest : List Token) : Option Announcement :=
  match rest with
  | name :: rest =>
    if name.kind = .identifier then some (.header kind name (parameterCount rest)) else none
  | [] => none

/-! ### Collecting -/

/-- What tokens announce, in order.  `inData` says whether they begin inside a `DATA` statement, and
`front` is the token before them. -/
def announcements (inData : Bool) (front : Option Token) : List Token → List Announcement
  | [] => []
  | token :: rest =>
    if inData then announcements (!endsData token) (some token) rest
    else if token.isKeyword "DATA" then
      .data (dataItems rest) :: announcements true (some token) rest
    else
      match headerKind? token with
      | some kind =>
        if front.any precedesNoHeader then announcements false (some token) rest
        else (header? kind rest).toList ++ announcements false (some token) rest
      | none => announcements false (some token) rest

/-- Takes in an announcement.  A procedure that was announced before is reported. -/
def absorb : Announcement → Emit Unit
  | .data items => do
    let values ← ofExcept (items.mapM dataLiteral)
    modify fun s => { s with dataValues := s.dataValues ++ values }
  | .header kind name parameters => do
    let key := Text.upper name.text
    if (← get).procedures.holds key then
      reportAt name .semantic ("Duplicate definition '" ++ name.text ++ "'")
    else
      let procedure : Procedure :=
        { name := name.text, jsName := Script.mangle name.text, kind, parameters }
      modify fun s => { s with procedures := s.procedures.insert key procedure }

def absorbAll : List Announcement → Emit Unit
  | [] => pure ()
  | announcement :: rest => do
    absorb announcement
    absorbAll rest

/-- Takes in everything that the program announces. -/
def announce : Emit Unit := do
  absorbAll (announcements false none (← read).toList)

end BasicScript.Emit
