import BasicScript.Emit.Console

/-!
# Graphics

Statements that draw points, lines, circles and images.
-/

namespace BasicScript.Emit

/-! ### Points -/

/-- A point of the screen. -/
structure Point where
  x : String
  y : String

/-- A point in parentheses; `STEP` in front does not matter. -/
def point : Emit Point := do
  let _ ← takeKeyword "STEP"
  let _ ← expectMark "("
  let x ← expression
  let _ ← expectMark ","
  let y ← expression
  let _ ← expectMark ")"
  return { x, y }

def atPoint : Emit Bool := do
  let token ← current
  return token.isMark "(" || token.isKeyword "STEP"

/-- A point behind a dash, if there is one. -/
def pointAfterDash? : Emit (Option Point) := do
  if ← takeOperator "-" then return some (← point) else return none

def absentPoint : Point := { x := absent, y := absent }

/-- An argument behind a comma that may be left out. -/
def colorArgument : Emit String := do
  if ← takeMark "," then expression else return absent

/-- An argument, or nothing before the next comma or the end of the statement. -/
def gapArgument : Emit String := do
  if ← atGap then return absent else expression

/-! ### Drawing -/

/-- `PSET` and `PRESET`. -/
def pixelStatement (callee : String) : Emit Unit := do
  let p ← point
  let color ← colorArgument
  line ("await " ++ callee ++ "(" ++ p.x ++ ", " ++ p.y ++ ", " ++ color ++ ");")

/-- The frame of a line: none, a box or a filled box. -/
def lineFrame : Emit (Bool × Bool) := do
  unless ← takeMark "," do return (false, false)
  let frame ←
    if ← atWord "BF" then
      let _ ← advance
      pure (true, true)
    else if ← atWord "B" then
      let _ ← advance
      pure (true, false)
    else if ← atMark "," then pure (false, false)
    else rejectHere "Expected B or BF"
  if ← takeMark "," then
    let _ ← expression
  return frame

/-- The words for truth values. -/
def truthWord (b : Bool) : String := if b then "true" else "false"

/-- `LINE` between two points. -/
def drawLineStatement : Emit Unit := do
  let start ← if ← atPoint then point else pure { x := "null", y := "null" }
  let _ ← expectOperator "-"
  let stop ← point
  let isMore ← takeMark ","
  let color ← if isMore then gapArgument else pure absent
  let (box, fill) ← if isMore then lineFrame else pure (false, false)
  line ("await _line(" ++ Text.commas [start.x, start.y, stop.x, stop.y, color, truthWord box,
    truthWord fill] ++ ");")

/-- `LINE`, which also begins `LINE INPUT`. -/
def lineStatement : Emit Unit := do
  if ← takeKeyword "INPUT" then lineInputStatement else drawLineStatement

def circleStatement : Emit Unit := do
  let p ← point
  let _ ← expectMark ","
  let radius ← expression
  let more ← if ← takeMark "," then gappedArguments else pure []
  line ("await _circle(" ++ p.x ++ ", " ++ p.y ++ ", " ++ radius ++ ", " ++ more.getD 0 absent ++
    ");")

/-- `GET` and `PUT` on the records of a file. -/
def fileRecordStatement (token : Token) : Emit Unit := do
  skipStatement
  warnAt token (token.text ++ " # record I/O is not supported")
  line ("// " ++ token.text ++ " # (unsupported)")

def getStatement (token : Token) : Emit Unit := do
  if ← atMark "#" then fileRecordStatement token
  else
    let start ← point
    let _ ← expectOperator "-"
    let stop ← point
    let _ ← expectMark ","
    let array ← expectName "array name"
    line ("await _get(" ++ Text.commas [start.x, start.y, stop.x, stop.y,
      Script.literal array.text] ++ ");")

/-- How `PUT` combines an image with what is there. -/
def putAction : Emit String := do
  unless ← takeMark "," do return absent
  let token ← current
  unless token.isWord do rejectHere "Expected PUT action"
  let _ ← advance
  return Script.literal (Text.upper token.text)

def putStatement (token : Token) : Emit Unit := do
  if ← atMark "#" then fileRecordStatement token
  else
    let p ← point
    let _ ← expectMark ","
    let array ← expectName "array name"
    let action ← putAction
    line ("await _put(" ++ Text.commas [p.x, p.y, Script.literal array.text, action] ++ ");")

/-- A corner or two corners of a rectangle. -/
def corners : Emit (Point × Point) := do
  let first ← point
  return (first, (← pointAfterDash?).getD absentPoint)

/-- The last part of `_PUTIMAGE`: the source rectangle behind a comma. -/
def sourceCorners : Emit (Point × Point) := do
  if ← takeMark "," then corners else return (absentPoint, absentPoint)

/-- The target image of `_PUTIMAGE` behind a comma, and the source rectangle. -/
def imageTarget : Emit (String × Point × Point) := do
  unless ← takeMark "," do return (absent, absentPoint, absentPoint)
  let image ← gapArgument
  return (image, ← sourceCorners)

/-- The source image of `_PUTIMAGE` behind a comma, and what follows it. -/
def imageSource : Emit (String × String × Point × Point) := do
  unless ← takeMark "," do return (absent, absent, absentPoint, absentPoint)
  let image ← gapArgument
  return (image, ← imageTarget)

def putImageStatement : Emit Unit := do
  let (d1, d2) ← if ← atPoint then corners else pure (absentPoint, absentPoint)
  let (source, target, s1, s2) ← imageSource
  line ("_putimage(" ++ Text.commas [d1.x, d1.y, d2.x, d2.y, source, target, s1.x, s1.y, s2.x,
    s2.y] ++ ");")

def printStringStatement : Emit Unit := do
  let p ← point
  let _ ← expectMark ","
  let text ← expression
  if ← takeMark "," then
    let _ ← expression
  line ("_printstring(" ++ p.x ++ ", " ++ p.y ++ ", " ++ text ++ ");")

end BasicScript.Emit
