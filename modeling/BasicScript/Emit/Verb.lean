import BasicScript.Emit.Declaration
import BasicScript.Emit.File
import BasicScript.Emit.Flow
import BasicScript.Emit.Graphics
import BasicScript.Emit.Procedure

/-!
# Verbs

The keywords that begin a statement, and what each of them does.
-/

namespace BasicScript

/-- What the keyword of a statement asks for. -/
inductive Verb where
  /-- The statement has no effect on the program that is generated. -/
  | ignored
  /-- The statement cannot be generated. -/
  | unsupported
  /-- The statement is one fixed line. -/
  | fixed (text : String)
  /-- The statement is one fixed line, and its argument does not matter. -/
  | bare (text : String)
  /-- The statement has one argument, between two texts. -/
  | unary (front back : String)
  /-- The statement has one argument that may be left out. -/
  | optional (front default back : String)
  /-- The statement is a call with two arguments that may be left out. -/
  | pair (callee : String)
  /-- The statement colours one point. -/
  | pixel (callee : String)
  /-- The statement closes a block. -/
  | closing (kind : BlockKind)
  | procedure (kind : ProcedureKind)
  | print | write | input | line | screen | sound
  | ifThen | elseIf | elseBranch | ends | counts | next | repeats | loops | whiles | selects | cases
  | exit | system
  | dim | redim | common | const | type | data | read | restore | swap | erase | assign | define
  | randomize
  | call | goto | gosub | returns | on | resume
  | circle | getImage | putImage | drawImage | printString | openFile | closeFile
deriving Repr, DecidableEq

namespace Verb

def ignoredWords : List String :=
  ["DECLARE", "DEFINT", "DEFLNG", "DEFSNG", "DEFDBL", "DEFSTR", "OPTION", "_EXPLICIT"]

/-- Keywords of statements that cannot be generated. -/
def unsupportedWords : List String :=
  ["LPRINT", "VIEW", "WAIT", "OUT", "POKE", "PAINT", "DRAW", "PALETTE", "PCOPY", "BLOAD", "BSAVE",
    "WINDOW", "LOCK", "UNLOCK", "NAME", "KILL", "MKDIR", "RMDIR", "CHDIR",
    "FILES", "FIELD", "RESET", "SEEK", "CHAIN", "RUN", "LSET", "RSET", "MID$",
    "_FULLSCREEN", "_DEST", "_SOURCE", "_AUTODISPLAY", "_SCREENMOVE", "_FONT", "_CLEARCOLOR",
    "_SETALPHA", "_MOUSEMOVE", "_SNDSTOP", "_SNDVOL", "_SNDPAUSE", "_SNDSETPOS", "_CONSOLE",
    "_CONSOLETITLE", "_SHELL", "_RESIZE"]

def words : List (String × Verb) :=
  [("PRINT", print), ("WRITE", write), ("INPUT", input), ("LINE", line), ("CLS", bare "_cls();"),
    ("LOCATE", pair "_locate"), ("COLOR", pair "_color"), ("SCREEN", screen),
    ("WIDTH", pair "_width"), ("BEEP", fixed "await _beep();"), ("SOUND", sound),
    ("PLAY", unary "await _play(" ");"), ("SLEEP", optional "await _sleep(" "1" " * 1000);"),
    ("_DELAY", unary "await _sleep(" " * 1000);"), ("_LIMIT", unary "await _limit(" ");"),
    ("_DISPLAY", fixed "_display();"), ("_TITLE", unary "_title(" ");"),
    ("IF", ifThen), ("ELSEIF", elseIf), ("ELSE", elseBranch), ("END", ends), ("FOR", counts),
    ("NEXT", next), ("DO", repeats), ("LOOP", loops), ("WHILE", whiles),
    ("WEND", closing .whileLoop), ("SELECT", selects), ("CASE", cases), ("EXIT", exit),
    ("CONTINUE", fixed "continue;"), ("_CONTINUE", fixed "continue;"),
    ("STOP", fixed "throw \"STOP\";"), ("SYSTEM", system),
    ("DIM", dim), ("REDIM", redim), ("STATIC", dim), ("COMMON", common), ("CONST", const),
    ("TYPE", type), ("DATA", data), ("READ", read), ("RESTORE", restore),
    ("SWAP", swap), ("ERASE", erase), ("LET", assign), ("DEF", define), ("RANDOMIZE", randomize),
    ("SUB", procedure .sub), ("FUNCTION", procedure .function), ("CALL", call), ("GOTO", goto),
    ("GOSUB", gosub), ("RETURN", returns), ("ON", on), ("RESUME", resume),
    ("ERROR", unary "throw new Error(\"Error \" + " ");"),
    ("PSET", pixel "_pset"), ("PRESET", pixel "_preset"), ("CIRCLE", circle), ("GET", getImage),
    ("PUT", putImage), ("_PUTIMAGE", drawImage), ("_PRINTSTRING", printString),
    ("_FREEIMAGE", optional "_freeimage(" "undefined" ");"),
    ("_MOUSEHIDE", fixed "_mousehide();"),
    ("_MOUSESHOW", optional "_mouseshow(" "\"default\"" ");"), ("_KEYCLEAR", bare "_keyclear();"),
    ("_SNDPLAY", unary "_sndplay(" ");"), ("_SNDLOOP", unary "_sndloop(" ");"),
    ("_SNDCLOSE", unary "_sndclose(" ");"), ("OPEN", openFile), ("CLOSE", closeFile)]

def ofWord? (word : String) : Option Verb :=
  match words.lookup word with
  | some verb => some verb
  | none =>
    if ignoredWords.contains word then some ignored
    else if unsupportedWords.contains word then some unsupported
    else none

/-- Whether the end of the statement must follow.  Behind `ELSE` another statement may. -/
def needsEnd (verb : Verb) : Bool := verb ≠ elseBranch

open Emit

/-- Emits a comment for a statement that cannot be generated. -/
def runUnsupported (token : Token) : Emit Unit := do
  skipStatement
  warnAt token (token.text ++ " is not supported by the JavaScript transpiler; statement ignored")
  Emit.line ("// " ++ token.text ++ " (unsupported)")

/-- Compiles a statement behind its keyword `token`.  `statement` is the action for the statements
inside it. -/
def run (statement : Emit Bool) (token : Token) : Verb → Emit Unit
  | ignored => skipStatement
  | unsupported => runUnsupported token
  | fixed text => Emit.line text
  | bare text => bareStatement text
  | unary front back => unaryStatement front back
  | optional front default back => defaultStatement front default back
  | pair callee => pairStatement callee
  | pixel callee => pixelStatement callee
  | closing kind => closeStatement kind token
  | procedure kind => procedureStatement kind token
  | print => printStatement token
  | write => writeStatement
  | input => inputStatement
  | line => lineStatement
  | screen => screenStatement
  | sound => soundStatement
  | ifThen => ifStatement statement token
  | elseIf => elseIfStatement token
  | elseBranch => elseStatement token
  | ends => endKeyword token
  | counts => forStatement token
  | next => nextStatement token
  | repeats => doStatement token
  | loops => loopStatement token
  | whiles => whileStatement token
  | selects => selectStatement token
  | cases => caseStatement token
  | exit => exitStatement
  | system => systemStatement
  | dim => dimStatement
  | redim => redimStatement
  | common => commonStatement token
  | const => constStatement
  | type => typeStatement token
  | data => dataStatement
  | read => readStatement
  | restore => restoreStatement
  | swap => swapStatement
  | erase => eraseStatement
  | assign => assignment
  | define => defStatement
  | randomize => randomizeStatement
  | call => callStatement
  | goto => gotoStatement
  | gosub => gosubStatement
  | returns => returnStatement
  | on => onStatement token
  | resume => resumeStatement
  | circle => circleStatement
  | getImage => getStatement token
  | putImage => putStatement token
  | drawImage => putImageStatement
  | printString => printStringStatement
  | openFile => openStatement
  | closeFile => closeFileStatement

end Verb

end BasicScript
