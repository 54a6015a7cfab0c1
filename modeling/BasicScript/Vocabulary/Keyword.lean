import BasicScript.Text.Case

/-!
# Keywords

The reserved words of QBasic and QB64, in capital letters.  A word of the source is a keyword when
its capital form is one of them.
-/

namespace BasicScript.Vocabulary

def consoleWords : List String :=
  ["PRINT", "INPUT", "CLS", "LOCATE", "COLOR", "SCREEN", "WIDTH", "WRITE", "INKEY$", "CSRLIN",
   "POS", "SPC", "TAB", "USING", "LPRINT", "VIEW"]

def flowWords : List String :=
  ["IF", "THEN", "ELSE", "ELSEIF", "END", "SELECT", "CASE", "IS", "FOR", "TO", "STEP", "NEXT",
   "DO", "LOOP", "WHILE", "WEND", "UNTIL", "EXIT", "GOTO", "GOSUB", "RETURN", "ON", "STOP",
   "SYSTEM", "RUN", "CHAIN", "COMMON", "SLEEP", "CONTINUE"]

def procedureWords : List String :=
  ["SUB", "FUNCTION", "CALL", "DECLARE", "SHARED", "STATIC", "BYVAL", "BYREF"]

def dataWords : List String :=
  ["DIM", "REDIM", "CONST", "LET", "AS", "DATA", "READ", "RESTORE", "TYPE", "SWAP", "ERASE",
   "OPTION", "BASE", "PRESERVE", "LSET", "RSET", "MID$", "DEF", "FN"]

def typeWords : List String :=
  ["INTEGER", "LONG", "SINGLE", "DOUBLE", "STRING", "ANY", "_BIT", "_BYTE", "_INTEGER64",
   "_FLOAT", "_UNSIGNED", "_OFFSET", "_MEM"]

def logicalWords : List String :=
  ["AND", "OR", "NOT", "XOR", "MOD"]

/-- Words of comments, sound and ports. -/
def deviceWords : List String :=
  ["REM", "BEEP", "SOUND", "PLAY", "WAIT", "OUT", "RANDOMIZE"]

def fileWords : List String :=
  ["OPEN", "CLOSE", "GET", "PUT", "SEEK", "LOF", "LOC", "EOF", "FREEFILE", "LOCK", "UNLOCK",
   "NAME", "KILL", "MKDIR", "RMDIR", "CHDIR", "FILES", "FIELD", "RESET", "BINARY", "RANDOM",
   "APPEND", "OUTPUT", "ACCESS", "LEN", "LINE"]

def graphicsWords : List String :=
  ["PSET", "PRESET", "CIRCLE", "PAINT", "DRAW", "WINDOW", "PALETTE", "PCOPY", "BLOAD", "BSAVE"]

def errorWords : List String :=
  ["ERROR", "RESUME", "ERR", "ERL"]

def memoryWords : List String :=
  ["PEEK", "POKE", "VARPTR", "VARSEG", "SADD"]

/-- Words that set a default type by letter. -/
def defaultTypeWords : List String :=
  ["DEFINT", "DEFLNG", "DEFSNG", "DEFDBL", "DEFSTR"]

/-- Screen and window words of QB64. -/
def screenWords : List String :=
  ["_TITLE", "_FULLSCREEN", "_NEWIMAGE", "_LOADIMAGE", "_FREEIMAGE", "_COPYIMAGE", "_PUTIMAGE",
   "_DEST", "_SOURCE", "_DISPLAY", "_AUTODISPLAY", "_LIMIT", "_DELAY", "_WIDTH", "_HEIGHT",
   "_RESIZE", "_SCREENMOVE", "_PRINTSTRING", "_FONT", "_FONTWIDTH", "_FONTHEIGHT"]

/-- Colour words of QB64. -/
def colorWords : List String :=
  ["_RGB", "_RGBA", "_RGB32", "_RGBA32", "_RED", "_GREEN", "_BLUE", "_ALPHA", "_RED32",
   "_GREEN32", "_BLUE32", "_ALPHA32", "_CLEARCOLOR", "_SETALPHA"]

/-- Keyboard and mouse words of QB64. -/
def inputWords : List String :=
  ["_KEYHIT", "_KEYDOWN", "_KEYCLEAR", "_MOUSEINPUT", "_MOUSEX", "_MOUSEY", "_MOUSEBUTTON",
   "_MOUSEWHEEL", "_MOUSEMOVE", "_MOUSESHOW", "_MOUSEHIDE"]

/-- Sound words of QB64. -/
def soundWords : List String :=
  ["_SNDOPEN", "_SNDPLAY", "_SNDSTOP", "_SNDCLOSE", "_SNDVOL", "_SNDPAUSE", "_SNDPLAYING",
   "_SNDLOOP", "_SNDLEN", "_SNDGETPOS", "_SNDSETPOS"]

/-- System words of QB64. -/
def systemWords : List String :=
  ["_CLIPBOARD$", "_CONSOLE", "_CONSOLETITLE", "_EXIT", "_FILEEXISTS", "_DIREXISTS", "_CWD$",
   "_OS$", "_SHELL", "_BIN$", "_INSTRREV", "_TRIM$", "_EXPLICIT", "_CONTINUE"]

/-- Mathematical words of QB64. -/
def mathWords : List String :=
  ["_PI", "_ROUND", "_D2R", "_D2G", "_R2D", "_R2G", "_G2D", "_G2R", "_ATAN2", "_ASIN", "_ACOS",
   "_COSH", "_SINH", "_TANH", "_SECH", "_CSCH", "_COTH", "_ARCSEC", "_ARCCSC", "_ARCCOT", "_SEC",
   "_CSC", "_COT", "_HYPOT", "_CEIL"]

/-- Conversion words of QB64. -/
def conversionWords : List String :=
  ["_CV", "_MK$"]

/-- Clock words of QB64. -/
def clockWords : List String :=
  ["_TIMER", "_YEAR", "_MONTH", "_DAY", "_HOUR", "_MINUTE", "_SECOND", "_WEEKDAY"]

/-- All reserved words. -/
def keywords : List String :=
  consoleWords ++ flowWords ++ procedureWords ++ dataWords ++ typeWords ++ logicalWords ++
  deviceWords ++ fileWords ++ graphicsWords ++ errorWords ++ memoryWords ++
  defaultTypeWords ++ screenWords ++ colorWords ++ inputWords ++ soundWords ++
  systemWords ++ mathWords ++ conversionWords ++ clockWords

/-- Whether a word is reserved, without regard to case. -/
def isKeyword (word : String) : Bool :=
  keywords.contains (Text.upper word)

end BasicScript.Vocabulary
