import BasicScript.Vocabulary.Builtin

/-!
# The builtin functions

The builtin functions of QBasic and QB64, by what they are about.
-/

namespace BasicScript.Vocabulary

/-- Rounding to the nearest whole number, a half to the even one. -/
def roundHalfEven : String :=
  "v => \x7b const s = v < 0 ? -1 : 1; const x = Math.abs(v); const r = Math.round(x); " ++
  "return (x % 1 === 0.5 ? r - (r % 2) : r) * s; \x7d"

/-- The seconds since midnight. -/
def secondsOfDay : String :=
  "() => \x7b const d = new Date(); return d.getHours() * 3600 + d.getMinutes() * 60 + " ++
  "d.getSeconds() + d.getMilliseconds() / 1000; \x7d"

def mathRows : List Builtin :=
  [⟨"ABS", "Math.abs", 1, 1⟩,
   ⟨"ATN", "Math.atan", 1, 1⟩,
   ⟨"COS", "Math.cos", 1, 1⟩,
   ⟨"EXP", "Math.exp", 1, 1⟩,
   ⟨"INT", "Math.floor", 1, 1⟩,
   ⟨"FIX", "Math.trunc", 1, 1⟩,
   ⟨"LOG", "Math.log", 1, 1⟩,
   ⟨"RND", "Math.random", 0, 1⟩,
   ⟨"SGN", "Math.sign", 1, 1⟩,
   ⟨"SIN", "Math.sin", 1, 1⟩,
   ⟨"SQR", "Math.sqrt", 1, 1⟩,
   ⟨"TAN", "Math.tan", 1, 1⟩]

def conversionRows : List Builtin :=
  [⟨"CINT", roundHalfEven, 1, 1⟩,
   ⟨"CLNG", roundHalfEven, 1, 1⟩,
   ⟨"CSNG", "Number", 1, 1⟩,
   ⟨"CDBL", "Number", 1, 1⟩,
   ⟨"CBOOL", "v => v ? -1 : 0", 1, 1⟩]

def stringRows : List Builtin :=
  [⟨"LEN", "s => String(s).length", 1, 1⟩,
   ⟨"ASC", "s => String(s).charCodeAt(0) || 0", 1, 1⟩,
   ⟨"CHR$", "String.fromCharCode", 1, 1⟩,
   ⟨"VAL",
      "s => \x7b const n = parseFloat(String(s).trim()); return isNaN(n) ? 0 : n; \x7d",
      1, 1⟩,
   ⟨"STR$", "n => n >= 0 ? \" \" + String(n) : String(n)", 1, 1⟩,
   ⟨"HEX$", "n => Math.abs(Math.floor(n)).toString(16).toUpperCase()", 1, 1⟩,
   ⟨"OCT$", "n => Math.abs(Math.floor(n)).toString(8)", 1, 1⟩,
   ⟨"BIN$", "n => Math.abs(Math.floor(n)).toString(2)", 1, 1⟩,
   ⟨"_BIN$", "n => Math.abs(Math.floor(n)).toString(2)", 1, 1⟩,
   ⟨"LEFT$", "(s, n) => String(s).slice(0, Math.max(0, n))", 2, 2⟩,
   ⟨"RIGHT$",
      "(s, n) => \x7b s = String(s); return n >= s.length ? s : n <= 0 ? \"\" : s.slice(-n); " ++
      "\x7d",
      2, 2⟩,
   ⟨"MID$",
      "(s, start, len) => \x7b s = String(s); return len !== undefined ? s.slice(start - 1, " ++
      "start - 1 + len) : s.slice(start - 1); \x7d",
      2, 3⟩,
   ⟨"UCASE$", "s => String(s).toUpperCase()", 1, 1⟩,
   ⟨"LCASE$", "s => String(s).toLowerCase()", 1, 1⟩,
   ⟨"LTRIM$", "s => String(s).trimStart()", 1, 1⟩,
   ⟨"RTRIM$", "s => String(s).trimEnd()", 1, 1⟩,
   ⟨"_TRIM$", "s => String(s).trim()", 1, 1⟩,
   ⟨"INSTR", "INSTR", 2, 3⟩,
   ⟨"_INSTRREV",
      "(s, find, start) => \x7b s = String(s); return start === undefined ? " ++
      "s.lastIndexOf(find) + 1 : s.lastIndexOf(find, start - 1) + 1; \x7d",
      2, 3⟩,
   ⟨"SPACE$", "n => \" \".repeat(Math.max(0, Math.floor(n)))", 1, 1⟩,
   ⟨"STRING$",
      "(n, c) => \x7b const ch = typeof c === \"string\" ? c.charAt(0) : " ++
      "String.fromCharCode(c); return ch.repeat(Math.max(0, Math.floor(n))); \x7d",
      2, 2⟩,
   ⟨"SPC", "n => \" \".repeat(Math.max(0, Math.floor(n)))", 1, 1⟩,
   ⟨"TAB", "n => \" \".repeat(Math.max(0, Math.floor(n) - 1))", 1, 1⟩,
   ⟨"LSET", "(str, len) => String(str).padEnd(len).slice(0, len)", 2, 2⟩,
   ⟨"RSET", "(str, len) => String(str).padStart(len).slice(-len)", 2, 2⟩,
   ⟨"INPUT$", "(n, filenum) => \x7b throw new Error(\"INPUT$ requires file I/O\"); \x7d", 1, 2⟩]

def clockRows : List Builtin :=
  [⟨"TIMER", secondsOfDay, 0, 0⟩,
   ⟨"_TIMER", secondsOfDay, 0, 1⟩,
   ⟨"DATE$",
      "() => \x7b const d = new Date(); return String(d.getMonth() + 1).padStart(2, \"0\") + " ++
      "\"-\" + String(d.getDate()).padStart(2, \"0\") + \"-\" + d.getFullYear(); \x7d",
      0, 0⟩,
   ⟨"TIME$",
      "() => \x7b const d = new Date(); return String(d.getHours()).padStart(2, \"0\") + " ++
      "\":\" + String(d.getMinutes()).padStart(2, \"0\") + \":\" + " ++
      "String(d.getSeconds()).padStart(2, \"0\"); \x7d",
      0, 0⟩,
   ⟨"_YEAR",
      "ts => ts !== undefined ? new Date(ts * 86400000).getFullYear() : new " ++
      "Date().getFullYear()",
      0, 1⟩,
   ⟨"_MONTH",
      "ts => ts !== undefined ? new Date(ts * 86400000).getMonth() + 1 : new " ++
      "Date().getMonth() + 1",
      0, 1⟩,
   ⟨"_DAY",
      "ts => ts !== undefined ? new Date(ts * 86400000).getDate() : new Date().getDate()",
      0, 1⟩,
   ⟨"_HOUR",
      "ts => ts !== undefined ? Math.floor((ts % 86400) / 3600) : new Date().getHours()",
      0, 1⟩,
   ⟨"_MINUTE",
      "ts => ts !== undefined ? Math.floor((ts % 3600) / 60) : new Date().getMinutes()",
      0, 1⟩,
   ⟨"_SECOND", "ts => ts !== undefined ? Math.floor(ts % 60) : new Date().getSeconds()", 0, 1⟩,
   ⟨"_WEEKDAY",
      "ts => ts !== undefined ? new Date(ts * 86400000).getDay() + 1 : new Date().getDay() + 1",
      0, 1⟩]

/-- Mathematics of QB64. -/
def extendedMathRows : List Builtin :=
  [⟨"_PI", "m => m !== undefined ? Math.PI * m : Math.PI", 0, 1⟩,
   ⟨"_D2R", "d => d * Math.PI / 180", 1, 1⟩,
   ⟨"_R2D", "r => r * 180 / Math.PI", 1, 1⟩,
   ⟨"_D2G", "d => d * 10 / 9", 1, 1⟩,
   ⟨"_G2D", "g => g * 9 / 10", 1, 1⟩,
   ⟨"_R2G", "r => r * 200 / Math.PI", 1, 1⟩,
   ⟨"_G2R", "g => g * Math.PI / 200", 1, 1⟩,
   ⟨"_ROUND",
      "(n, places) => \x7b if (places === undefined) return Math.round(n); const f = " ++
      "Math.pow(10, places); return Math.round(n * f) / f; \x7d",
      1, 2⟩,
   ⟨"_CEIL", "Math.ceil", 1, 1⟩,
   ⟨"_ATAN2", "Math.atan2", 2, 2⟩,
   ⟨"_ASIN", "Math.asin", 1, 1⟩,
   ⟨"_ACOS", "Math.acos", 1, 1⟩,
   ⟨"_COSH", "Math.cosh", 1, 1⟩,
   ⟨"_SINH", "Math.sinh", 1, 1⟩,
   ⟨"_TANH", "Math.tanh", 1, 1⟩,
   ⟨"_HYPOT", "Math.hypot", 2, 2⟩,
   ⟨"_SEC", "x => 1 / Math.cos(x)", 1, 1⟩,
   ⟨"_CSC", "x => 1 / Math.sin(x)", 1, 1⟩,
   ⟨"_COT", "x => 1 / Math.tan(x)", 1, 1⟩,
   ⟨"_SECH", "x => 1 / Math.cosh(x)", 1, 1⟩,
   ⟨"_CSCH", "x => 1 / Math.sinh(x)", 1, 1⟩,
   ⟨"_COTH", "x => 1 / Math.tanh(x)", 1, 1⟩,
   ⟨"_ARCSEC", "x => Math.acos(1 / x)", 1, 1⟩,
   ⟨"_ARCCSC", "x => Math.asin(1 / x)", 1, 1⟩,
   ⟨"_ARCCOT", "x => Math.PI / 2 - Math.atan(x)", 1, 1⟩]

def arrayRows : List Builtin :=
  [⟨"LBOUND", "(arr, dim) => 0", 1, 2⟩,
   ⟨"UBOUND",
      "(arr, dim) => \x7b let a = arr; for (let i = 1; i < (dim || 1); i++) a = a[0]; return " ++
      "a.length - 1; \x7d",
      1, 2⟩]

/-- The surroundings of the program. -/
def systemRows : List Builtin :=
  [⟨"ENVIRON$",
      "key => typeof process !== \"undefined\" && process.env ? process.env[key] || \"\" : \"\"",
      1, 1⟩,
   ⟨"COMMAND$",
      "() => typeof process !== \"undefined\" && process.argv ? " ++
      "process.argv.slice(2).join(\" \") : \"\"",
      0, 0⟩,
   ⟨"_FILEEXISTS", "f => 0", 1, 1⟩,
   ⟨"_DIREXISTS", "d => 0", 1, 1⟩,
   ⟨"_CWD$", "() => typeof process !== \"undefined\" ? process.cwd() : \"/\"", 0, 0⟩,
   ⟨"_OS$", "() => typeof process !== \"undefined\" ? process.platform : \"web\"", 0, 0⟩,
   ⟨"_CLIPBOARD$", "() => \"\"", 0, 0⟩]

/-- The state of open files. -/
def fileRows : List Builtin :=
  [⟨"FREEFILE", "() => _nextFileNum++", 0, 0⟩,
   ⟨"EOF", "n => _files[n]?.eof ?? true", 1, 1⟩,
   ⟨"LOF", "n => _files[n]?.data?.length ?? 0", 1, 1⟩,
   ⟨"LOC", "n => _files[n]?.pos ?? 0", 1, 1⟩]

def truthRows : List Builtin :=
  [⟨"TRUE", "() => -1", 0, 0⟩,
   ⟨"FALSE", "() => 0", 0, 0⟩]

def deviceRows : List Builtin :=
  [⟨"INKEY$", "INKEY", 0, 0⟩,
   ⟨"_KEYHIT", "_keyhit", 0, 0⟩,
   ⟨"_KEYDOWN", "_keydown", 1, 1⟩,
   ⟨"_MOUSEINPUT", "_mouseinput", 0, 0⟩,
   ⟨"_MOUSEX", "_mousex", 0, 0⟩,
   ⟨"_MOUSEY", "_mousey", 0, 0⟩,
   ⟨"_MOUSEBUTTON", "_mousebutton", 1, 1⟩,
   ⟨"_MOUSEWHEEL", "_mousewheel", 0, 0⟩,
   ⟨"CSRLIN", "() => _cursorRow", 0, 0⟩,
   ⟨"POS", "n => _cursorCol", 0, 1⟩]

def colorRows : List Builtin :=
  [⟨"_RGB", "(r, g, b) => ((255 << 24) | (r << 16) | (g << 8) | b) >>> 0", 3, 4⟩,
   ⟨"_RGBA", "(r, g, b, a) => ((a << 24) | (r << 16) | (g << 8) | b) >>> 0", 4, 5⟩,
   ⟨"_RGB32", "(r, g, b) => ((255 << 24) | (r << 16) | (g << 8) | b) >>> 0", 3, 3⟩,
   ⟨"_RGBA32", "(r, g, b, a) => ((a << 24) | (r << 16) | (g << 8) | b) >>> 0", 4, 4⟩,
   ⟨"_RED", "c => (c >> 16) & 0xFF", 1, 2⟩,
   ⟨"_GREEN", "c => (c >> 8) & 0xFF", 1, 2⟩,
   ⟨"_BLUE", "c => c & 0xFF", 1, 2⟩,
   ⟨"_ALPHA", "c => (c >> 24) & 0xFF", 1, 2⟩,
   ⟨"_RED32", "c => (c >> 16) & 0xFF", 1, 1⟩,
   ⟨"_GREEN32", "c => (c >> 8) & 0xFF", 1, 1⟩,
   ⟨"_BLUE32", "c => c & 0xFF", 1, 1⟩,
   ⟨"_ALPHA32", "c => (c >> 24) & 0xFF", 1, 1⟩]

def imageRows : List Builtin :=
  [⟨"_WIDTH", "img => _screenWidth", 0, 1⟩,
   ⟨"_HEIGHT", "img => _screenHeight", 0, 1⟩,
   ⟨"_FONTWIDTH", "f => 8", 0, 1⟩,
   ⟨"_FONTHEIGHT", "f => 16", 0, 1⟩,
   ⟨"_NEWIMAGE", "_newimage", 2, 3⟩,
   ⟨"_LOADIMAGE", "_loadimage", 1, 2⟩,
   ⟨"_COPYIMAGE", "_copyimage", 0, 1⟩]

/-- Memory access, which a script does not have. -/
def memoryRows : List Builtin :=
  [⟨"PEEK", "addr => 0", 1, 1⟩,
   ⟨"VARPTR", "v => 0", 1, 1⟩,
   ⟨"VARSEG", "v => 0", 1, 1⟩,
   ⟨"SADD", "s => 0", 1, 1⟩]

def soundRows : List Builtin :=
  [⟨"_SNDOPEN", "_sndopen", 1, 2⟩,
   ⟨"_SNDLEN", "handle => 0", 1, 1⟩,
   ⟨"_SNDGETPOS", "handle => 0", 1, 1⟩,
   ⟨"_SNDPLAYING", "handle => 0", 1, 1⟩]

/-- Error trapping, which a script does not have. -/
def errorRows : List Builtin :=
  [⟨"ERR", "() => 0", 0, 0⟩,
   ⟨"ERL", "() => 0", 0, 0⟩,
   ⟨"_EXIT", "() => 0", 0, 0⟩]

/-- Conversion to raw bytes, which a script does not have. -/
def binaryRows : List Builtin :=
  [⟨"_CV", "(type, str) => 0", 2, 2⟩,
   ⟨"_MK$", "(type, value) => \"\"", 2, 2⟩]

/-- All builtin functions. -/
def builtinRows : List Builtin :=
  mathRows ++ conversionRows ++ stringRows ++ clockRows ++ extendedMathRows ++ arrayRows ++
  systemRows ++ fileRows ++ truthRows ++ deviceRows ++ colorRows ++ imageRows ++
  memoryRows ++ soundRows ++ errorRows ++ binaryRows

/-- The builtin functions by name. -/
def builtins : Table Builtin :=
  builtinRows.map fun row => (row.name, row)

/-- The builtin with a name, without regard to case. -/
def builtin? (name : String) : Option Builtin :=
  builtins.get? (Text.upper name)

end BasicScript.Vocabulary
