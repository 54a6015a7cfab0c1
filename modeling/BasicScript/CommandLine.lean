import BasicScript.Compiler

/-!
# The command line

What the words of a command ask for, and what the command prints and writes.  Files and streams are
read and written outside: the input comes as bytes, and the outcome says what to write.
-/

namespace BasicScript.CommandLine

def usage : String :=
  "qbnexus [OPTIONS] [INPUT] [-o OUTPUT]\n\n" ++
  "Transpile a QBasic / QB64 program to JavaScript.\n\n" ++
  "Options:\n" ++
  "  --target TARGET     Output flavor: node (default) or web\n" ++
  "  --lint              Report diagnostics only, generate nothing\n" ++
  "  --no-cache          Disable the compilation cache\n" ++
  "  --verbose           Log debug information to stderr\n" ++
  "  -o, --output FILE   Write output to FILE instead of stdout\n" ++
  "  --help              Show this help message\n"

/-! ### Arguments -/

/-- What a command asks for.  Without an input file the standard input is read. -/
structure Settings where
  target : String := "node"
  lint : Bool := false
  cache : Bool := true
  verbose : Bool := false
  input : Option String := none
  output : Option String := none
deriving Repr, DecidableEq

/-- Why a command ends before it reads anything. -/
inductive Stop where
  | help
  | missingValue (flag : String)
  | unknownFlag (flag : String)
  | surplus (word : String)
  | unknownTarget (name : String)
deriving Repr, DecidableEq

/-- Whether a word is a flag.  A lone dash is the standard input. -/
def isFlag (word : String) : Bool :=
  word.toList.head? = some '-' && word ≠ "-"

/-- The settings from the words of a command, on top of some that are known.  The target is checked
last. -/
def settingsFrom (known : Settings) : List String → Except Stop Settings
  | [] =>
    match Target.ofName known.target with
    | .ok _ => .ok known
    | .error _ => .error (.unknownTarget known.target)
  | word :: rest =>
    if word = "--help" ∨ word = "-h" then .error .help
    else if word = "--target" then
      match rest with
      | [] => .error (.missingValue word)
      | value :: rest => settingsFrom { known with target := value } rest
    else if word = "-o" ∨ word = "--output" then
      match rest with
      | [] => .error (.missingValue word)
      | value :: rest => settingsFrom { known with output := some value } rest
    else if word = "--lint" then settingsFrom { known with lint := true } rest
    else if word = "--no-cache" then settingsFrom { known with cache := false } rest
    else if word = "--verbose" then settingsFrom { known with verbose := true } rest
    else if isFlag word then .error (.unknownFlag word)
    else if known.input.isSome then .error (.surplus word)
    else settingsFrom { known with input := if word = "-" then none else some word } rest

def settings (words : List String) : Except Stop Settings := settingsFrom {} words

/-! ### Outcomes -/

/-- What a command comes to: its exit code, what it prints, and a file that it writes. -/
structure Outcome where
  exit : Nat
  stdout : String := ""
  stderr : String := ""
  file : Option (String × String) := none
deriving Repr, DecidableEq

def errorLine (message : String) : String := "error: " ++ message ++ "\n"

/-- The outcome of a command that ends before it reads anything. -/
def Stop.outcome : Stop → Outcome
  | help => { exit := 0, stdout := usage }
  | missingValue flag => { exit := 2, stderr := errorLine (flag ++ " requires an argument") }
  | unknownFlag flag => { exit := 2, stderr := errorLine ("unknown flag '" ++ flag ++ "'") }
  | surplus word => { exit := 2, stderr := errorLine ("unexpected argument '" ++ word ++ "'") }
  | unknownTarget name => { exit := 2, stderr := errorLine ("unknown target '" ++ name ++ "'") }

/-- The outcome where the input file cannot be read. -/
def unreadable (name : String) : Outcome :=
  { exit := 1, stderr := errorLine ("cannot open '" ++ name ++ "'") }

/-- The outcome where the output file cannot be written, after what the command printed so far. -/
def unwritable (outcome : Outcome) (name : String) : Outcome :=
  { exit := 1, stdout := outcome.stdout,
    stderr := outcome.stderr ++ errorLine ("cannot write '" ++ name ++ "'") }

/-- A file name must not hold a NUL character. -/
def checkName (name : String) : Except Fault Unit :=
  if name.toList.contains '\x00' then .error .nulInName else .ok ()

/-! ### Input -/

/-- The mark that may stand in front of a text. -/
def byteOrderMark : List UInt8 := [0xef, 0xbb, 0xbf]

/-- The text of some bytes without a byte order mark, if they are valid UTF-8. -/
def decode? (bytes : ByteArray) : Option String :=
  let start := if bytes.toList.take 3 = byteOrderMark then 3 else 0
  String.fromUTF8? (bytes.extract start bytes.size)

/-! ### Running -/

def logLine (part message : String) : String := "DEBUG qbnexus." ++ part ++ ": " ++ message ++ "\n"

/-- What is logged while a source is compiled.  `time` is the time that it took. -/
def compileLog (s : Settings) (source : String) (result : Compilation) (time : String) : String :=
  let failed :=
    if result.failure.isSome then "ERROR qbnexus.compiler: internal compiler error\n" else ""
  if s.verbose then
    (if s.cache then logLine "cache" ("cache miss " ++ Cache.key source result.target.name)
      else "") ++
      failed ++
      logLine "compiler" ("compiled " ++ toString result.sourceSize ++ " bytes for " ++
        result.target.name ++ " in " ++ time ++ " ms (" ++ toString result.diagnostics.length ++
        " diagnostics)")
  else failed

/-- The errors and warnings, each on a line. -/
def findingLines (result : Compilation) : String :=
  String.join (result.findings.map fun d => d.brief ++ "\n")

/-- What is done with the program: it is printed or goes to a file. -/
def deliver (s : Settings) (result : Compilation) (stderr : String) : Except Fault Outcome :=
  if !result.success then .ok { exit := 1, stderr }
  else if s.lint then .ok { exit := 0, stderr }
  else
    match s.output with
    | some name =>
      (checkName name).map fun _ => { exit := 0, stderr, file := some (name, result.code ++ "\n") }
    | none => .ok { exit := 0, stdout := result.code ++ "\n", stderr }

/-- The outcome of a command on a text.  `time` is the time that compiling took. -/
def compileText (s : Settings) (source : String) (time : String) : Except Fault Outcome := do
  let (compiler, cache) ← Compiler.createWithCache { target := s.target, cache := s.cache }
  let (result, compiler, cache) := compiler.compile cache source none
  let result ← result
  let summary := if s.verbose then logLine "cli" (compiler.summary cache time) else ""
  deliver s result (compileLog s source result time ++ findingLines result ++ summary)

/-- The outcome of a command on the bytes of its input. -/
def run (s : Settings) (bytes : ByteArray) (time : String) : Except Fault Outcome :=
  match decode? bytes with
  | none => .ok { exit := 1, stderr := errorLine "invalid utf-8 in input" }
  | some source =>
    if source.isEmpty then .ok { exit := 2, stderr := errorLine "no input provided" }
    else compileText s source time

end BasicScript.CommandLine
