import BasicScript.Cache
import BasicScript.Emit.Program
import BasicScript.Token.Arena

/-!
# Compiling

From a source to a program with its diagnostics.  A source that cannot be compiled is no fault: it
gives diagnostics.  A compiler keeps counts and an arena for tokens from one source to the next; the
cache stands beside it, because several compilers may share one.
-/

namespace BasicScript

/-! ### One source -/

def Failure.message : Failure → String
  | rejected r => r.display
  | fault f => f.message
  | stalled => "no progress"

/-- What a source becomes: the program, all diagnostics, and the failure that ended the pass. -/
structure Generated where
  code : String
  diagnostics : List Diagnostic
  failure : Option Failure := none
deriving Repr

namespace Generated

/-- What is generated from a source whose pass failed: no program, and one more error. -/
def failed (collector : Collector) (failure : Failure) : Generated :=
  { code := "",
    diagnostics := (collector.add
      { severity := .error, category := .runtime,
        message := "Internal compiler error: " ++ failure.message, line := 1, column := 1 }).toList,
    failure := some failure }

def ofPass : EStateM.Result Failure State Unit → Generated
  | .ok _ state =>
    { code := state.page.output Script.indentUnit, diagnostics := state.collector.toList }
  | .error failure state => failed state.collector failure

def ofScan (target : Target) (scan : Lexer.Scan) : Generated :=
  let collector := Collector.empty.addAll scan.warnings
  match scan.fault with
  | some fault => failed collector (.fault fault)
  | none => ofPass (Emit.passFor target scan.tokens.toArray collector)

end Generated

/-! ### Options and results -/

/-- What can be chosen for a compiler. -/
structure Options where
  target : String := "node"
  cache : Bool := true
  cacheSize : Int := Cache.usualCapacity
  maxErrors : Int := 100
deriving Repr, DecidableEq

/-- The size of a source that was compiled and not found in the cache. -/
structure Measures where
  tokens : Nat
  lines : Nat
deriving Repr, DecidableEq

/-- The result of compiling a source.  Only a fresh result has measures. -/
structure Compilation where
  code : String
  diagnostics : List Diagnostic
  success : Bool
  target : Target
  sourceSize : Nat
  measures : Option Measures
  failure : Option Failure := none
deriving Repr

namespace Compilation

/-- Whether the result comes from the cache. -/
def cached (c : Compilation) : Bool := c.measures.isNone

def errors (c : Compilation) : List Diagnostic := c.diagnostics.filter (·.isError)

def warnings (c : Compilation) : List Diagnostic := c.diagnostics.filter (·.isWarning)

/-- The errors and warnings, in order. -/
def findings (c : Compilation) : List Diagnostic :=
  c.diagnostics.filter fun d => d.isError || d.isWarning

/-- The diagnostics as a report for people. -/
def report (c : Compilation) : String := (Collector.empty.addAll c.diagnostics).report

end Compilation

/-- Diagnostics cut at a limit, with a note on those left out.  The note stands at the last one that
is kept, so there must be one. -/
def limited (limit : Int) (diagnostics : List Diagnostic) : Except Fault (List Diagnostic) :=
  if (diagnostics.length : Int) ≤ limit then .ok diagnostics
  else
    let kept := Sequence.slice diagnostics none (some limit)
    match kept.getLast? with
    | none => .error .position
    | some last =>
      .ok (kept ++ [{ severity := .info, category := .runtime,
                      message := "Too many diagnostics; " ++
                        toString ((diagnostics.length : Int) - limit) ++ " more not shown",
                      line := last.line, column := last.column }])

/-! ### The compiler -/

/-- A compiler: what was chosen for it, its arena, and how many sources it compiled. -/
structure Compiler where
  target : Target
  maxErrors : Int
  arena : Arena := .empty
  compilations : Nat := 0
  failures : Nat := 0
deriving Repr

namespace Compiler

/-- A compiler with some options, beside a cache of its own or another one. -/
def create (options : Options) : Except Fault Compiler := do
  let target ← Target.ofName options.target
  return { target, maxErrors := options.maxErrors }

def createWithCache (options : Options) : Except Fault (Compiler × Cache) := do
  let compiler ← create options
  let cache ← Cache.create options.cacheSize options.cache
  return (compiler, cache)

def lineCount (source : String) : Nat := source.toList.count '\n' + 1

/-- Compiles a source that is not in the cache.  Only a success is kept. -/
def compileFresh (c : Compiler) (cache : Cache) (source : String) (target : Target) :
    Except Fault Compilation × Compiler × Cache :=
  let (scan, arena) := c.arena.reset.scan source
  let c := { c with arena }
  let generated := Generated.ofScan target scan
  match limited c.maxErrors generated.diagnostics with
  | .error fault => (.error fault, c, cache)
  | .ok diagnostics =>
    let success := !diagnostics.any (·.isError)
    let tokens := if scan.fault.isSome then 0 else scan.tokens.length
    let c := { c with compilations := c.compilations + 1,
                      failures := c.failures + (!success).toNat }
    let cache :=
      if success then cache.store source target.name ⟨generated.code, diagnostics⟩ else cache
    (.ok { code := generated.code, diagnostics, success, target, sourceSize := source.length,
           measures := some { tokens, lines := lineCount source },
           failure := generated.failure }, c, cache)

/-- Compiles a source for a known target. -/
def compileFor (c : Compiler) (cache : Cache) (source : String) (target : Target) :
    Except Fault Compilation × Compiler × Cache :=
  match cache.lookup source target.name with
  | (some cached, cache) =>
    (.ok { code := cached.code, diagnostics := cached.diagnostics, success := true, target,
           sourceSize := source.length, measures := none }, c, cache)
  | (none, cache) => c.compileFresh cache source target

/-- Compiles a source, for the compiler's own target if none is named. -/
def compile (c : Compiler) (cache : Cache) (source : String) (target : Option String) :
    Except Fault Compilation × Compiler × Cache :=
  match (target.map Target.ofName).getD (.ok c.target) with
  | .error fault => (.error fault, c, cache)
  | .ok target => c.compileFor cache source target

/-- The errors and warnings of a source. -/
def lint (c : Compiler) (cache : Cache) (source : String) :
    Except Fault (List Diagnostic) × Compiler × Cache :=
  let (result, c, cache) := c.compile cache source none
  (result.map (·.findings), c, cache)

def resetCounts (c : Compiler) : Compiler := { c with compilations := 0, failures := 0 }

/-- The counts for people, with the time that a compilation took on average. -/
def summary (c : Compiler) (cache : Cache) (averageTime : String) : String :=
  "Compilations: " ++ toString c.compilations ++ " (" ++ toString c.failures ++ " failed)\n" ++
    "Average time: " ++ averageTime ++ " ms\n" ++ cache.summary

end Compiler

end BasicScript
