import BasicScript.CommandLine

/-!
# The program

Reads the input, runs the command on it, and prints and writes the outcome.
-/

namespace BasicScript.CommandLine

/-- The bytes that are left in a stream, behind some that were read. -/
partial def readRest (stream : IO.FS.Stream) (front : ByteArray) : IO ByteArray := do
  let bytes ← stream.read 65536
  if bytes.isEmpty then return front else readRest stream (front ++ bytes)

/-- The bytes of the input, or the outcome where there are none. -/
def readInput (s : Settings) : IO (Except Outcome ByteArray) := do
  match s.input with
  | some name =>
    try
      return .ok (← IO.FS.readBinFile name)
    catch _ => return .error (unreadable name)
  | none => return .ok (← readRest (← IO.getStdin) .empty)

/-- Writes the file of an outcome, and prints what it says. -/
def finish (outcome : Outcome) : IO UInt32 := do
  let outcome ←
    match outcome.file with
    | none => pure outcome
    | some (name, text) =>
      try
        IO.FS.writeFile name text
        pure outcome
      catch _ => pure (unwritable outcome name)
  IO.eprint outcome.stderr
  IO.print outcome.stdout
  return outcome.exit.toUInt32

/-- Prints a fault that ends the program. -/
def fail (fault : Fault) : IO UInt32 := do
  IO.eprintln fault.message
  return 1

/-- Milliseconds with two decimals. -/
def milliseconds (nanoseconds : Nat) : String :=
  (Number.Binary64.ofRatio nanoseconds 1000000).fixed 2

/-- The outcome of a command on the bytes of its input, with the time measured on a first run. -/
def timed (s : Settings) (bytes : ByteArray) : IO (Except Fault Outcome) := do
  let start ← IO.monoNanosNow
  let first ← IO.lazyPure fun _ => run s bytes ""
  let stop ← IO.monoNanosNow
  return if s.verbose then run s bytes (milliseconds (stop - start)) else first

end BasicScript.CommandLine

open BasicScript CommandLine in
def main (words : List String) : IO UInt32 := do
  match settings words with
  | .error stop => finish stop.outcome
  | .ok s =>
    match (s.input.map checkName).getD (.ok ()) with
    | .error fault => fail fault
    | .ok _ =>
      match ← readInput s with
      | .error outcome => finish outcome
      | .ok bytes =>
        match ← timed s bytes with
        | .error fault => fail fault
        | .ok outcome => finish outcome
