import BasicScript.Diagnostic
import BasicScript.Sequence

/-!
# Collected diagnostics

The diagnostics of one compilation, in the order in which they were found.
-/

namespace BasicScript

/-- Diagnostics in order of arrival. -/
structure Collector where
  entries : Array Diagnostic := #[]
deriving Repr

namespace Collector

def empty : Collector := {}

def add (c : Collector) (d : Diagnostic) : Collector :=
  ⟨c.entries.push d⟩

def addAll (c : Collector) (ds : List Diagnostic) : Collector :=
  ds.foldl add c

def toList (c : Collector) : List Diagnostic := c.entries.toList

def size (c : Collector) : Nat := c.entries.size

def errorCount (c : Collector) : Nat := c.toList.countP (·.isError)

def warningCount (c : Collector) : Nat := c.toList.countP (·.isWarning)

def hasErrors (c : Collector) : Bool := 0 < c.errorCount

def ofSeverity (c : Collector) (severity : Severity) : List Diagnostic :=
  c.toList.filter (·.severity = severity)

/-- The collector with a further suggestion on the diagnostic at a signed position, and that
diagnostic. -/
def suggest? (c : Collector) (position : Int) (text : String) :
    Option (Diagnostic × Collector) := do
  let place ← Sequence.resolve c.size position
  let d ← c.entries[place]?
  let d := d.suggesting text
  return (d, ⟨c.entries.setIfInBounds place d⟩)

/-- A report for people. -/
def report (c : Collector) : String :=
  if c.toList.isEmpty then "No issues found"
  else
    c.toList.foldl (fun out d => out ++ d.report ++ "\n\n")
      ("Found " ++ toString c.errorCount ++ " error(s) and " ++ toString c.warningCount ++
        " warning(s):\n\n")

@[simp] theorem toList_empty : empty.toList = [] := rfl

@[simp] theorem toList_add (c : Collector) (d : Diagnostic) :
    (c.add d).toList = c.toList ++ [d] := by
  simp [add, toList]

@[simp] theorem toList_addAll (c : Collector) (ds : List Diagnostic) :
    (c.addAll ds).toList = c.toList ++ ds := by
  induction ds generalizing c with
  | nil => simp [addAll]
  | cons d ds ih => simpa [addAll] using ih (c.add d)

end Collector

end BasicScript
