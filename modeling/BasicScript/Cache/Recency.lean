import BasicScript.Fault
import BasicScript.Table

/-!
# Tables of bounded size

A table that holds a limited number of entries and drops those that were used the longest time ago.
-/

namespace BasicScript

/-- At most `capacity` entries, the least recently used first, and the number of those dropped. -/
structure Recency (α : Type) where
  capacity : Nat
  entries : Table α := []
  evictions : Nat := 0
deriving Repr

namespace Recency

variable {α : Type}

/-- An empty table.  It must be able to hold an entry. -/
def create (capacity : Int) : Except Fault (Recency α) :=
  if capacity < 1 then .error .capacity else .ok { capacity := capacity.toNat }

/-- The keys, the least recently used first. -/
def keys (table : Recency α) : List String := table.entries.keys

def size (table : Recency α) : Nat := table.entries.length

/-- Whether a key has an entry.  Asking does not use it. -/
def has (table : Recency α) (key : String) : Bool := table.entries.holds key

/-- The value of a key, which is now the most recently used. -/
def get? (table : Recency α) (key : String) : Option α × Recency α :=
  match table.entries.get? key with
  | none => (none, table)
  | some value => (some value, { table with entries := table.entries.erase key ++ [(key, value)] })

/-- The table with a value for a key, which is now the most recently used. -/
def insert (table : Recency α) (key : String) (value : α) : Recency α :=
  let entries := table.entries.erase key ++ [(key, value)]
  let excess := entries.length - table.capacity
  { table with entries := entries.drop excess, evictions := table.evictions + excess }

def clear (table : Recency α) : Recency α := { table with entries := [] }

end Recency

end BasicScript
