/-!
# Tables

A table holds one value per key and keeps its keys in the order in which they came.  A new value for
a key takes the old one's place; a key that was erased and comes back stands last.
-/

namespace BasicScript

/-- One value per key, the keys in order of arrival. -/
abbrev Table (α : Type) := List (String × α)

namespace Table

variable {α : Type}

def get? (table : Table α) (key : String) : Option α :=
  table.lookup key

def holds (table : Table α) (key : String) : Bool :=
  (table.get? key).isSome

def insert (key : String) (value : α) : Table α → Table α
  | [] => [(key, value)]
  | (k, v) :: rest => if k = key then (key, value) :: rest else (k, v) :: insert key value rest

def erase (table : Table α) (key : String) : Table α :=
  table.filter (·.1 ≠ key)

/-- The keys, in order of arrival. -/
def keys (table : Table α) : List String :=
  table.map (·.1)

/-- The values, in order of their keys. -/
def values (table : Table α) : List α :=
  table.map (·.2)

end Table

end BasicScript
