import BasicScript.Cache.Recency
import BasicScript.Diagnostic
import BasicScript.Digest
import BasicScript.Number.Binary64

/-!
# The cache of compilations

Programs that were generated before, by a digest of the source and the target.
-/

namespace BasicScript

/-- A generated program that is kept. -/
structure Cached where
  code : String
  diagnostics : List Diagnostic
deriving Repr, DecidableEq

/-- Kept programs, and how often one was found or missed. -/
structure Cache where
  table : Recency Cached
  enabled : Bool
  hits : Nat := 0
  misses : Nat := 0
deriving Repr

namespace Cache

open Number (Binary64)

/-- How many programs are kept, where nothing else is asked for. -/
def usualCapacity : Int := 100

def create (capacity : Int) (enabled : Bool) : Except Fault Cache := do
  let table ← Recency.create capacity
  return { table, enabled }

/-- The key of a source and a target. -/
def key (source target : String) : String :=
  Digest.shortHex (Digest.sha256 (source ++ target).toUTF8.toList)

/-- The program for a source and a target, if it is kept.  A disabled cache counts nothing. -/
def lookup (cache : Cache) (source target : String) : Option Cached × Cache :=
  if cache.enabled then
    match cache.table.get? (key source target) with
    | (some cached, table) => (some cached, { cache with table, hits := cache.hits + 1 })
    | (none, table) => (none, { cache with table, misses := cache.misses + 1 })
  else (none, cache)

/-- The cache with a program for a source and a target. -/
def store (cache : Cache) (source target : String) (cached : Cached) : Cache :=
  if cache.enabled then
    { cache with table := cache.table.insert (key source target) cached }
  else cache

def clear (cache : Cache) : Cache := { cache with table := cache.table.clear }

def resetCounts (cache : Cache) : Cache :=
  { cache with table := { cache.table with evictions := 0 }, hits := 0, misses := 0 }

/-- The cache switched on or off.  Switched off, it keeps nothing. -/
def setEnabled (cache : Cache) (flag : Bool) : Cache :=
  let cache := { cache with enabled := flag }
  if flag then cache else cache.clear

def size (cache : Cache) : Nat := cache.table.size

/-- The share of the searches that found something. -/
def hitRate (cache : Cache) : Binary64 :=
  let searches := cache.hits + cache.misses
  if searches = 0 then .zero else .ofRatio cache.hits searches

/-- The counts on one line. -/
def summary (cache : Cache) : String :=
  "Cache: " ++ toString cache.hits ++ " hits, " ++ toString cache.misses ++ " misses, " ++
    toString cache.size ++ "/" ++ toString cache.table.capacity ++ " entries, hit rate " ++
    (cache.hitRate.times 100).fixed 1 ++ "%"

end Cache

end BasicScript
