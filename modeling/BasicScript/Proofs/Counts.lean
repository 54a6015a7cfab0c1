import BasicScript.Proofs.RecencyHistory

/-!
# Counts

A compiler counts its compilations and its failures, and its cache counts what was found and missed
and what it had to drop.  Each call that returns is counted once by the cache; if it missed, it is a
compilation, and either a failure or a program that was kept.  A program is kept only where it was
missed, so it is a new one: it adds to those that are there, or to those that were dropped
(`Balanced`).

* `counts_balance`: over any calls to a new compiler with a cache of its own, the counts agree with
  the number of calls that returned, and with each other.
-/

namespace BasicScript

/-! ### Calls -/

/-- Whether a request is a call for a compilation. -/
def Request.isCall : Request → Bool
  | compile .. | lint _ => true
  | clearCache | resetCounts | setEnabled _ => false

/-- Whether a request returns. -/
def Request.returns (c : Compiler) (cache : Cache) : Request → Bool
  | compile source target => (c.compile cache source target).1.isOk
  | lint source => (c.lint cache source).1.isOk
  | clearCache | resetCounts | setEnabled _ => true

/-- A compiler and its cache behind some requests. -/
def Compiler.serve (c : Compiler) (cache : Cache) : List Request → Compiler × Cache
  | [] => (c, cache)
  | request :: rest => (request.run c cache).1.serve (request.run c cache).2 rest

/-- How many of some requests return. -/
def Compiler.served (c : Compiler) (cache : Cache) : List Request → Nat
  | [] => 0
  | request :: rest =>
    (request.returns c cache).toNat + (request.run c cache).1.served (request.run c cache).2 rest

/-! ### The balance -/

/-- The counts of a compiler and its cache of some capacity behind some calls that returned. -/
structure Balanced (capacity calls : Nat) (c : Compiler) (cache : Cache) : Prop where
  enabled : cache.enabled = true
  capacity : cache.table.capacity = capacity
  limit : 1 ≤ c.maxErrors
  followed : ∃ past, cache.table.Follows past
  searches : cache.hits + cache.misses = calls
  misses : cache.misses = c.compilations
  kept : cache.size + cache.table.evictions + c.failures = c.compilations

/-- What a search does to a cache that is switched on. -/
theorem Cache.lookup_cases (cache : Cache) (henabled : cache.enabled = true)
    (source target : String) :
    (∃ cached, cache.table.entries.get? (key source target) = some cached ∧
      cache.lookup source target =
        (some cached,
          { cache with
            table := (cache.table.get? (key source target)).2, hits := cache.hits + 1 })) ∨
      cache.table.entries.get? (key source target) = none ∧
        cache.lookup source target = (none, { cache with misses := cache.misses + 1 }) := by
  rw [Cache.lookup, if_pos henabled]
  cases hfound : cache.table.entries.get? (key source target) with
  | some cached => exact .inl ⟨cached, rfl, by simp only [Recency.get?, hfound]⟩
  | none => exact .inr ⟨rfl, by simp only [Recency.get?, hfound]⟩

namespace Balanced

variable {capacity calls : Nat} {c : Compiler} {cache : Cache}

section

variable (h : Balanced capacity calls c cache)

include h

theorem size_le : cache.size ≤ capacity := by
  obtain ⟨past, hfollows⟩ := h.followed
  exact h.capacity ▸ hfollows.size_le

/-- A program that is found is counted as such, and none is added or dropped. -/
theorem hit {key : String} {cached : Cached} (hfound : cache.table.entries.get? key = some cached) :
    Balanced capacity (calls + 1) c
      { cache with table := (cache.table.get? key).2, hits := cache.hits + 1 } := by
  obtain ⟨past, hfollows⟩ := h.followed
  have hmem : key ∈ cache.table.keys := Table.isSome_get?_iff.1 (by rw [hfound]; rfl)
  have hbalance := Recency.balance_insert hfollows.nodup key cached
  rw [if_pos hmem, Nat.add_zero,
    ← Recency.get?_snd_eq_insert hfollows.nodup hfollows.size_le hfound] at hbalance
  constructor
  case enabled => exact h.enabled
  case capacity => exact (Access.capacity_run cache.table (.get key)).trans h.capacity
  case limit => exact h.limit
  case followed => exact ⟨_, hfollows.step (.get key)⟩
  case searches =>
    have hsearches := h.searches
    simp only
    omega
  case misses => exact h.misses
  case kept =>
    have hkept := h.kept
    simp only [Cache.size] at hkept ⊢
    omega

/-- A program that is missed is compiled.  Where it is a failure, it is counted as such; else it is
kept, and then it is there, with another one dropped if there was no room. -/
theorem miss {source target : String} {c' : Compiler}
    (hmissed : cache.table.entries.get? (Cache.key source target) = none)
    (success : Bool) (cached : Cached) (hlimit : c'.maxErrors = c.maxErrors)
    (hcompilations : c'.compilations = c.compilations + 1)
    (hfailures : c'.failures = c.failures + (!success).toNat) :
    Balanced capacity (calls + 1) c' (if success then
      Cache.store { cache with misses := cache.misses + 1 } source target cached
      else { cache with misses := cache.misses + 1 }) := by
  obtain ⟨past, hfollows⟩ := h.followed
  have hlimit' : 1 ≤ c'.maxErrors := hlimit ▸ h.limit
  have hsearches : cache.hits + (cache.misses + 1) = calls + 1 := by
    rw [← h.searches, Nat.add_assoc]
  have hmisses : cache.misses + 1 = c'.compilations := by rw [hcompilations, h.misses]
  have hkept := h.kept
  cases success with
  | false =>
    refine ⟨h.enabled, h.capacity, hlimit', h.followed, hsearches, hmisses, ?_⟩
    rw [hfailures, hcompilations, ← hkept]
    rfl
  | true =>
    have hnew : Cache.key source target ∉ cache.table.keys := by
      rw [Recency.keys, ← Table.isSome_get?_iff, hmissed]
      exact Bool.false_ne_true
    have hbalance := Recency.balance_insert hfollows.nodup (Cache.key source target) cached
    rw [if_neg hnew] at hbalance
    rw [if_pos rfl, Cache.store, if_pos h.enabled]
    refine ⟨h.enabled, h.capacity, hlimit',
      ⟨_, hfollows.step (.set (Cache.key source target) cached)⟩, hsearches, hmisses, ?_⟩
    rw [hfailures, hcompilations]
    simp only [Cache.size, Bool.not_true, Bool.toNat_false] at hkept ⊢
    omega

/-- **A compilation** for a target returns, and keeps the balance. -/
theorem compile {name : Option String} {target : Target} (source : String)
    (htarget : chosenTarget c.target name = .ok target) :
    ∃ result c' cache', c.compile cache source name = (.ok result, c', cache') ∧
      Balanced capacity (calls + 1) c' cache' ∧ c'.target = c.target := by
  rw [chosenTarget] at htarget
  simp only [Compiler.compile, htarget, Compiler.compileFor]
  rcases cache.lookup_cases h.enabled source target.name with ⟨cached, hfound, hlookup⟩ |
    ⟨hmissed, hlookup⟩
  · rw [hlookup]
    exact ⟨_, _, _, rfl, h.hit hfound, rfl⟩
  · obtain ⟨shown, hlimited, -⟩ := limited_hasError h.limit (recorded target source)
    obtain ⟨result, c', hfresh, -, -, -, -, htarget', hlimit, hcompilations, hfailures⟩ :=
      compileFresh_returns c { cache with misses := cache.misses + 1 } source target hlimited
    rw [hlookup]
    exact ⟨result, c', _, hfresh, h.miss hmissed _ _ hlimit hcompilations hfailures, htarget'⟩

end

/-- A call for a target that is none changes nothing. -/
theorem compile_unknown {name : Option String} {fault : Fault}
    (htarget : chosenTarget c.target name = .error fault) (source : String) :
    c.compile cache source name = (.error fault, c, cache) := by
  rw [chosenTarget] at htarget
  simp only [Compiler.compile, htarget]

/-- **Every call** keeps the balance, and is counted if it returns. -/
theorem step {request : Request} (h : Balanced capacity calls c cache)
    (hcall : request.isCall = true) :
    Balanced capacity (calls + (request.returns c cache).toNat)
      (request.run c cache).1 (request.run c cache).2 := by
  cases request with
  | compile source name =>
    rw [Request.returns, Request.run]
    cases htarget : chosenTarget c.target name with
    | error fault =>
      rw [compile_unknown htarget]
      exact h
    | ok target =>
      obtain ⟨result, c', cache', hrun, hbalanced, -⟩ := h.compile source htarget
      rw [hrun]
      exact hbalanced
  | lint source =>
    have hown : chosenTarget c.target none = .ok c.target := rfl
    obtain ⟨result, c', cache', hrun, hbalanced, -⟩ := h.compile source hown
    rw [Request.returns, Request.run, Compiler.lint, hrun]
    exact hbalanced
  | clearCache | resetCounts | setEnabled => cases hcall

/-- **All calls** do. -/
theorem serve (history : List Request) (h : Balanced capacity calls c cache)
    (hcalls : ∀ request ∈ history, request.isCall = true) :
    Balanced capacity (calls + c.served cache history)
      (c.serve cache history).1 (c.serve cache history).2 := by
  induction history generalizing calls c cache with
  | nil => exact h
  | cons request rest ih =>
    obtain ⟨hcall, hrest⟩ := List.forall_mem_cons.1 hcalls
    rw [Compiler.served, ← Nat.add_assoc]
    exact ih (h.step hcall) hrest

/-- A new compiler with a cache of its own that is switched on. -/
theorem of_create {options : Options} (hmax : 1 ≤ options.maxErrors)
    (henabled : options.cache = true)
    (hcreate : Compiler.createWithCache options = .ok (c, cache)) :
    Balanced options.cacheSize.toNat 0 c cache := by
  unfold Compiler.createWithCache Compiler.create Cache.create Recency.create at hcreate
  cases htarget : Target.ofName options.target with
  | error fault =>
    rw [htarget] at hcreate
    cases hcreate
  | ok target =>
    rw [htarget] at hcreate
    by_cases hcapacity : options.cacheSize < 1
    · rw [if_pos hcapacity] at hcreate
      cases hcreate
    · rw [if_neg hcapacity] at hcreate
      cases hcreate
      exact ⟨henabled, rfl, hmax, ⟨[], .start (by omega)⟩, rfl, rfl, rfl⟩

end Balanced

/-- **The counts balance.**  Over any calls to a new compiler with a cache of its own that is
switched on, each call that returns is found or missed, and is compiled if it is missed.  What was
compiled without a failure is in the cache or was evicted; there are never more than the cache has
room for.  A call returns exactly if its target is one, and else it changes nothing. -/
theorem counts_balance (options : Options) (hmax : 1 ≤ options.maxErrors)
    (henabled : options.cache = true) (c : Compiler) (cache : Cache)
    (hcreate : Compiler.createWithCache options = .ok (c, cache)) (history : List Request)
    (hcalls : ∀ request ∈ history, request.isCall = true) :
    (c.serve cache history).2.hits + (c.serve cache history).2.misses = c.served cache history ∧
      (c.serve cache history).2.misses = (c.serve cache history).1.compilations ∧
      (c.serve cache history).2.size + (c.serve cache history).2.table.evictions +
        (c.serve cache history).1.failures = (c.serve cache history).1.compilations ∧
      (c.serve cache history).2.size ≤ options.cacheSize.toNat ∧
      (c.serve cache history).2.table.capacity = options.cacheSize.toNat ∧
      (∀ source name target, chosenTarget (c.serve cache history).1.target name = .ok target →
        ((c.serve cache history).1.compile (c.serve cache history).2 source name).1.isOk = true) ∧
      ∀ source name fault, chosenTarget (c.serve cache history).1.target name = .error fault →
        (c.serve cache history).1.compile (c.serve cache history).2 source name =
          (.error fault, (c.serve cache history).1, (c.serve cache history).2) := by
  have h := (Balanced.of_create hmax henabled hcreate).serve history hcalls
  rw [Nat.zero_add] at h
  refine ⟨h.searches, h.misses, h.kept, h.size_le, h.capacity, fun source name target htarget => ?_,
    fun source name fault htarget => Balanced.compile_unknown htarget source⟩
  obtain ⟨result, c', cache', hrun, -⟩ := h.compile source htarget
  rw [hrun]
  rfl

/-- Calls for a line, again and for the other target, for a mistake and for no target, where there
is room for one program. -/
def mixedCalls : List Request :=
  [.compile "PRINT 1" none, .lint "PRINT 1", .compile "PRINT 1" (some "web"), .compile "NEXT" none,
    .compile "PRINT 1" (some "cobol"), .compile "PRINT 1" (some "node")]

/-- The counts balance behind them. -/
theorem mixedCalls_balance :
    ∃ c cache, Compiler.createWithCache { cacheSize := 1 } = .ok (c, cache) ∧
    (c.serve cache mixedCalls).2.hits + (c.serve cache mixedCalls).2.misses =
      c.served cache mixedCalls ∧
    (c.serve cache mixedCalls).2.size ≤ 1 := by
  obtain ⟨hsearches, -, -, hsize, -⟩ := counts_balance { cacheSize := 1 } (by decide) rfl
    { target := .node, maxErrors := 100 } .single rfl mixedCalls (by decide)
  exact ⟨_, _, rfl, hsearches, hsize⟩

end BasicScript
