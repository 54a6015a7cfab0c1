import BasicScript.Compiler

/-!
# When a success tells that there were no errors

The success of a compilation is read off the diagnostics that are shown, after they were cut at the
limit of the compiler.  So an error counts only if it is among the first `maxErrors` diagnostics
that were recorded.

**The exact condition** (`success_iff_no_error_iff_shown`).  A fresh compilation succeeds exactly
when nothing recorded is an error, and keeps a program only then, if and only if the limit does not
hide every error: an error, if there is one, is among the first `maxErrors` diagnostics.  A warning
for an unterminated string in front of the first error is enough to hide it
(`success_despite_hidden_error`).
-/

namespace BasicScript

open List

/-! ### Diagnostics cut at a limit -/

/-- Some of these diagnostics is an error. -/
def HasError (ds : List Diagnostic) : Prop := ∃ d ∈ ds, d.isError = true

instance (ds : List Diagnostic) : Decidable (HasError ds) :=
  inferInstanceAs (Decidable (∃ d ∈ ds, d.isError = true))

/-- A limit does not hide every error: if there is one, it shows one. -/
def ErrorShown (limit : Int) (ds : List Diagnostic) : Prop :=
  HasError ds → HasError (ds.take limit.toNat)

theorem hasError_iff_any {ds : List Diagnostic} : HasError ds ↔ ds.any (·.isError) = true := by
  simp [HasError]

theorem HasError.of_take {n : Nat} {ds : List Diagnostic} (h : HasError (ds.take n)) :
    HasError ds := by
  obtain ⟨d, hd, he⟩ := h
  exact ⟨d, mem_of_mem_take hd, he⟩

/-- **What a positive limit shows.**  The first `limit` diagnostics are kept, with a note on the
others if there are any. -/
theorem limited_eq {limit : Int} (h : 1 ≤ limit) (ds : List Diagnostic) :
    ∃ notes, limited limit ds = .ok (ds.take limit.toNat ++ notes) ∧
      (∀ d ∈ notes, d.severity = .info) ∧ (limit < ds.length → notes ≠ []) := by
  by_cases hle : (ds.length : Int) ≤ limit
  · refine ⟨[], ?_, by simp, by omega⟩
    rw [take_of_length_le (by omega), append_nil]
    simp [limited, hle]
  · have hne : ds.take limit.toNat ≠ [] := by
      intro he
      have hlen : (ds.take limit.toNat).length = 0 := by rw [he]; rfl
      rw [length_take] at hlen
      omega
    have hlast := getLast?_eq_some_getLast hne
    refine ⟨_,
      by simp only [limited, if_neg hle, Sequence.slice_none_some _ (Int.le_trans Int.one_nonneg h),
        hlast]; rfl, ?_, by simp⟩
    intro d hd
    rw [mem_singleton.1 hd]

/-- The note is no error. -/
theorem limited_hasError {limit : Int} (h : 1 ≤ limit) (ds : List Diagnostic) :
    ∃ shown, limited limit ds = .ok shown ∧ (HasError shown ↔ HasError (ds.take limit.toNat)) := by
  obtain ⟨notes, hlimited, hnotes, -⟩ := limited_eq h ds
  refine ⟨_, hlimited, ?_⟩
  have hno : ¬ HasError notes := by
    rintro ⟨d, hd, he⟩
    simp [Diagnostic.isError, hnotes d hd] at he
  simp only [HasError, mem_append, or_and_right, exists_or] at hno ⊢
  exact or_iff_left hno

/-! ### A fresh compilation -/

/-- Everything that reading a source and the pass over it recorded, with the failure of the pass if
it failed. -/
def recorded (target : Target) (source : String) : List Diagnostic :=
  (Generated.ofScan target (Lexer.scan source)).diagnostics

/-- Compiling without the cache, once the diagnostics are cut: the result shows them, what was
chosen for the compiler stays, and the compilation is counted, as a failure unless it is a
success. -/
theorem compileFresh_returns (c : Compiler) (cache : Cache) (source : String) (target : Target)
    {shown : List Diagnostic} (h : limited c.maxErrors (recorded target source) = .ok shown) :
    ∃ result c', c.compileFresh cache source target = (.ok result, c',
        if result.success then cache.store source target.name ⟨result.code, result.diagnostics⟩
        else cache) ∧
      result.cached = false ∧ result.code = (Generated.ofScan target (Lexer.scan source)).code ∧
      result.diagnostics = shown ∧ result.success = !shown.any (·.isError) ∧
      c'.target = c.target ∧ c'.maxErrors = c.maxErrors ∧ c'.compilations = c.compilations + 1 ∧
      c'.failures = c.failures + (!result.success).toNat := by
  rcases hscan : c.arena.reset.scan source with ⟨scan, arena⟩
  obtain rfl : scan = Lexer.scan source := by rw [← c.arena.reset.scan_fst source, hscan]
  simp only [recorded] at h
  simp only [Compiler.compileFresh, hscan, h]
  exact ⟨_, _, rfl, rfl, rfl, rfl, rfl, rfl, rfl, rfl, rfl⟩

theorem Cache.lookup_of_empty {cache : Cache} (h : cache.table.entries = [])
    (source target : String) : (cache.lookup source target).1 = none := by
  simp only [Cache.lookup, Recency.get?, h, Table.get?, lookup_nil]
  split <;> rfl

/-- Where nothing is found, a compilation is a fresh one. -/
theorem compile_of_miss {c : Compiler} {cache : Cache} {source : String} {name : Option String}
    {target : Target} (htarget : (name.map Target.ofName).getD (.ok c.target) = .ok target)
    (hmiss : (cache.lookup source target.name).1 = none) :
    c.compile cache source name =
      c.compileFresh (cache.lookup source target.name).2 source target := by
  rcases hl : cache.lookup source target.name with ⟨found, cache'⟩
  rw [hl] at hmiss
  obtain rfl : found = none := hmiss
  simp only [Compiler.compile, htarget, Compiler.compileFor, hl]

/-- **A fresh compilation.**  It returns a result; this is a success if no error is shown, and then
and only then the program is kept. -/
theorem compile_uncached (c : Compiler) (cache : Cache) (source : String) (name : Option String)
    (target : Target) (hmax : 1 ≤ c.maxErrors)
    (htarget : (name.map Target.ofName).getD (.ok c.target) = .ok target)
    (hmiss : (cache.lookup source target.name).1 = none) :
    ∃ result c', c.compile cache source name = (.ok result, c',
        if result.success then
          (cache.lookup source target.name).2.store source target.name
          ⟨result.code, result.diagnostics⟩
        else (cache.lookup source target.name).2) ∧
      result.cached = false ∧
      (result.success = true ↔ ¬ HasError ((recorded target source).take c.maxErrors.toNat)) := by
  obtain ⟨shown, hlim, hshown⟩ := limited_hasError hmax (recorded target source)
  obtain ⟨result, c', hfresh, hcached, -, -, hsuccess, -⟩ :=
    compileFresh_returns c _ source target hlim
  refine ⟨result, c', (compile_of_miss htarget hmiss).trans hfresh, hcached, ?_⟩
  rw [← hshown, hasError_iff_any, hsuccess]
  simp

/-- **The exact condition.**  A fresh compilation succeeds exactly when nothing recorded is an
error, and keeps a program only then, if and only if the limit does not hide every error. -/
theorem success_iff_no_error_iff_shown (c : Compiler) (cache : Cache) (source : String)
    (name : Option String) (target : Target) (hmax : 1 ≤ c.maxErrors)
    (htarget : (name.map Target.ofName).getD (.ok c.target) = .ok target)
    (hmiss : (cache.lookup source target.name).1 = none) :
    ∃ result c' cache', c.compile cache source name = (.ok result, c', cache') ∧
      result.cached = false ∧
      (result.success = true ↔
        ¬ HasError ((recorded target source).take c.maxErrors.toNat)) ∧
      cache' = (if result.success then
          (cache.lookup source target.name).2.store source target.name
            ⟨result.code, result.diagnostics⟩
        else (cache.lookup source target.name).2) ∧
      (((result.success = true ↔ ¬ HasError (recorded target source)) ∧
          (cache' ≠ (cache.lookup source target.name).2 → ¬ HasError (recorded target source))) ↔
        ErrorShown c.maxErrors (recorded target source)) := by
  obtain ⟨result, c', hrun, hcached, hsuccess⟩ :=
    compile_uncached c cache source name target hmax htarget hmiss
  refine ⟨result, c', _, hrun, hcached, hsuccess, rfl, ?_, ?_⟩
  · rintro ⟨hexact, -⟩ herror
    exact Decidable.by_contra fun hhidden => hexact.1 (hsuccess.2 hhidden) herror
  · intro hshown
    have hexact : result.success = true ↔ ¬ HasError (recorded target source) :=
      hsuccess.trans (not_congr ⟨HasError.of_take, hshown⟩)
    exact ⟨hexact, fun hkept => hexact.1 (Decidable.by_contra fun hfailed =>
      hkept (if_neg hfailed))⟩

/-- An empty cache for one program. -/
def Cache.single : Cache := { table := { capacity := 1 }, enabled := true }

/-- A limit of one diagnostic shows the one error of `NEXT`, so it fails and nothing is kept. -/
theorem lone_next_fails :
    ∃ result c', ({ target := .node, maxErrors := 1 } : Compiler).compile .single "NEXT" none =
        (.ok result, c', (Cache.single.lookup "NEXT" "node").2) ∧ result.success = false := by
  have hshown : ErrorShown 1 (recorded .node "NEXT") := by
    intro _
    decide +kernel
  obtain ⟨result, c', cache', hrun, -, -, hcache, hexact⟩ :=
    success_iff_no_error_iff_shown { target := .node, maxErrors := 1 } .single "NEXT" none .node
      (by decide) rfl rfl
  have hfails : result.success = false := by
    have herror : HasError (recorded .node "NEXT") := by decide +kernel
    simpa using fun h => (hexact.2 hshown).1.1 h herror
  rw [hfails, if_neg Bool.false_ne_true] at hcache
  exact ⟨result, c', hcache ▸ hrun, hfails⟩

/-- **A hidden error.**  The warning for the string comes first, so a limit of one diagnostic drops
the error for `NEXT`: the compilation succeeds, and its program is kept. -/
theorem success_despite_hidden_error :
    HasError (recorded .node "PRINT \"a\nNEXT") ∧
      ∃ result c' cache', ({ target := .node, maxErrors := 1 } : Compiler).compile .single
          "PRINT \"a\nNEXT" none = (.ok result, c', cache') ∧
        result.success = true ∧ cache'.size = 1 := by
  refine ⟨by decide +kernel, ?_⟩
  obtain ⟨result, c', hrun, -, hsuccess⟩ :=
    compile_uncached { target := .node, maxErrors := 1 } .single "PRINT \"a\nNEXT" none .node
      (by decide) rfl rfl
  have hsucceeds : result.success = true := hsuccess.2 (by decide +kernel)
  rw [hsucceeds, if_pos rfl] at hrun
  exact ⟨result, c', _, hrun, hsucceeds, rfl⟩

end BasicScript
