import BasicScript.Proofs.Target

/-!
# Sessions

A session is some compilers that share a cache, and requests to them one after another.  What a
compilation shows of itself (`Shown`) is its program, its diagnostics and its success.  With nothing
kept from before it is determined by the source, the target and the limit of the compiler
(`shownAt`).

**What a cache keeps.**  Along a session every program in the cache is what some compiler of the
session showed as a success for a source and a target that were asked for (`Session.Fits`).  So what
a compiler shows is what one of the compilers would show that has nothing kept from before
(`Session.Fits.compile`).

**One compiler** (`compile_as_if_new`).  Nothing of its history can be seen in what it shows, if no
two of the texts that were compiled have one key.

**Several compilers** (`undisturbed_iff_same_limit`).  Nothing of the others can be seen in what a
compiler shows, if and only if all have the same limit.  With a limit of one diagnostic, a compiler
takes a source with an error behind a warning for a success, and hands that on
(`success_handed_on`).
-/

namespace BasicScript

open List

variable {c c₀ : Compiler} {cache : Cache} {source : String} {name : Option String}
    {target : Target}

/-! ### What a compilation shows -/

/-- A program, the diagnostics and whether it is a success. -/
structure Shown where
  code : String
  diagnostics : List Diagnostic
  success : Bool
deriving Repr, DecidableEq

/-- What a compilation shows of itself. -/
def Compilation.shown (c : Compilation) : Shown := ⟨c.code, c.diagnostics, c.success⟩

/-- What a source comes to for a limit, with nothing kept from before. -/
def shownAt (limit : Int) (target : Target) (source : String) : Except Fault Shown :=
  (limited limit (recorded target source)).map fun shown =>
    ⟨(Generated.ofScan target (Lexer.scan source)).code, shown, !shown.any (·.isError)⟩

/-- It is a success if the limit shows no error. -/
theorem shownAt_success {limit : Int} (h : 1 ≤ limit) (target : Target) (source : String) :
    ∃ shown, shownAt limit target source = .ok shown ∧
      (shown.success = true ↔ ¬ HasError ((recorded target source).take limit.toNat)) := by
  obtain ⟨shown, hlimited, hshown⟩ := limited_hasError h (recorded target source)
  refine ⟨_, by rw [shownAt, hlimited]; rfl, ?_⟩
  rw [← hshown, hasError_iff_any]
  simp

/-- The target of a compilation: the one that is named, or the compiler's own. -/
def chosenTarget (own : Target) (name : Option String) : Except Fault Target :=
  (name.map Target.ofName).getD (.ok own)

/-- A program that was kept is shown as a success, and nothing else changes than the cache. -/
theorem compile_hit
    {cached : Cached} (htarget : chosenTarget c.target name = .ok target)
    (hhit : (cache.lookup source target.name).1 = some cached) :
    ∃ result, c.compile cache source name = (.ok result, c, (cache.lookup source target.name).2) ∧
      result.shown = ⟨cached.code, cached.diagnostics, true⟩ := by
  rcases hl : cache.lookup source target.name with ⟨found, cache'⟩
  rw [hl] at hhit
  obtain rfl : found = some cached := hhit
  rw [chosenTarget] at htarget
  simp only [Compiler.compile, htarget, Compiler.compileFor, hl]
  exact ⟨_, rfl, rfl⟩

/-- Without a program that was kept, a compiler shows what the source comes to for its limit. -/
theorem compile_miss
    (hmax : 1 ≤ c.maxErrors) (htarget : chosenTarget c.target name = .ok target)
    (hmiss : (cache.lookup source target.name).1 = none) :
    ∃ result c', c.compile cache source name = (.ok result, c',
        if result.success then
          (cache.lookup source target.name).2.store source target.name
          ⟨result.code, result.diagnostics⟩
        else (cache.lookup source target.name).2) ∧
      shownAt c.maxErrors target source = .ok result.shown ∧
      c'.target = c.target ∧ c'.maxErrors = c.maxErrors := by
  obtain ⟨shown, hlimited, -⟩ := limited_hasError hmax (recorded target source)
  obtain ⟨result, c', hfresh, -, hcode, hdiagnostics, hsuccess, hown, hlimit, -⟩ :=
    compileFresh_returns c _ source target hlimited
  refine ⟨result, c', (compile_of_miss htarget hmiss).trans hfresh, ?_, hown, hlimit⟩
  simp [shownAt, hlimited, Except.map, Compilation.shown, hcode, hdiagnostics, hsuccess]

/-! ### What a cache keeps -/

section Recency

variable {α : Type} {table : Recency α} {key : String} {value : α} {entry : String × α}

theorem Table.mem_of_get? {table : Table α} (h : table.get? key = some value) :
    (key, value) ∈ table := by
  obtain ⟨front, back, rfl, -⟩ := lookup_eq_some_iff.1 h
  simp

/-- Looking for a key brings nothing into a table. -/
theorem Recency.mem_of_mem_get? {k : String} (h : entry ∈ (table.get? k).2.entries) :
    entry ∈ table.entries := by
  unfold Recency.get? at h
  split at h
  · exact h
  · rename_i value hvalue
    rcases mem_append.1 h with h | h
    · exact (mem_filter.1 h).1
    · rw [mem_singleton.1 h]
      exact Table.mem_of_get? hvalue

theorem Recency.get?_fst : (table.get? key).1 = table.entries.get? key := by
  unfold Recency.get?
  split <;> simp [*]

/-- What was put into a table is found. -/
theorem Recency.get?_insert (h : 1 ≤ table.capacity) (key : String) (value : α) :
    ((table.insert key value).get? key).1 = some value := by
  have hexcess : (table.entries.erase key ++ [(key, value)]).length - table.capacity ≤
      (table.entries.erase key).length := by
    rw [length_append, length_singleton]
    omega
  have hnone : ((table.entries.erase key).drop
      ((table.entries.erase key ++ [(key, value)]).length - table.capacity)).lookup key = none := by
    refine lookup_eq_none_iff.2 fun entry hentry => ?_
    have hne : entry.1 ≠ key := by simpa using (mem_filter.1 (mem_of_mem_drop hentry)).2
    simpa using hne.symm
  rw [Recency.get?_fst, Recency.insert, Table.get?]
  dsimp only
  rw [drop_append_of_le_length hexcess, lookup_append, hnone]
  simp

theorem Recency.mem_of_mem_insert (h : entry ∈ (table.insert key value).entries) :
    entry = (key, value) ∨ entry ∈ table.entries := by
  rcases mem_append.1 (mem_of_mem_drop h) with h | h
  · exact .inr (mem_filter.1 h).1
  · exact .inl (mem_singleton.1 h)

end Recency

/-- Every program that is kept has a property, with its key. -/
def Cache.Keeps (P : String → Cached → Prop) (cache : Cache) : Prop :=
  ∀ entry ∈ cache.table.entries, P entry.1 entry.2

namespace Cache.Keeps

variable {P : String → Cached → Prop} {target : String} {cached : Cached}

theorem found (h : cache.Keeps P) (hfound : (cache.lookup source target).1 = some cached) :
    P (key source target) cached := by
  unfold Cache.lookup at hfound
  split at hfound
  · split at hfound
    · rename_i value table hget
      cases hfound
      refine h (key source target, cached) (Table.mem_of_get? ?_)
      rw [← Recency.get?_fst, hget]
    · cases hfound
  · cases hfound

theorem lookup (h : cache.Keeps P) : (cache.lookup source target).2.Keeps P := by
  unfold Cache.lookup
  split
  · split <;> rename_i hget <;> refine fun entry hentry => h entry ?_ <;>
      refine Recency.mem_of_mem_get? (k := key source target) ?_ <;> rw [hget] <;> exact hentry
  · exact h

theorem store (h : cache.Keeps P) (hcached : P (key source target) cached) :
    (cache.store source target cached).Keeps P := by
  unfold Cache.store
  split
  · intro entry hentry
    rcases Recency.mem_of_mem_insert hentry with rfl | hentry
    · exact hcached
    · exact h entry hentry
  · exact h

theorem clear (cache : Cache) : cache.clear.Keeps P := fun _ hentry => nomatch hentry

theorem setEnabled (h : cache.Keeps P) (flag : Bool) : (cache.setEnabled flag).Keeps P := by
  cases flag with
  | false => exact clear { cache with enabled := false }
  | true => exact h

end Cache.Keeps

/-! ### Requests -/

/-- What a compiler can be asked for. -/
inductive Request where
  | compile (source : String) (target : Option String)
  | lint (source : String)
  | clearCache
  | resetCounts
  | setEnabled (flag : Bool)
deriving Repr

/-- A compiler and its cache behind a request. -/
def Request.run (c : Compiler) (cache : Cache) : Request → Compiler × Cache
  | compile source target => (c.compile cache source target).2
  | lint source => (c.lint cache source).2
  | clearCache => (c, cache.clear)
  | resetCounts => (c.resetCounts, cache.resetCounts)
  | setEnabled flag => (c, cache.setEnabled flag)

/-- A source and a target that were asked for. -/
structure Use where
  source : String
  target : Target
deriving Repr, DecidableEq

namespace Use

/-- The key under which the cache keeps a program. -/
def key (u : Use) : String := Cache.key u.source u.target.name

/-- The text that the key is made from. -/
def text (u : Use) : String := u.source ++ u.target.name

/-- The text tells the source and the target. -/
theorem text_injective {u v : Use} (h : u.text = v.text) : u = v := by
  obtain ⟨source, target⟩ := u
  obtain ⟨source', target'⟩ := v
  have hchars : source.toList ++ target.name.toList = source'.toList ++ target'.name.toList := by
    simpa [text] using congrArg String.toList h
  have hlast := congrArg List.getLast? hchars
  have hsame : target = target' := by
    cases target <;> cases target' <;> simp [Target.name] at hlast ⊢
  subst hsame
  rw [String.toList_inj.1 (append_cancel_right hchars)]

end Use

/-- The source and the target that a request asks for, from a compiler with a target of its own. -/
def Request.use? (own : Target) : Request → Option Use
  | compile source name => (chosenTarget own name).toOption.map (Use.mk source)
  | lint source => some ⟨source, own⟩
  | _ => none

/-- No two texts have one key. -/
def KeysApart (uses : List Use) : Prop := ∀ u ∈ uses, ∀ v ∈ uses, u.key = v.key → u.text = v.text

/-- A program that is kept: some compiler with one of these limits showed it as a success, for a
source and a target that were asked for. -/
def Kept (limits : List Int) (uses : List Use) (key : String) (cached : Cached) : Prop :=
  ∃ u ∈ uses, ∃ limit ∈ limits, key = u.key ∧
    shownAt limit u.target u.source = .ok ⟨cached.code, cached.diagnostics, true⟩

/-- What stays the same of a compiler. -/
def Compiler.choice (c : Compiler) : Target × Int := (c.target, c.maxErrors)

section Steps

variable {limits : List Int} {uses : List Use}

/-- A compilation keeps only what was shown. -/
theorem compile_keeps (source : String) (name : Option String)
    (hcache : cache.Keeps (Kept limits uses)) (hlimit : c.maxErrors ∈ limits)
    (hmax : 1 ≤ c.maxErrors)
    (huse : ∀ target, chosenTarget c.target name = .ok target → ⟨source, target⟩ ∈ uses) :
    (c.compile cache source name).2.1.choice = c.choice ∧
      (c.compile cache source name).2.2.Keeps (Kept limits uses) := by
  cases htarget : chosenTarget c.target name with
  | error fault =>
    have hrun : c.compile cache source name = (.error fault, c, cache) := by
      rw [chosenTarget] at htarget
      simp only [Compiler.compile, htarget]
    rw [hrun]
    exact ⟨rfl, hcache⟩
  | ok target =>
    cases hfound : (cache.lookup source target.name).1 with
    | some cached =>
      obtain ⟨result, hrun, -⟩ := compile_hit htarget hfound
      rw [hrun]
      exact ⟨rfl, hcache.lookup⟩
    | none =>
      obtain ⟨result, c', hrun, hshown, hown, hlimit'⟩ := compile_miss hmax htarget hfound
      rw [hrun]
      refine ⟨by simp [Compiler.choice, hown, hlimit'], ?_⟩
      dsimp only
      split
      · rename_i hsuccess
        refine hcache.lookup.store ⟨_, huse target htarget, _, hlimit, rfl, ?_⟩
        rw [hshown, Compilation.shown, hsuccess]
      · exact hcache.lookup

/-- **One request** leaves what was chosen for the compiler, and keeps only what was shown. -/
theorem Request.run_keeps (request : Request) (hcache : cache.Keeps (Kept limits uses))
    (hlimit : c.maxErrors ∈ limits) (hmax : 1 ≤ c.maxErrors)
    (huse : ∀ u, request.use? c.target = some u → u ∈ uses) :
    (request.run c cache).1.choice = c.choice ∧
    (request.run c cache).2.Keeps (Kept limits uses) := by
  cases request with
  | compile source name =>
    refine compile_keeps source name hcache hlimit hmax fun target htarget => huse _ ?_
    simp [Request.use?, htarget, Except.toOption]
  | lint source =>
    refine compile_keeps source none hcache hlimit hmax fun target htarget => huse _ ?_
    obtain rfl : c.target = target := Except.ok.inj htarget
    rfl
  | clearCache => exact ⟨rfl, Cache.Keeps.clear cache⟩
  | resetCounts => exact ⟨rfl, hcache⟩
  | setEnabled flag => exact ⟨rfl, hcache.setEnabled flag⟩

end Steps

/-! ### Sessions -/

/-- Compilers that share a cache. -/
structure Session where
  compilers : List Compiler
  cache : Cache

namespace Session

/-- The session behind a request to one of its compilers. -/
def step (s : Session) (request : Nat × Request) : Session :=
  match s.compilers[request.1]? with
  | none => s
  | some c =>
    { compilers := s.compilers.set request.1 (request.2.run c s.cache).1,
      cache := (request.2.run c s.cache).2 }

/-- The session behind all requests. -/
def run (s : Session) (history : List (Nat × Request)) : Session := history.foldl step s

/-- What a compilation by one of the compilers shows. -/
def shows (s : Session) (i : Nat) (source : String) (name : Option String) :
    Option (Except Fault Shown) :=
  s.compilers[i]?.map fun c => (c.compile s.cache source name).1.map Compilation.shown

/-- What was asked for in a session. -/
def uses (compilers : List Compiler) (history : List (Nat × Request)) : List Use :=
  history.filterMap fun request => compilers[request.1]?.bind fun c => request.2.use? c.target

@[simp] theorem uses_append (compilers : List Compiler) (history later : List (Nat × Request)) :
    uses compilers (history ++ later) = uses compilers history ++ uses compilers later :=
  filterMap_append ..

/-- A state of a session that began with some compilers and in which some sources and targets were
asked for. -/
structure Fits (compilers : List Compiler) (uses : List Use) (s : Session) : Prop where
  choices : s.compilers.map Compiler.choice = compilers.map Compiler.choice
  cache : s.cache.Keeps (Kept (compilers.map Compiler.maxErrors) uses)

namespace Fits

variable {compilers : List Compiler} {uses : List Use} {s : Session} {i : Nat}

/-- Where the choices agree, there is a compiler on both sides, and what was chosen for it is the
same. -/
theorem choice_eq {compilers' : List Compiler}
    (h : compilers.map Compiler.choice = compilers'.map Compiler.choice)
    (hc : compilers[i]? = some c) :
    ∃ c', compilers'[i]? = some c' ∧ c.target = c'.target ∧ c.maxErrors = c'.maxErrors := by
  have hchoice := congrArg (·[i]?) h
  simp only [getElem?_map, hc, Option.map_some] at hchoice
  obtain ⟨c', hc', heq⟩ := Option.map_eq_some_iff.1 hchoice.symm
  simp only [Compiler.choice, Prod.mk.injEq] at heq
  exact ⟨c', hc', heq.1.symm, heq.2.symm⟩

variable (h : s.Fits compilers uses)

include h

theorem step (hmax : ∀ c ∈ compilers, 1 ≤ c.maxErrors) {request : Nat × Request}
    (huse : ∀ c, compilers[request.1]? = some c →
      ∀ u, request.2.use? c.target = some u → u ∈ uses) :
    (s.step request).Fits compilers uses := by
  unfold Session.step
  cases hc : s.compilers[request.1]? with
  | none => exact h
  | some c =>
    obtain ⟨c₀, hc₀, htarget, hlimit⟩ := choice_eq h.choices hc
    have hmem : c₀ ∈ compilers := mem_of_getElem? hc₀
    obtain ⟨hchoice, hcache⟩ := request.2.run_keeps h.cache
      (hlimit ▸ mem_map_of_mem hmem) (hlimit ▸ hmax c₀ hmem) (htarget ▸ huse c₀ hc₀)
    refine ⟨?_, hcache⟩
    have hsame : (s.compilers.map Compiler.choice).set request.1 c.choice =
        s.compilers.map Compiler.choice := by
      obtain ⟨hlt, rfl⟩ := List.getElem?_eq_some_iff.1 hc
      rw [← map_set, set_getElem_self]
    simp only
    rw [map_set, hchoice, hsame, h.choices]

theorem run {history : List (Nat × Request)} (hmax : ∀ c ∈ compilers, 1 ≤ c.maxErrors)
    (huses : ∀ u ∈ Session.uses compilers history, u ∈ uses) :
    (s.run history).Fits compilers uses := by
  induction history generalizing s with
  | nil => exact h
  | cons request rest ih =>
    refine ih (h.step hmax fun c hc u hu => huses u ?_) fun u hu => huses u ?_
    · refine mem_filterMap.2 ⟨request, by simp, ?_⟩
      rw [hc]
      exact hu
    · obtain ⟨r, hr, hu⟩ := mem_filterMap.1 hu
      exact mem_filterMap.2 ⟨r, by simp [hr], hu⟩

/-- **What a compiler shows** is what some compiler of the session would show with nothing kept from
before: itself, or another one that took the source for a success. -/
theorem compile (hmax : ∀ c ∈ compilers, 1 ≤ c.maxErrors) (hc₀ : compilers[i]? = some c₀)
    (htarget : chosenTarget c₀.target name = .ok target) (huse : ⟨source, target⟩ ∈ uses)
    (hapart : KeysApart uses) :
    ∃ c ∈ compilers, ∃ shown, shownAt c.maxErrors target source = .ok shown ∧
      s.shows i source name = some (.ok shown) ∧ (c = c₀ ∨ shown.success = true) := by
  obtain ⟨c, hc, hown, hlimit⟩ := choice_eq h.choices.symm hc₀
  have hmem : c₀ ∈ compilers := mem_of_getElem? hc₀
  rw [hown] at htarget
  simp only [shows, hc, Option.map_some, Option.some.injEq]
  cases hfound : (s.cache.lookup source target.name).1 with
  | none =>
    obtain ⟨result, c', hrun, hshown, -, -⟩ := compile_miss (hlimit ▸ hmax c₀ hmem) htarget hfound
    exact ⟨c₀, hmem, result.shown, hlimit ▸ hshown, by rw [hrun]; rfl, .inl rfl⟩
  | some cached =>
    obtain ⟨u, hu, limit, hmember, hkey, hshown⟩ := h.cache.found hfound
    obtain ⟨c₂, hc₂, rfl⟩ := mem_map.1 hmember
    obtain rfl : ⟨source, target⟩ = u := Use.text_injective (hapart _ huse u hu hkey)
    obtain ⟨result, hrun, hresult⟩ := compile_hit htarget hfound
    exact ⟨c₂, hc₂, _, hshown, by rw [hrun, ← hresult]; rfl, .inr rfl⟩

/-- For a target that is none, a compiler shows the fault. -/
theorem fault (hc₀ : compilers[i]? = some c₀) {fault : Fault}
    (htarget : chosenTarget c₀.target name = .error fault) :
    s.shows i source name = some (.error fault) := by
  obtain ⟨c, hc, hown, -⟩ := choice_eq h.choices.symm hc₀
  rw [hown, chosenTarget] at htarget
  simp only [shows, hc, Option.map_some, Compiler.compile, htarget, Except.map]

/-- Where there is no compiler, nothing is shown. -/
theorem shows_none (hnone : compilers[i]? = none) (source : String)
    (name : Option String) : s.shows i source name = none := by
  cases hc : s.compilers[i]? with
  | none => simp only [shows, hc, Option.map_none]
  | some c =>
    obtain ⟨c₀, hc₀, -⟩ := choice_eq h.choices hc
    cases hnone.symm.trans hc₀

end Fits

/-- A session begins with nothing kept. -/
theorem fits_start (compilers : List Compiler) (h : cache.table.entries = [])
    (uses : List Use) : (Session.mk compilers cache).Fits compilers uses := by
  refine ⟨rfl, fun entry hentry => ?_⟩
  rw [h] at hentry
  cases hentry

/-- At the beginning of a session a compiler shows what the source comes to for its limit. -/
theorem shows_start {compilers : List Compiler} (hmax : ∀ c ∈ compilers, 1 ≤ c.maxErrors)
    (h : cache.table.entries = []) {i : Nat} (hc : compilers[i]? = some c) (source : String)
    (htarget : chosenTarget c.target name = .ok target) :
    ∃ shown, shownAt c.maxErrors target source = .ok shown ∧
      (Session.mk compilers cache).shows i source name = some (.ok shown) := by
  obtain ⟨result, c', hrun, hshown, -⟩ :=
    compile_miss (hmax c (mem_of_getElem? hc)) htarget (Cache.lookup_of_empty h source target.name)
  refine ⟨result.shown, hshown, ?_⟩
  simp only [shows, hc, Option.map_some, hrun, Except.map]

end Session

/-! ### One compiler -/

/-- What is made for some options. -/
theorem createWithCache_eq {options : Options}
    (h : Compiler.createWithCache options = .ok (c, cache)) :
    c.maxErrors = options.maxErrors ∧ cache.table.entries = [] ∧
      ∃ cache', Compiler.createWithCache { options with cache := false } = .ok (c, cache') ∧
        cache'.table.entries = [] := by
  unfold Compiler.createWithCache Compiler.create Cache.create Recency.create at h ⊢
  cases htarget : Target.ofName options.target with
  | error fault =>
    rw [htarget] at h
    cases h
  | ok target =>
    rw [htarget] at h
    by_cases hcapacity : options.cacheSize < 1
    · rw [if_pos hcapacity] at h
      cases h
    · rw [if_neg hcapacity] at h ⊢
      cases h
      exact ⟨rfl, rfl, _, rfl, rfl⟩

/-- **A compiler is as if it were new.**  Whatever it was asked for before, what it shows for a
source and a target is what a new compiler with the same options and no cache shows; if no two of
the texts that were compiled have one key. -/
theorem compile_as_if_new (options : Options) (hmax : 1 ≤ options.maxErrors) (c : Compiler)
    (cache : Cache) (hcreate : Compiler.createWithCache options = .ok (c, cache))
    (history : List Request) (source : String) (name : Option String) (target : Target)
    (htarget : chosenTarget c.target name = .ok target)
    (hapart :
      KeysApart (Session.uses [c] ((history ++ [Request.compile source name]).map (Prod.mk 0)))) :
    ∃ new newCache shown,
      Compiler.createWithCache { options with cache := false } = .ok (new, newCache) ∧
      (new.compile newCache source name).1.map Compilation.shown = .ok shown ∧
      ((Session.mk [c] cache).run (history.map (Prod.mk 0))).shows 0 source name =
        some (.ok shown) := by
  obtain ⟨hlimit, hentries, newCache, hnew, hnewEntries⟩ := createWithCache_eq hcreate
  have hmax' : ∀ c' ∈ [c], 1 ≤ c'.maxErrors := by simpa [hlimit] using hmax
  obtain ⟨shown, hshown, hstart⟩ :=
    Session.shows_start (i := 0) hmax' hnewEntries rfl source htarget
  refine ⟨c, newCache, shown, hnew, Option.some.inj hstart, ?_⟩
  have huse :
      ⟨source, target⟩ ∈ Session.uses [c]
        ((history ++ [Request.compile source name]).map (Prod.mk 0)) := by
    refine mem_filterMap.2 ⟨(0, .compile source name), by simp, ?_⟩
    simp [Request.use?, htarget, Except.toOption]
  have hfits : ((Session.mk [c] cache).run (history.map (Prod.mk 0))).Fits [c]
      (Session.uses [c] ((history ++ [Request.compile source name]).map (Prod.mk 0))) := by
    refine (Session.fits_start [c] hentries _).run hmax' fun u hu => ?_
    rw [map_append, Session.uses_append]
    exact mem_append_left _ hu
  obtain ⟨c', hc', shown', hshown', hshows, -⟩ :=
    hfits.compile (i := 0) hmax' rfl htarget huse hapart
  obtain rfl : c' = c := mem_singleton.1 hc'
  rw [hshows, Except.ok.inj (hshown'.symm.trans hshown)]

/-- Requests around one line: the cache is cleared, switched off and on, and a target is none. -/
def restlessHistory : List Request :=
  [.compile "PRINT 1" none, .lint "PRINT 1", .clearCache, .compile "PRINT 1" (some "cobol"),
    .setEnabled false, .resetCounts, .setEnabled true, .compile "PRINT 1" (some "node")]

/-- The line comes from the cache, and is as if it were compiled for the first time. -/
theorem print_compiled_again :
    ∃ new newCache shown,
      Compiler.createWithCache { cache := false } = .ok (new, newCache) ∧
      (new.compile newCache "PRINT 1" none).1.map Compilation.shown = .ok shown ∧
      ((Session.mk [{ target := .node, maxErrors := 100 }]
          { table := { capacity := 100 }, enabled := true }).run
        (restlessHistory.map (Prod.mk 0))).shows 0 "PRINT 1" none = some (.ok shown) := by
  have huses : ∀ u ∈ Session.uses [{ target := .node, maxErrors := 100 }]
      ((restlessHistory ++ [Request.compile "PRINT 1" none]).map (Prod.mk 0)),
        u = ⟨"PRINT 1", .node⟩ := by
    decide
  refine compile_as_if_new {} (by decide) _ _ rfl restlessHistory "PRINT 1" none .node rfl ?_
  intro u hu v hv _
  rw [huses u hu, huses v hv]

/-! ### Several compilers -/

section Unclosed

open Lexer

/-- Lines of one quote each. -/
def unclosedLines : Nat → List Char
  | 0 => []
  | n + 1 => '"' :: '\n' :: unclosedLines n

theorem pieces_unclosedLines (n : Nat) :
    pieces (unclosedLines (n + 1)) =
      ⟨.string false, ['"']⟩ :: ⟨.newline, ['\n']⟩ :: pieces (unclosedLines n) := by
  have hremark : startsRemark ('"' :: '\n' :: unclosedLines n) = false := by
    cases unclosedLines n <;> rfl
  have hquote : cut '"' ('\n' :: unclosedLines n) =
      (⟨.string false, ['"']⟩, '\n' :: unclosedLines n) := by
    simp [cut, isBlank, hremark, startsNumber, isDigit, startsHexadecimal,
      cutString, split, splitOne]
  have hnewline : cut '\n' (unclosedLines n) = (⟨.newline, ['\n']⟩, unclosedLines n) := rfl
  rw [unclosedLines, pieces, hquote, pieces, hnewline]

theorem plain_unclosedLines (n : Nat) : (unclosedLines n).map plainChar = unclosedLines n := by
  induction n with
  | zero => rfl
  | succ n ih =>
    simp only [unclosedLines, List.map_cons, ih]
    rfl

/-- Each line gives a warning. -/
theorem scanFrom_unclosedLines (n : Nat) (place : Place) :
    (scanFrom place (pieces (unclosedLines n))).fault = none ∧
      (scanFrom place (pieces (unclosedLines n))).warnings.length = n ∧
      ∀ d ∈ (scanFrom place (pieces (unclosedLines n))).warnings, d.severity = .warning := by
  induction n generalizing place with
  | zero => simp [unclosedLines, pieces, scanFrom]
  | succ n ih =>
    rw [pieces_unclosedLines]
    obtain ⟨hfault, hlength, hseverity⟩ := ih
      (Place.after (place.after ⟨.string false, ['"']⟩) ⟨.newline, ['\n']⟩)
    refine ⟨hfault, ?_, ?_⟩
    · simpa [scanFrom, Piece.reading, Scan.before, Piece.warnings] using hlength
    · simpa [scanFrom, Piece.reading, Scan.before, Piece.warnings] using hseverity

/-- A source of lines of one quote each. -/
def unclosedSource (n : Nat) : String := String.ofList (unclosedLines n)

theorem recorded_unclosed {n k : Nat} (h : k < n) (target : Target) :
    ∃ d, (recorded target (unclosedSource n))[k]? = some d ∧ d.severity = .warning := by
  have hscan : scan (unclosedSource n) = scanFrom {} (pieces (unclosedLines n)) := by
    rw [scan, unclosedSource, String.toList_ofList, plain_unclosedLines]
  obtain ⟨hfault, hlength, hseverity⟩ := scanFrom_unclosedLines n {}
  rw [← hscan] at hfault hlength hseverity
  obtain ⟨rest, hrest⟩ := warnings_prefix_recorded hfault target
  have hk : k < (scan (unclosedSource n)).warnings.length := by omega
  refine ⟨(scan (unclosedSource n)).warnings[k], ?_, hseverity _ (getElem_mem hk)⟩
  rw [← hrest, getElem?_append_left hk, getElem?_eq_getElem hk]

end Unclosed

section Limits

variable {limit : Int} (target : Target)

/-- One line more than the limit: a success, with a note behind the warnings. -/
theorem shownAt_unclosed (h : 1 ≤ limit) :
    ∃ shown note, shownAt limit target (unclosedSource (limit.toNat + 1)) = .ok shown ∧
      shown.success = true ∧
      shown.diagnostics[limit.toNat]? = some note ∧ note.severity = .info := by
  obtain ⟨notes, hlimited, hnotes, hsome⟩ :=
    limited_eq h (recorded target (unclosedSource (limit.toNat + 1)))
  obtain ⟨d, hd, -⟩ := recorded_unclosed (Nat.lt_add_one limit.toNat) target
  obtain ⟨hlength, -⟩ := List.getElem?_eq_some_iff.1 hd
  obtain ⟨note, others, rfl⟩ := exists_cons_of_ne_nil (hsome (by omega))
  refine ⟨_, note, by rw [shownAt, hlimited]; rfl, ?_, ?_, hnotes note (by simp)⟩
  · simp only [Bool.not_eq_true', any_eq_false, mem_append]
    intro e he
    have hseverity : e.severity ≠ .error := by
      rcases he with he | he
      · obtain ⟨k, hk⟩ := mem_iff_getElem?.1 he
        rw [getElem?_take] at hk
        obtain ⟨hlt, hget⟩ := Option.ite_none_right_eq_some.1 hk
        obtain ⟨w, hw, hseverity⟩ := recorded_unclosed (Nat.lt_add_right 1 hlt) target
        cases hget.symm.trans hw
        simp [hseverity]
      · simp [hnotes e he]
    simpa [Diagnostic.isError] using hseverity
  · rw [getElem?_append_right (by rw [length_take]; exact Nat.min_le_left ..), length_take,
      Nat.min_eq_left (Nat.le_of_lt hlength), Nat.sub_self]
    rfl

/-- Where the note stands, a larger limit shows a warning. -/
theorem shownAt_unclosed_of_lt {large : Int} (h : 1 ≤ limit) (hlt : limit < large) :
    ∃ shown d, shownAt large target (unclosedSource (limit.toNat + 1)) = .ok shown ∧
      shown.diagnostics[limit.toNat]? = some d ∧ d.severity = .warning := by
  obtain ⟨notes, hlimited, -, -⟩ :=
    limited_eq (Int.le_of_lt (Int.lt_of_le_of_lt h hlt))
      (recorded target (unclosedSource (limit.toNat + 1)))
  obtain ⟨d, hd, hseverity⟩ := recorded_unclosed (Nat.lt_add_one limit.toNat) target
  obtain ⟨hlength, -⟩ := List.getElem?_eq_some_iff.1 hd
  refine ⟨_, d, by rw [shownAt, hlimited]; rfl, ?_, hseverity⟩
  rw [getElem?_append_left (by rw [length_take]; omega), getElem?_take_of_lt (by omega), hd]

end Limits

/-- What was stored in a cache that is switched on is found. -/
theorem Cache.lookup_store (henabled : cache.enabled = true) (hcapacity : 1 ≤ cache.table.capacity)
    (source target : String) (cached : Cached) :
    ((cache.store source target cached).lookup source target).1 = some cached := by
  have hfound := Recency.get?_insert hcapacity (key source target) cached
  rw [Cache.store, if_pos henabled]
  rw [Cache.lookup, if_pos henabled]
  dsimp only
  split <;> rename_i hget <;> rw [hget] at hfound <;> cases hfound
  rfl

/-- Looking for a program leaves a cache as large and as much switched on as it was. -/
theorem Cache.lookup_keeps (cache : Cache) (source target : String) :
    (cache.lookup source target).2.enabled = cache.enabled ∧
      (cache.lookup source target).2.table.capacity = cache.table.capacity := by
  unfold Cache.lookup Recency.get?
  split
  · cases cache.table.entries.get? (key source target) <;> exact ⟨rfl, rfl⟩
  · exact ⟨rfl, rfl⟩

/-- What a new cache is like. -/
theorem Cache.create_eq {capacity : Int} {enabled : Bool}
    (h : Cache.create capacity enabled = .ok cache) :
    cache.table.entries = [] ∧ cache.enabled = enabled ∧ 1 ≤ cache.table.capacity := by
  unfold Cache.create Recency.create at h
  by_cases hcapacity : capacity < 1
  · rw [if_pos hcapacity] at h
    cases h
  · rw [if_neg hcapacity] at h
    cases h
    exact ⟨rfl, rfl, by simp only; omega⟩

namespace Session

variable {compilers : List Compiler} {i j : Nat}

/-- **Handing on.**  A success that one compiler shows is what any other one shows then, whatever
its limit. -/
theorem handed_on (hentries : cache.table.entries = []) (henabled : cache.enabled = true)
    (hcapacity : 1 ≤ cache.table.capacity) {c' : Compiler} (hj : compilers[j]? = some c)
    (hi : compilers[i]? = some c') (hne : i ≠ j) (hmax : 1 ≤ c.maxErrors)
    {shown : Shown} (hshown : shownAt c.maxErrors target source = .ok shown)
    (hsuccess : shown.success = true) :
    ((Session.mk compilers cache).run [(j, .compile source (some target.name))]).shows i source
      (some target.name) = some (.ok shown) := by
  have hchosen : ∀ own, chosenTarget own (some target.name) = .ok target :=
    fun _ => target.ofName_name
  obtain ⟨result, c₁, hrun, hresult, -⟩ :=
    compile_miss hmax (hchosen c.target) (Cache.lookup_of_empty hentries source target.name)
  obtain rfl : shown = result.shown := Except.ok.inj (hshown.symm.trans hresult)
  have hkept : result.success = true := hsuccess
  obtain ⟨henabled', hcapacity'⟩ := cache.lookup_keeps source target.name
  have hhit := Cache.lookup_store (henabled'.trans henabled) (hcapacity'.symm ▸ hcapacity)
    source target.name
    ⟨result.code, result.diagnostics⟩
  obtain ⟨again, hagain, hsame⟩ := compile_hit (hchosen c'.target) hhit
  rw [hkept, if_pos rfl] at hrun
  have hother : (compilers.set j c₁)[i]? = some c' := by rw [getElem?_set_ne hne.symm, hi]
  simp only [run, foldl_cons, foldl_nil, step, hj, Request.run, hrun, shows,
    hother, Option.map_some, hagain, Except.map, hsame]
  rw [Compilation.shown, hkept]

/-- One text that is compiled again and again has one key. -/
theorem keysApart_again (compilers : List Compiler) (i j : Nat)
    (source : String) (target : Target) :
    KeysApart (uses compilers ([(j, .compile source (some target.name))] ++
      [(i, .compile source (some target.name))])) := by
  have hall : ∀ u ∈ uses compilers ([(j, .compile source (some target.name))] ++
      [(i, .compile source (some target.name))]), u = ⟨source, target⟩ := by
    intro u hu
    obtain ⟨request, hrequest, huse⟩ := mem_filterMap.1 hu
    have hcompile : request.2 = .compile source (some target.name) := by
      simp only [cons_append, nil_append, mem_cons, not_mem_nil, or_false] at hrequest
      rcases hrequest with rfl | rfl <;> rfl
    obtain ⟨c, -, hc⟩ := Option.bind_eq_some_iff.1 huse
    rw [hcompile, Request.use?, chosenTarget, Option.map_some, Option.getD_some,
      target.ofName_name] at hc
    exact (Option.some.inj hc).symm
  intro u hu v hv _
  rw [hall u hu, hall v hv]

end Session

/-- **Several compilers.**  Nothing of the others, and nothing of its own history, can be seen in
what a compiler of a session shows, if and only if all compilers have the same limit; as long as no
two of the texts that were compiled have one key. -/
theorem undisturbed_iff_same_limit (compilers : List Compiler)
    (hmax : ∀ c ∈ compilers, 1 ≤ c.maxErrors) (capacity : Int) (cache : Cache)
    (hcache : Cache.create capacity true = .ok cache) : (∀ history i source name,
        KeysApart (Session.uses compilers (history ++ [(i, .compile source name)])) →
        ((Session.mk compilers cache).run history).shows i source name =
          (Session.mk compilers cache).shows i source name) ↔
      ∀ c ∈ compilers, ∀ c' ∈ compilers, c.maxErrors = c'.maxErrors := by
  obtain ⟨hentries, henabled, hcapacity⟩ := Cache.create_eq hcache
  constructor
  · intro h
    -- a smaller limit hands on what a larger one would not show
    have hle : ∀ c ∈ compilers, ∀ c' ∈ compilers, ¬ c.maxErrors < c'.maxErrors := by
      intro c hc c' hc' hlt
      obtain ⟨j, hj⟩ := mem_iff_getElem?.1 hc
      obtain ⟨i, hi⟩ := mem_iff_getElem?.1 hc'
      have hne : i ≠ j := by
        rintro rfl
        cases hi.symm.trans hj
        omega
      obtain ⟨shown, note, hshown, hsuccess, hnote, hinfo⟩ := shownAt_unclosed .node (hmax c hc)
      obtain ⟨alone, d, halone, hd, hwarning⟩ := shownAt_unclosed_of_lt .node (hmax c hc) hlt
      have hafter := Session.handed_on hentries henabled hcapacity hj hi hne
        (hmax c hc) hshown hsuccess
      have hchosen : chosenTarget c'.target (some Target.node.name) = .ok .node :=
        Target.ofName_name .node
      obtain ⟨start, hstart, hshows⟩ := Session.shows_start hmax hentries hi
        (unclosedSource (c.maxErrors.toNat + 1)) hchosen
      have hsame :=
        h _ i _ _ (Session.keysApart_again compilers i j
          (unclosedSource (c.maxErrors.toNat + 1)) .node)
      rw [hafter, hshows] at hsame
      cases hsame
      cases hstart.symm.trans halone
      cases hnote.symm.trans hd
      cases hinfo.symm.trans hwarning
    intro c hc c' hc'
    have := hle c hc c' hc'
    have := hle c' hc' c hc
    omega
  · intro hsame history i source name hapart
    have hfits : ((Session.mk compilers cache).run history).Fits compilers
        (Session.uses compilers (history ++ [(i, .compile source name)])) := by
      refine (Session.fits_start compilers hentries _).run hmax fun u hu => ?_
      rw [Session.uses_append]
      exact mem_append_left _ hu
    have hstart := Session.fits_start compilers hentries
      (Session.uses compilers (history ++ [(i, .compile source name)]))
    cases hi : compilers[i]? with
    | none => rw [hfits.shows_none hi, hstart.shows_none hi]
    | some c =>
      cases htarget : chosenTarget c.target name with
      | error fault => rw [hfits.fault hi htarget, hstart.fault hi htarget]
      | ok target =>
        have huse :
            ⟨source, target⟩ ∈ Session.uses compilers (history ++ [(i, .compile source name)]) := by
          refine mem_filterMap.2 ⟨(i, .compile source name), by simp, ?_⟩
          simp [hi, Request.use?, htarget, Except.toOption]
        obtain ⟨c', hc', shown, hshown, hshows, -⟩ := hfits.compile hmax hi htarget huse hapart
        obtain ⟨alone, halone, hshows'⟩ := Session.shows_start hmax hentries hi source htarget
        rw [hsame c' hc' c (mem_of_getElem? hi)] at hshown
        cases hshown.symm.trans halone
        rw [hshows, hshows']

/-- A compiler for each target, with one limit. -/
def equalPair : List Compiler :=
  [{ target := .node, maxErrors := 7 }, { target := .web, maxErrors := 7 }]

/-- Compilers for both targets with one limit do not disturb each other. -/
theorem equalPair_undisturbed :
    (∀ c ∈ equalPair, 1 ≤ c.maxErrors) ∧ Cache.create 1 true = .ok .single ∧
      ∀ history i source name,
        KeysApart (Session.uses equalPair (history ++ [(i, .compile source name)])) →
        ((Session.mk equalPair .single).run history).shows i source name =
          (Session.mk equalPair .single).shows i source name := by
  refine ⟨by decide, rfl, ?_⟩
  exact (undisturbed_iff_same_limit equalPair (by decide) 1 .single rfl).2 (by decide)

/-- Two compilers, the first of which shows a single diagnostic. -/
def unequalPair : List Compiler :=
  [{ target := .node, maxErrors := 1 }, { target := .node, maxErrors := 100 }]

/-- **A success is handed on.**  The compiler that shows one diagnostic takes the source for a
success, because the error stands behind a warning; then the compiler that shows a hundred takes it
for a success too, and alone it does not. -/
theorem success_handed_on :
    (∃ shown, ((Session.mk unequalPair .single).run
          [(0, .compile "PRINT \"a\nNEXT" (some "node"))]).shows 1 "PRINT \"a\nNEXT" (some "node") =
        some (.ok shown) ∧ shown.success = true) ∧
      ∃ alone, (Session.mk unequalPair .single).shows 1 "PRINT \"a\nNEXT" (some "node") =
        some (.ok alone) ∧ alone.success = false := by
  have hsmall : unequalPair[0]? = some { target := .node, maxErrors := 1 } := rfl
  have hlarge : unequalPair[1]? = some { target := .node, maxErrors := 100 } := rfl
  constructor
  · obtain ⟨shown, hshown, hsuccess⟩ :=
      shownAt_success (by decide : (1 : Int) ≤ 1) .node "PRINT \"a\nNEXT"
    have hsucceeds : shown.success = true := hsuccess.2 (by decide +kernel)
    exact ⟨shown, Session.handed_on rfl rfl (Nat.le_refl 1) hsmall hlarge (by decide)
      (by decide) hshown hsucceeds, hsucceeds⟩
  · obtain ⟨alone, halone, hsuccess⟩ :=
      shownAt_success (by decide : (1 : Int) ≤ 100) .node "PRINT \"a\nNEXT"
    have hchosen : chosenTarget .node (some "node") = .ok .node := Target.ofName_name .node
    obtain ⟨start, hstart, hshows⟩ :=
      Session.shows_start (by decide) (rfl : Cache.single.table.entries = []) hlarge
      "PRINT \"a\nNEXT" hchosen
    cases hstart.symm.trans halone
    refine ⟨alone, hshows, Bool.eq_false_iff.2 fun h => hsuccess.1 h ?_⟩
    decide +kernel

end BasicScript
