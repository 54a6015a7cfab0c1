import BasicScript.Token.Arena

/-!
# The history of an arena

Released tokens stay in the slab until others take their slots, so what a slot holds depends on all
that was done with the arena.  The tokens in use do not: they are those handed out since the last
release (`live`).  The slab is as long as there were ever tokens in use at a time (`peak`).

* `scan_fills`: a scan into an arena gives what a scan without one gives and puts its tokens behind
  those in use.
* `get_live_iff`: an index gives a token in use, or none, if and only if it does not count from the
  end of the slab down to a slot that is not in use.  The first index that does is `-1` after a
  release (`get_released`).
-/

namespace BasicScript.Arena

open List

variable (arena : Arena)

/-! ### Capacity -/

theorem used_alloc (token : Token) : (arena.alloc token).used = arena.used + 1 := by
  unfold alloc
  split <;> rfl

theorem capacity_alloc (token : Token) :
    (arena.alloc token).capacity = max arena.capacity (arena.used + 1) := by
  have hle := arena.used_le
  unfold alloc capacity
  split
  · rw [Array.size_setIfInBounds]
    omega
  · rw [Array.size_push]
    omega

theorem used_allocAll (tokens : List Token) :
    (arena.allocAll tokens).used = arena.used + tokens.length := by
  rw [← length_tokens, tokens_allocAll, length_append, length_tokens]

theorem capacity_allocAll (tokens : List Token) :
    (arena.allocAll tokens).capacity = max arena.capacity (arena.used + tokens.length) := by
  induction tokens generalizing arena with
  | nil => exact (Nat.max_eq_left arena.used_le).symm
  | cons token rest ih =>
    have hrest := ih (arena.alloc token)
    rw [capacity_alloc, used_alloc] at hrest
    rw [allocAll, foldl_cons]
    refine hrest.trans ?_
    rw [length_cons]
    omega

theorem getElem?_tokens {place : Nat} (h : place < arena.used) :
    arena.tokens[place]? = arena.slab[place]? := by
  rw [tokens, getElem?_take_of_lt h, Array.getElem?_toList]

theorem scan_snd (source : String) :
    (arena.scan source).2 = arena.allocAll (Lexer.scan source).tokens := rfl

/-- **A scan into an arena**, whatever was done with the arena before: its result is that of a scan
without one, faults and warnings included.  The slots in use are left alone, the tokens come behind
those in use, and the slab grows only where it has to. -/
theorem scan_fills (source : String) : ∃ filled, arena.scan source = (Lexer.scan source, filled) ∧
    (∀ place < arena.used, filled.slab[place]? = arena.slab[place]?) ∧
    filled.tokens = arena.tokens ++ (Lexer.scan source).tokens ∧
    filled.used = arena.used + (Lexer.scan source).tokens.length ∧
    filled.capacity = max arena.capacity filled.used := by
  have htokens := arena.tokens_allocAll (Lexer.scan source).tokens
  have hused := arena.used_allocAll (Lexer.scan source).tokens
  refine ⟨arena.allocAll (Lexer.scan source).tokens, Prod.ext (arena.scan_fst source) rfl, ?_,
    htokens, hused, ?_⟩
  · intro place hplace
    rw [← getElem?_tokens _ hplace, ← getElem?_tokens _ (by omega), htokens,
      getElem?_append_left (by simpa)]
  · rw [capacity_allocAll, hused]

/-! ### Histories -/

/-- What can be done with an arena. -/
inductive Use where
  | alloc (token : Token)
  | scan (source : String)
  | reset

/-- The arena behind some uses, the latest use first. -/
def after : List Use → Arena
  | [] => empty
  | .alloc token :: past => (after past).alloc token
  | .scan source :: past => ((after past).scan source).2
  | .reset :: past => (after past).reset

/-- The tokens that were handed out since the last release. -/
def live : List Use → List Token
  | [] | .reset :: _ => []
  | .alloc token :: past => live past ++ [token]
  | .scan source :: past => live past ++ (Lexer.scan source).tokens

/-- How many tokens there were in use at a time. -/
def peak : List Use → Nat
  | [] => 0
  | use :: past => max (peak past) (live (use :: past)).length

theorem tokens_after (history : List Use) : (after history).tokens = live history := by
  induction history with
  | nil => rfl
  | cons use past ih =>
    cases use with
    | alloc token => rw [after, tokens_alloc, ih, live]
    | scan source => rw [after, scan_snd, tokens_allocAll, ih, live]
    | reset => exact take_zero

theorem used_after (history : List Use) : (after history).used = (live history).length := by
  rw [← length_tokens, tokens_after]

theorem capacity_after (history : List Use) : (after history).capacity = peak history := by
  induction history with
  | nil => rfl
  | cons use past ih =>
    rw [peak, ← ih, ← used_after]
    cases use with
    | alloc token => rw [after, capacity_alloc, used_alloc]
    | scan source => rw [after, scan_snd, capacity_allocAll, used_allocAll]
    | reset => exact (Nat.max_eq_left (Nat.zero_le _)).symm

/-! ### Reading -/

variable {arena} {index : Int}

/-- An index below the tokens in use gives the token of the slot that it names. -/
theorem get_of_resolve {place : Nat} (hlt : index < arena.used)
    (hplace : Sequence.resolve arena.capacity index = some place) :
    ∃ token, arena.slab[place]? = some token ∧ arena.get index = .ok token := by
  have hslot := Array.getElem?_eq_getElem (Sequence.resolve_lt hplace)
  refine ⟨_, hslot, ?_⟩
  simp only [capacity] at hplace
  rw [get, if_neg (by omega), Sequence.at?, hplace, Option.bind_some, hslot]

theorem get_of_not_resolve (hlt : index < arena.used)
    (hplace : Sequence.resolve arena.capacity index = none) :
    arena.get index = .error .position := by
  simp only [capacity] at hplace
  rw [get, if_neg (by omega), Sequence.at?, hplace, Option.bind_none]

/-- **Reading after any history.**  An index is refused, or it names a slot and gives the token that
was handed out for this slot since the last release, if and only if it is not negative or reaches
below the tokens in use. -/
theorem get_live_iff (history : List Use) (index : Int) :
    ((∃ fault ∈ [Fault.tokenIndex index, .position], (after history).get index = .error fault) ∨
      ∃ place token, Sequence.resolve (peak history) index = some place ∧
      (live history)[place]? = some token ∧
        (after history).get index = .ok token) ↔
    0 ≤ index ∨ index + peak history < (live history).length := by
  rw [← capacity_after, ← used_after]
  constructor
  · intro h
    refine Decidable.byContradiction fun hcond => ?_
    obtain ⟨place, hplace⟩ : ∃ place : Nat, place = index + (after history).capacity :=
      ⟨_, Int.toNat_of_nonneg (by omega)⟩
    have hresolve : Sequence.resolve (after history).capacity index = some place :=
      Sequence.resolve_eq_some_iff.2 (by omega)
    obtain ⟨token, -, hget⟩ := get_of_resolve (by omega) hresolve
    rcases h with ⟨fault, -, herror⟩ | ⟨_, _, hsome, hlive, -⟩
    · rw [hget] at herror
      cases herror
    · cases hresolve.symm.trans hsome
      have := (List.getElem?_eq_some_iff.1 hlive).1
      rw [← used_after] at this
      omega
  · intro hcond
    by_cases hused : (after history).used ≤ index
    · exact .inl ⟨.tokenIndex index, by simp, by rw [get, if_pos hused]⟩
    cases hresolve : Sequence.resolve (after history).capacity index with
    | none => exact .inl ⟨.position, by simp, get_of_not_resolve (by omega) hresolve⟩
    | some place =>
      obtain ⟨token, hslot, hget⟩ := get_of_resolve (by omega) hresolve
      have hplace : place < (after history).used := by
        have := Sequence.resolve_eq_some_iff.1 hresolve
        omega
      exact .inr ⟨place, token, rfl, by rwa [← tokens_after, getElem?_tokens _ hplace], hget⟩

/-- A token that was released is still given for an index that counts from the end. -/
theorem get_released : live [.reset, .alloc ⟨.endOfInput, "", 1, 1⟩] = [] ∧
    (after [.reset, .alloc ⟨.endOfInput, "", 1, 1⟩]).get (-1) = .ok ⟨.endOfInput, "", 1, 1⟩ :=
  ⟨rfl, rfl⟩

end BasicScript.Arena
