import BasicScript.Sequence
import BasicScript.Token.Lexer

/-!
# Token arena

A slab of tokens that is filled anew for each compilation.  Releasing the tokens keeps the slab, and
the next tokens overwrite it in place.
-/

namespace BasicScript

/-- A slab of tokens, of which the first `used` are in use. -/
structure Arena where
  slab : Array Token := #[]
  used : Nat := 0
  used_le : used ≤ slab.size := by exact Nat.zero_le _
deriving Repr

namespace Arena

def empty : Arena := {}

def alloc (arena : Arena) (token : Token) : Arena :=
  if h : arena.used < arena.slab.size then
    { slab := arena.slab.setIfInBounds arena.used token, used := arena.used + 1
      used_le := by rwa [Array.size_setIfInBounds] }
  else
    { slab := arena.slab.push token, used := arena.used + 1
      used_le := by simpa using arena.used_le }

def allocAll (arena : Arena) (tokens : List Token) : Arena :=
  tokens.foldl alloc arena

/-- The token at an index.  An index below zero counts from the end of the slab. -/
def get (arena : Arena) (index : Int) : Except Fault Token :=
  if (arena.used : Int) ≤ index then .error (.tokenIndex index)
  else
    match Sequence.at? arena.slab index with
    | some token => .ok token
    | none => .error .position

/-- The tokens in use. -/
def tokens (arena : Arena) : List Token :=
  arena.slab.toList.take arena.used

/-- The arena with no token in use. -/
def reset (arena : Arena) : Arena :=
  { arena with used := 0, used_le := Nat.zero_le _ }

/-- The size of the slab. -/
def capacity (arena : Arena) : Nat := arena.slab.size

/-- The scan of a source into the arena: the tokens that were read are in use, also those in front
of a fault.  The scan has them from the slab. -/
def scan (arena : Arena) (source : String) : Lexer.Scan × Arena :=
  let result := Lexer.scan source
  let filled := arena.allocAll result.tokens
  ({ result with tokens := filled.tokens.drop arena.used }, filled)

/-! ### The tokens in use -/

variable (arena : Arena)

@[simp] theorem length_tokens : arena.tokens.length = arena.used := by
  have := arena.used_le
  simp only [tokens, List.length_take, Array.length_toList]
  omega

/-- A new token is in use behind the others, whatever stood in its place. -/
theorem tokens_alloc (token : Token) : (arena.alloc token).tokens = arena.tokens ++ [token] := by
  have hle := arena.used_le
  unfold alloc
  split
  · rename_i hlt
    simp only [tokens, Array.toList_setIfInBounds]
    rw [List.take_succ_eq_append_getElem (by simpa using hlt), List.take_set_of_le (Nat.le_refl _)]
    simp
  · have hsize : arena.slab.size = arena.used := by omega
    simp only [tokens, Array.toList_push]
    rw [List.take_of_length_le (by simp [hsize]), List.take_of_length_le (by simp [hsize])]

theorem tokens_allocAll (tokens : List Token) :
    (arena.allocAll tokens).tokens = arena.tokens ++ tokens := by
  induction tokens generalizing arena with
  | nil => simp [allocAll]
  | cons token rest ih =>
    have hrest := ih (arena.alloc token)
    rw [tokens_alloc, List.append_assoc] at hrest
    exact hrest

/-- Nothing that was in the slab before is seen in a scan. -/
theorem scan_fst (source : String) : (arena.scan source).1 = Lexer.scan source := by
  have htokens : (arena.allocAll (Lexer.scan source).tokens).tokens.drop arena.used =
      (Lexer.scan source).tokens := by
    rw [tokens_allocAll, ← arena.length_tokens, List.drop_left]
  simp only [scan, htokens]

end Arena

end BasicScript
