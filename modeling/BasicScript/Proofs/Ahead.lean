import BasicScript.Proofs.Does

/-!
# The tokens ahead

What an action does when the tokens in front of the cursor are known.  The place of a token matters
for reports only, so tokens are compared without it (`Token.bare`), and `Ahead` says what the next
tokens are as a list of such bare tokens.

`Gives` says what an action returns, and the state that it leaves.  A chain of actions is followed
from state to state (`Gives.bind`).  A loop is followed turn by turn from its end (`Loops`): each
turn before the last one uses up a token, so there are turns enough (`Loops.gives`).
-/

namespace BasicScript

open Emit List

/-! ### Bare tokens -/

namespace Token

/-- The token without its place. -/
def bare (token : Token) : Token := { token with line := 0, column := 0 }

/-- A keyword. -/
def word (text : String) : Token := ⟨.keyword, text, 0, 0⟩

/-- An operator. -/
def sign (text : String) : Token := ⟨.operator, text, 0, 0⟩

/-- A punctuation mark. -/
def mark (text : String) : Token := ⟨.punctuation, text, 0, 0⟩

/-- A name. -/
def named (text : String) : Token := ⟨.identifier, text, 0, 0⟩

/-- A number. -/
def numeral (text : String) : Token := ⟨.number, text, 0, 0⟩

/-- A string. -/
def quotation (text : String) : Token := ⟨.string, text, 0, 0⟩

/-- The end of a line. -/
def lineEnd : Token := ⟨.newline, "\n", 0, 0⟩

/-- The end of the input. -/
def inputEnd : Token := ⟨.endOfInput, "", 0, 0⟩

@[simp] theorem kind_bare (token : Token) : token.bare.kind = token.kind := rfl

@[simp] theorem text_bare (token : Token) : token.bare.text = token.text := rfl

end Token

/-- The next tokens at a place, without regard to where they are. -/
def Ahead (tokens : Array Token) (position : Int) (ahead : List Token) : Prop :=
  ∃ n : Nat, position = n ∧ ahead <+: (tokens.toList.drop n).map Token.bare

namespace Ahead

variable {tokens : Array Token} {position : Int} {token : Token} {front back : List Token}

theorem left (h : Ahead tokens position (front ++ back)) : Ahead tokens position front := by
  obtain ⟨n, hn, hfront⟩ := h
  exact ⟨n, hn, (prefix_append front back).trans hfront⟩

theorem right (h : Ahead tokens position (front ++ back)) :
    Ahead tokens (position + front.length) back := by
  obtain ⟨n, rfl, rest, hrest⟩ := h
  refine ⟨n + front.length, by omega, rest, ?_⟩
  have hdrop := congrArg (List.drop front.length) hrest
  rw [append_assoc, drop_left, ← map_drop, drop_drop] at hdrop
  exact hdrop

theorem tail (h : Ahead tokens position (token :: back)) : Ahead tokens (position + 1) back :=
  Ahead.right (show Ahead tokens position ([token] ++ back) from h)

theorem length_le (h : Ahead tokens position front) : front.length ≤ tokens.size := by
  obtain ⟨n, -, hfront⟩ := h
  have := hfront.length_le
  simp only [length_map, length_drop, Array.length_toList] at this
  omega

/-- The first of the tokens is under the cursor. -/
theorem exists_token (h : Ahead tokens position (token :: back)) :
    ∃ t, t.bare = token ∧ Sequence.at? tokens position = some t := by
  obtain ⟨n, rfl, rest, hrest⟩ := h
  have hlt : n < tokens.size := by
    have := congrArg List.length hrest
    simp only [cons_append, length_cons, length_map, length_drop, Array.length_toList] at this
    omega
  have hget : tokens.toList.drop n = tokens[n] :: tokens.toList.drop (n + 1) := by
    rw [drop_eq_getElem_cons (by simpa using hlt), Array.getElem_toList]
  rw [hget, map_cons, cons_append, List.cons.injEq] at hrest
  exact ⟨tokens[n], hrest.1.symm, by simp [Sequence.at?, Sequence.resolve_natCast, hlt]⟩

end Ahead

/-! ### What an action gives -/

/-- An action returns a result and leaves a state. -/
def Gives {α : Type} (tokens : Array Token) (s : State) (x : Emit α) (a : α) (s' : State) : Prop :=
  x tokens s = .ok a s'

/-- The state with the cursor some tokens further on. -/
def State.moved (s : State) (count : Nat) : State := { s with position := s.position + count }

namespace State

variable {s : State} {m n : Nat}

@[simp] theorem position_moved : (s.moved n).position = s.position + n := rfl

@[simp] theorem moved_zero : s.moved 0 = s := by simp [moved]

@[simp] theorem moved_moved : (s.moved m).moved n = s.moved (m + n) := by
  simp [moved, Int.add_assoc]

end State

variable {tokens : Array Token} {s s₁ s' : State} {α β : Type} {a : α} {x : Emit α} {text : String}

namespace Gives

theorem pure : Gives tokens s (Pure.pure a) a s := rfl

theorem bind {f : α → Emit β} {b : β} (h : Gives tokens s x a s₁)
    (h' : Gives tokens s₁ (f a) b s') : Gives tokens s (x >>= f) b s' :=
  (bind_ok h f).trans h'

theorem map (f : α → β) (h : Gives tokens s x a s') : Gives tokens s (f <$> x) (f a) s' :=
  h.bind .pure

theorem get_bind {f : State → Emit α} (h : Gives tokens s (f s) a s') :
    Gives tokens s (MonadState.get >>= f) a s' :=
  h

theorem read_bind {f : Array Token → Emit α} (h : Gives tokens s (f tokens) a s') :
    Gives tokens s (MonadReader.read >>= f) a s' :=
  h

theorem modify_bind {g : State → State} {f : Unit → Emit α}
    (h : Gives tokens (g s) (f ()) a s') : Gives tokens s (modify g >>= f) a s' :=
  h

theorem ensuring {after : Emit Unit} (h : Gives tokens s x a s₁)
    (h' : Gives tokens s₁ after () s') : Gives tokens s (ensuring x after) a s' := by
  unfold Gives Emit.ensuring
  rw [show x tokens s = .ok a s₁ from h]
  simp only
  rw [show after tokens s₁ = .ok () s' from h']

theorem rescuing {instead : Rejection → Emit α} (h : Gives tokens s x a s') :
    Gives tokens s (rescuing x instead) a s' := by
  unfold Gives Emit.rescuing
  rw [show x tokens s = .ok a s' from h]

theorem budget : Gives tokens s budget (tokens.size + 1) s := rfl

end Gives

/-! ### Loops -/

/-- A loop that goes on from `b` ends within `turns` turns. -/
def Loops (tokens : Array Token) (turn : β → Emit (Turn β α)) (turns : Nat) (b : β) (s : State)
    (a : α) (s' : State) : Prop :=
  ∀ m, turns ≤ m → Gives tokens s (Emit.iterate turn m b) a s'

namespace Loops

variable {turn : β → Emit (Turn β α)} {turns : Nat} {b next : β} {a : α}

theorem done (h : Gives tokens s (turn b) (.done a) s') : Loops tokens turn 1 b s a s' := by
  intro m hm
  obtain ⟨m, rfl⟩ := Nat.exists_eq_add_of_le' hm
  exact h.bind .pure

theorem again (h : Gives tokens s (turn b) (.again next) s₁)
    (h' : Loops tokens turn turns next s₁ a s') : Loops tokens turn (turns + 1) b s a s' := by
  intro m hm
  obtain ⟨m, rfl⟩ := Nat.exists_eq_add_of_le' (Nat.le_of_add_left_le hm)
  exact h.bind (h' m (Nat.le_of_succ_le_succ hm))

theorem mono {more : Nat} (h : Loops tokens turn turns b s a s') (hle : turns ≤ more) :
    Loops tokens turn more b s a s' :=
  fun m hm => h m (hle.trans hm)

theorem gives (h : Loops tokens turn turns b s a s') (hle : turns ≤ tokens.size + 1) :
    Gives tokens s (loop b turn) a s' :=
  Gives.budget.bind (h _ hle)

end Loops

/-! ### The cursor -/

section Cursor

variable {token : Token} {rest : List Token} (h : Ahead tokens s.position (token :: rest))

include h

theorem current_gives : ∃ t, t.bare = token ∧ Gives tokens s current t s := by
  obtain ⟨t, ht, hat⟩ := h.exists_token
  refine ⟨t, ht, ?_⟩
  refine .read_bind (.get_bind ?_)
  rw [hat]
  exact .pure

/-- A test of the token under the cursor that does not look at its place. -/
theorem test_gives (test : Token → Bool) (htest : ∀ t, test t.bare = test t) :
    Gives tokens s (do return test (← current)) (test token) s := by
  obtain ⟨t, rfl, hcurrent⟩ := current_gives h
  rw [htest]
  exact hcurrent.bind .pure

/-- The token under the cursor, and moving on from it. -/
theorem advance_gives (hk : token.kind ≠ .endOfInput) :
    ∃ t, t.bare = token ∧ Gives tokens s current t s ∧ Gives tokens s advance t (s.moved 1) := by
  obtain ⟨t, rfl, hcurrent⟩ := current_gives h
  refine ⟨t, rfl, hcurrent, hcurrent.bind ?_⟩
  rw [Token.kind_bare] at hk
  rw [if_pos hk]
  rfl

theorem take_gives (test : Token → Bool) (htest : ∀ t, test t.bare = test t)
    (hyes : test token = true) (hk : token.kind ≠ .endOfInput) :
    Gives tokens s (Emit.take test) true (s.moved 1) := by
  obtain ⟨t, rfl, hcurrent, hadvance⟩ := advance_gives h hk
  rw [htest] at hyes
  refine hcurrent.bind ?_
  rw [if_pos hyes]
  exact hadvance.bind .pure

theorem take_gives_not (test : Token → Bool) (htest : ∀ t, test t.bare = test t)
    (hno : test token = false) : Gives tokens s (Emit.take test) false s := by
  obtain ⟨t, rfl, hcurrent⟩ := current_gives h
  rw [htest] at hno
  refine hcurrent.bind ?_
  rw [if_neg (by simp [hno])]
  exact .pure

theorem expect_gives (test : Token → Bool) (what : String) (htest : ∀ t, test t.bare = test t)
    (hyes : test token = true) (hk : token.kind ≠ .endOfInput) :
    ∃ t, t.bare = token ∧ Gives tokens s (expect test what) t (s.moved 1) := by
  obtain ⟨t, rfl, hcurrent, hadvance⟩ := advance_gives h hk
  rw [htest] at hyes
  refine ⟨t, rfl, hcurrent.bind ?_⟩
  rw [if_pos hyes]
  exact hadvance

theorem takeKeyword_not (hno : token.isKeyword text = false) :
    Gives tokens s (takeKeyword text) false s :=
  take_gives_not h _ (fun _ => rfl) hno

theorem takeMark_not (hno : token.isMark text = false) : Gives tokens s (takeMark text) false s :=
  take_gives_not h _ (fun _ => rfl) hno

theorem atMark_gives : Gives tokens s (atMark text) (token.isMark text) s :=
  test_gives h (·.isMark text) fun _ => rfl

end Cursor

@[simp] theorem Token.isKeyword_word (text : String) : (Token.word text).isKeyword text = true := by
  simp [Token.isKeyword, Token.word]

@[simp] theorem Token.isMark_mark (text : String) : (Token.mark text).isMark text = true := by
  simp [Token.isMark, Token.mark]

@[simp] theorem Token.isOperator_sign (text : String) :
    (Token.sign text).isOperator text = true := by
  simp [Token.isOperator, Token.sign]

section Expected

variable {rest : List Token}

theorem takeKeyword_gives (h : Ahead tokens s.position (.word text :: rest)) :
    Gives tokens s (takeKeyword text) true (s.moved 1) :=
  take_gives h (·.isKeyword text) (fun _ => rfl) (by simp) nofun

theorem expectKeyword_gives (h : Ahead tokens s.position (.word text :: rest)) :
    ∃ t, Gives tokens s (expectKeyword text) t (s.moved 1) := by
  obtain ⟨t, -, ht⟩ := expect_gives h (·.isKeyword text) text (fun _ => rfl) (by simp) nofun
  exact ⟨t, ht⟩

theorem expectMark_gives (h : Ahead tokens s.position (.mark text :: rest)) :
    ∃ t, Gives tokens s (expectMark text) t (s.moved 1) := by
  obtain ⟨t, -, ht⟩ := expect_gives h (·.isMark text) ("'" ++ text ++ "'")
    (fun _ => rfl) (by simp) nofun
  exact ⟨t, ht⟩

theorem expectOperator_gives (h : Ahead tokens s.position (.sign text :: rest)) :
    ∃ t, Gives tokens s (expectOperator text) t (s.moved 1) := by
  obtain ⟨t, -, ht⟩ := expect_gives h (·.isOperator text) ("'" ++ text ++ "'")
    (fun _ => rfl) (by simp) nofun
  exact ⟨t, ht⟩

end Expected

end BasicScript
