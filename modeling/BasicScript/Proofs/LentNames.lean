import BasicScript.Proofs.Sharing

/-!
# Names that are lent

The parameters of a one-line function hide names of the current scope while its body is read, and
behind the body the names are given back.  The head of the function is read before.  Its only
expressions are the lengths of texts; as any expression, a length declares the new names in it, and
one of them may be that of a parameter.

* `Scopes.GivenBack`: what the current scope has when names were lent and given back.
* `names_given_back`: a one-line function gives back the names of its parameters, whether it is
  accepted or not.
* `length_declares_parameter`: a parameter whose name is declared by a length.
-/

namespace BasicScript

open Lexer Text Emit

variable {tape : Tape} {level : Level} {s s₁ : State} {sc sc' : Scopes}
    {list : List Parameter} {α β : Type}

/-! ### Last states -/

/-- The last state of an action, whether it fails or not. -/
def Emit.last (x : Emit α) (tokens : Array Token) (s : State) : State :=
  match x tokens s with
  | .ok _ s' => s'
  | .error _ s' => s'

theorem last_bind {P : State → Prop} {tokens : Array Token} {x : Emit α} {f : α → Emit β}
    (h : P (x.last tokens s)) (h' : ∀ a s', P s' → P ((f a).last tokens s')) :
    P ((x >>= f).last tokens s) := by
  unfold Emit.last at h ⊢
  cases hx : x tokens s with
  | ok a s' =>
    rw [hx] at h
    rw [bind_ok hx]
    exact h' a s' h
  | error failure s' =>
    rw [hx] at h
    rwa [bind_error hx]

theorem Does.last {x : Emit α} {Q : α → State → Prop} (h : Does tape level s x Q)
    (hs : Sound tape s) : Path tape level s (x.last tape.tokens s) := by
  have hmeets := (h hs).1
  unfold Emit.last
  cases hx : x tape.tokens s <;> rw [hx] at hmeets <;> exact hmeets.1

/-! ### Loans -/

namespace Scopes

/-- Parameters hid names behind a head, and the names were given back.  A name that was bound is
bound as before, unless two parameters have it.  The free name of a parameter is what the head made
of it, which is nothing unless the head declared it.  A name that parameters share is that of the
last but one of them, so of two it is the first one's. -/
structure GivenBack (before : Scopes) (list : List Parameter) (head after : Scopes) : Prop where
  bound : ∀ name ref, (keysOf list).count (upper name) ≤ 1 → before.local? name = some ref →
    after.local? name = some ref
  free : ∀ p ∈ list, (keysOf list).count (upper p.name) = 1 → before.local? p.name = none →
    after.local? p.name = head.local? p.name
  declared : ∀ name, before.local? name = none → head.local? name ≠ none →
    head.current.Declares (upper name) ∧ ¬before.current.Declares (upper name)
  shared : ∀ name, 1 < (keysOf list).count (upper name) → ∃ front p back,
    list = front ++ p :: back ∧ upper p.name = upper name ∧ (keysOf back).count (upper name) = 1 ∧
    after.local? name = ((head.hideAll front).hide p).local? name

/-- The names of a scope that lent some to parameters, with new names in between. -/
def Returns (sc : Scopes) (list : List Parameter) (sc' : Scopes) : Prop :=
  ∃ sc₁, ((sc.lose (list.map (·.name))).hideAll list).Extends sc₁ ∧
    sc'.current.names = ((sc.hidden list).foldl giveBack sc₁).current.names

namespace Returns

variable {name : String}

theorem nil (sc : Scopes) : sc.Returns [] sc := ⟨sc, .refl sc, rfl⟩

theorem local?_eq (h : sc.Returns list sc') (hcount : (keysOf list).count (upper name) = 1) :
    sc'.local? name = sc.local? name := by
  obtain ⟨sc₁, -, hnames⟩ := h
  rw [local?, hnames]
  exact (get?_regained list sc sc₁ _).2.1 hcount

theorem keeps {ref : Ref} (h : sc.Returns list sc') (hcount : (keysOf list).count (upper name) ≤ 1)
    (hlocal : sc.local? name = some ref) : sc'.local? name = some ref := by
  obtain ⟨sc₁, hextends, hnames⟩ := h
  rw [local?, hnames]
  exact hextends.repaid.keeps _ ref hcount hlocal

end Returns

end Scopes

/-- A head keeps what is bound, and declares the names that it binds. -/
theorem Path.givenBack (h : Path tape .quiet s s₁) (hs : Sound tape s)
    (hreturns : s₁.scopes.Returns list sc') : s.scopes.GivenBack list s₁.scopes sc' where
  bound name ref hcount hlocal := by
    obtain ⟨es, hrun⟩ := h
    exact hreturns.keeps hcount (hrun.extends.keeps _ ref hlocal)
  free p _ hcount _ := hreturns.local?_eq hcount
  shared name hcount := by
    obtain ⟨sc₁, -, hnames⟩ := hreturns
    rw [Scopes.local?, hnames]
    exact (Scopes.get?_regained list _ sc₁ _).2.2 hcount
  declared name hfree hbound := by
    have hholds : s.scopes.current.names.holds (upper name) = false :=
      Scopes.local?_eq_none_iff.1 hfree
    refine ⟨h.still.scope.gains _ hholds (Option.isSome_iff_ne_none.2 hbound), fun hdeclares => ?_⟩
    rw [hs.scopes.current.bound _ hdeclares] at hholds
    cases hholds

/-- Names are lent to a quiet action, and given back whether it fails or not. -/
theorem lending_returns {x : Emit α} {Q : State → α → State → Prop} (hs : Sound tape s)
    (hlends : (Event.lends list).Fits tape s) (hx : ∀ s', Does tape .quiet s' x (Q s')) :
    s.scopes.Returns list
      ((bindParameters list >>= fun before => ensuring x (restoreNames before)).last
        tape.tokens s).scopes := by
  obtain ⟨es, hrun⟩ := (hx _).last (hs.apply hlends)
  unfold Emit.last at hrun ⊢
  rw [bind_ok (bindParameters_eq list tape.tokens s)]
  unfold ensuring
  cases hr : x tape.tokens ((Event.lends list).apply s) <;> rw [hr] at hrun <;>
    simp only [restoreNames_eq] <;>
    exact ⟨_, hrun.extends, rfl⟩

/-- Behind its head, a one-line function lends the names of its parameters to its body. -/
theorem defStatement_returns {name : String} (hs : Sound tape s₁)
    (hhead : defHead tape.tokens s = .ok (name, list) s₁) (hname : tape.Titles (upper name) name)
    (hlist : ∀ p ∈ list, p.Fits tape) :
    s₁.scopes.Returns list (defStatement.last tape.tokens s).scopes := by
  let s₂ : State := { s₁ with functions := s₁.functions.insert (upper name) (Script.mangle name) }
  have hs₂ : Sound tape s₂ := by
    refine { hs with functions := fun entry hentry => ?_ }
    rcases mem_insert hentry with rfl | hentry
    · exact ⟨name, hname, rfl⟩
    · exact hs.functions entry hentry
  have hbody := lending_returns hs₂ ⟨hlist, insert_ne_nil _ _ _⟩ fun _ => expression_does
  rw [Emit.last, defStatement, bind_ok hhead]
  change s₂.scopes.Returns list
    (Emit.last (bindParameters list >>= fun before => ensuring expression (restoreNames before) >>=
      _) tape.tokens s₂).scopes
  rw [← bind_assoc]
  refine last_bind (P := fun s' => s₂.scopes.Returns list s'.scopes) hbody fun body s₃ hreturns =>
    ?_
  change s₂.scopes.Returns list (Emit.last (if _ then _ else _) tape.tokens s₃).scopes
  -- what is written behind the body touches no name
  split
  · obtain ⟨sc, hextends, hnames⟩ := hreturns
    have hnote (d : Declaration) : (s₃.scopes.note d).current.names = s₃.scopes.current.names := by
      rw [Scopes.note, Scopes.current_mapCurrent]
    exact ⟨sc, hextends, (hnote _).trans hnames⟩
  · exact hreturns

/-- **Names given back.**  Behind the first word of a statement, wherever one of a source can begin,
and in any other sound state, a one-line function gives back the names of its parameters, whether it
is accepted, or rejected in its head or its body.  A name that was bound is bound to the same
variable, be it a parameter's or not; a parameter's name that was free is free again, unless the
head declared it.  A name that two parameters share is left with the variable of the first. -/
theorem names_given_back (source : String) (hread : (scan source).fault = none)
    (collector : Collector) : let tape := Tape.ofSource source hread
    (∀ depth s token s₁, Between tape.tokens collector depth s →
      advance tape.tokens s = .ok token s₁ → Sound tape s₁) ∧
    ∀ s, Sound tape s →
      match defHead tape.tokens s with
      | .ok (_, list) s₁ =>
        s.scopes.GivenBack list s₁.scopes (defStatement.last tape.tokens s).scopes
      | .error failure s₁ => defStatement tape.tokens s = .error failure s₁ ∧
          s.scopes.GivenBack [] s₁.scopes s₁.scopes := by
  intro tape
  refine ⟨fun depth s token s₁ hbetween hadvance => ?_, fun s hs => ?_⟩
  · have hs := (Begun.of_between hbetween).sound
    obtain ⟨here, hunder⟩ := hs.exists_under
    have hmoves : Does tape .full s advance _ := (advance_completes hunder (.inl rfl)).does
    exact (hmoves.of_ok hs hadvance).1.sound hs
  · have hdoes : Does tape .quiet s defHead _ := defHead_does
    have hpath := hdoes.last hs
    unfold Emit.last at hpath
    cases hhead : defHead tape.tokens s with
    | ok head s₁ =>
      obtain ⟨-, hname, hlist⟩ := hdoes.of_ok hs hhead
      rw [hhead] at hpath
      exact hpath.givenBack hs (defStatement_returns (hpath.sound hs) hhead hname hlist)
    | error failure s₁ =>
      rw [hhead] at hpath
      exact ⟨bind_error hhead _, hpath.givenBack hs (.nil _)⟩

/-- The one-line function that begins with a turn: the state behind its keyword, its parameters, and
the state behind its head. -/
def loanAt? (source : String) (turns : Nat) : Option (State × List Parameter × State) :=
  let tokens := (scan source).tokens.toArray
  (turnAt? source turns).bind fun s =>
    match advance tokens s with
    | .error .. => none
    | .ok token s₁ =>
      match defHead tokens s₁ with
      | .error .. => none
      | .ok (_, list) s₂ => if token.isKeyword "DEF" then some (s₁, list, s₂) else none

theorem of_loanAt? {source : String} {turns : Nat} {s₂ : State}
    (h : loanAt? source turns = some (s₁, list, s₂)) :
    ∃ s token name, Between (scan source).tokens.toArray {}
      ((scan source).tokens.toArray.size + 1) s ∧
      advance (scan source).tokens.toArray s = .ok token s₁ ∧ token.isKeyword "DEF" = true ∧
      defHead (scan source).tokens.toArray s₁ = .ok (name, list) s₂ := by
  obtain ⟨s, hturn, hs⟩ := Option.bind_eq_some_iff.1 h
  split at hs
  · cases hs
  split at hs
  · cases hs
  split at hs
  · cases hs
    exact ⟨s, _, _, between_of_turnAt? hturn, ‹_›, ‹_›, ‹_›⟩
  · cases hs

/-- What a name refers to in front of the one-line function of a turn and behind it, and the keys of
the parameters. -/
def lent? (source : String) (turns : Nat) (name : String) :
    Option (List String × Option Ref × Option Ref) :=
  (loanAt? source turns).map fun (s, list, _) =>
    (Scopes.keysOf list, s.scopes.local? name,
      (defStatement.last (scan source).tokens.toArray s).scopes.local? name)

/-- A one-line function whose body is rejected. -/
def rejectedBody : String := "x = 1\nDEF FNa(X, y AS STRING * n) = x + (z"

/-- The name of its first parameter is that of a variable, and is so again. -/
theorem rejected_body_gives_back :
    ∃ s token s₁, Between (scan rejectedBody).tokens.toArray {}
      ((scan rejectedBody).tokens.toArray.size + 1) s ∧
      advance (scan rejectedBody).tokens.toArray s = .ok token s₁ ∧ token.isKeyword "DEF" = true ∧
      s₁.scopes.local? "x" = some 0 ∧
      (defStatement.last (scan rejectedBody).tokens.toArray s₁).scopes.local? "x" = some 0 := by
  have hlent : lent? rejectedBody 2 "x" = some (["X", "Y"], some 0, some 0) := by decide +kernel
  obtain ⟨⟨s₁, list, s₂⟩, hloan, hs⟩ := Option.map_eq_some_iff.1 hlent
  simp only [Prod.mk.injEq] at hs
  obtain ⟨hkeys, hlocal, -⟩ := hs
  obtain ⟨s, token, name, hbetween, hadvance, hkeyword, hhead⟩ := of_loanAt? hloan
  obtain ⟨hsound, hloans⟩ := names_given_back rejectedBody (by decide +kernel) {}
  have hgiven := hloans s₁ (hsound _ s token s₁ hbetween hadvance)
  have hhead' : defHead (Tape.ofSource rejectedBody (by decide +kernel)).tokens s₁ =
      .ok (name, list) s₂ := hhead
  rw [hhead'] at hgiven
  exact ⟨s, token, s₁, hbetween, hadvance, hkeyword, hlocal,
    hgiven.bound "x" 0 (by rw [hkeys]; decide +kernel) hlocal⟩

/-- A parameter that is a text as long as a variable of the same name says. -/
def ownLength : String := "DEF FNa(x AS STRING * x) = x"

/-- The name of the parameter was free, and is bound behind the function: its length declared it. -/
theorem length_declares_parameter :
    ∃ s token s₁, Between (scan ownLength).tokens.toArray {}
      ((scan ownLength).tokens.toArray.size + 1) s ∧
      advance (scan ownLength).tokens.toArray s = .ok token s₁ ∧ token.isKeyword "DEF" = true ∧
      s₁.scopes.local? "x" = none ∧
      (defStatement.last (scan ownLength).tokens.toArray s₁).scopes.local? "x" = some 0 := by
  have hlent : lent? ownLength 0 "x" = some (["X"], none, some 0) := by decide +kernel
  obtain ⟨⟨s₁, list, s₂⟩, hloan, hs⟩ := Option.map_eq_some_iff.1 hlent
  simp only [Prod.mk.injEq] at hs
  obtain ⟨s, token, -, hbetween, hadvance, hkeyword, -⟩ := of_loanAt? hloan
  exact ⟨s, token, s₁, hbetween, hadvance, hkeyword, hs.2⟩

end BasicScript
