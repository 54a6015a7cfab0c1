import BasicScript.Proofs.Run

/-!
# What an action does

`Does tape level s x Q` says of an action `x` in a sound state `s` all that later proofs need: its
events are a run of the level, it fails only with an excuse, and if it returns then `Q` holds of its
result and its last state; and it does the same with any lines in front of its page (`Blind`).  An
excuse (`Excuse`) is the rejection of a statement at a token on the line of the cursor, or a number
that has no literal; so an action that does anything never stalls and never leaves the tape.

The rules follow the ways in which actions are put together.  In a chain of actions each one starts
in the state that the one before it left (`Does.bind`), and that state has grown.  A loop needs a
turn that uses up a token unless it is the last (`Does.loop`).  An action that only looks at the
state (`Sees`) leaves it as it is.
-/

namespace BasicScript

open Emit

variable {tape : Tape} {level : Level} {s s₁ s' : State} {α β : Type}
    {f : α → Emit β} {failure : Failure}
  {turn : β → Emit (Turn β α)} {x : Emit α} {tokens : Array Token} {a : α}
    {instead : Rejection → Emit α}
  {R : β → State → Prop} {start : β}

/-- Some run leads from one state to another. -/
def Path (tape : Tape) (level : Level) (s s' : State) : Prop := ∃ es, Run tape level s es s'

namespace Path

theorem refl (s : State) : Path tape level s s := ⟨[], .nil⟩

theorem trans (h : Path tape level s s₁) (h' : Path tape level s₁ s') : Path tape level s s' := by
  obtain ⟨es, h⟩ := h
  obtain ⟨es', h'⟩ := h'
  exact ⟨es ++ es', h.append h'⟩

theorem loud (h : Path tape .quiet s s') : Path tape level s s' := by
  obtain ⟨es, h⟩ := h
  exact ⟨es, h.loud⟩

theorem sound (h : Path tape level s s') (hs : Sound tape s) : Sound tape s' := by
  obtain ⟨es, h⟩ := h
  exact h.sound hs

theorem grows (h : Path tape level s s') : Grows s s' := by
  obtain ⟨es, h⟩ := h
  exact h.grows

theorem still (h : Path tape .quiet s s') : Still s s' := by
  obtain ⟨es, h⟩ := h
  exact h.still

theorem rise (h : Path tape .line s s') (hl : level ≠ .quiet) : Path tape level s s' := by
  obtain ⟨es, h⟩ := h
  exact ⟨es, h.rise hl⟩

theorem inLine (h : Path tape .line s s') : tape.InLine s.position s'.position := by
  obtain ⟨es, h⟩ := h
  exact h.inLine

theorem inLine_of_ne (h : Path tape level s s') (hl : level ≠ .full) :
    tape.InLine s.position s'.position := by
  cases level with
  | quiet =>
    have hline : Path tape .line s s' := h.loud
    exact hline.inLine
  | line => exact h.inLine
  | full => exact absurd rfl hl

theorem single {e : Event} (hlevel : level.allows e = true) (hfit : e.Fits tape s) :
    Path tape level s (e.apply s) :=
  ⟨[e], .step hlevel hfit .nil⟩

end Path

/-- Why an action may fail. -/
inductive Excuse (tape : Tape) (s : State) : Failure → Prop where
  | rejected {r : Rejection} (h : r.Fits tape s) : Excuse tape s (.rejected r)
  | number {token : Token} {fault : Fault} (ht : token ∈ tape.tokens) (hk : token.kind = .number)
      (h : Script.number token.text = .error fault) : Excuse tape s (.fault fault)

/-- A rejection is excused by where the cursor is. -/
theorem Excuse.of_position (h : Excuse tape s failure) (hp : s'.position = s.position) :
    Excuse tape s' failure := by
  cases h with
  | rejected h => exact .rejected ⟨h.place, hp ▸ h.line, h.apart⟩
  | number ht hk h => exact .number ht hk h

/-- What an action comes to: a run leads to its last state, and its result is right or its failure
excused. -/
def Meets (tape : Tape) (level : Level) (s : State) (Q : α → State → Prop) :
    EStateM.Result Failure State α → Prop
  | .ok a s' => Path tape level s s' ∧ Q a s'
  | .error failure s' => Path tape level s s' ∧ Excuse tape s' failure

/-- The result of an action, with lines in front of the page. -/
def belowResult (front : List Script.Line) :
    EStateM.Result Failure State α → EStateM.Result Failure State α
  | .ok a s => .ok a (s.below front)
  | .error failure s => .error failure (s.below front)

/-- An action that does the same with any lines in front of the page. -/
def Blind (tokens : Array Token) (s : State) (x : Emit α) : Prop :=
  ∀ front, x tokens (s.below front) = belowResult front (x tokens s)

/-- What an action does in the middle of an event: its run is told from the state `s` in which the
event began, its own state is `s₁`. -/
def Amid (tape : Tape) (level : Level) (s s₁ : State) (x : Emit α) (Q : α → State → Prop) : Prop :=
  Meets tape level s Q (x tape.tokens s₁) ∧ Blind tape.tokens s₁ x

/-- What an action does in a sound state. -/
def Does (tape : Tape) (level : Level) (s : State) (x : Emit α) (Q : α → State → Prop) : Prop :=
  Sound tape s → Amid tape level s s x Q

/-- What an action does of which nothing is asked but to do it. -/
abbrev Acts (tape : Tape) (level : Level) (s : State) (x : Emit α) : Prop :=
  Does tape level s x fun _ _ => True

/-- What an action that never fails does in a sound state. -/
def Completes (tape : Tape) (level : Level) (s : State) (x : Emit α) (Q : α → State → Prop) :
    Prop :=
  Sound tape s → ∃ a s', (∀ front, x tape.tokens (s.below front) = .ok a (s'.below front)) ∧
    Path tape level s s' ∧ Q a s'

/-- What an action that leaves the state alone sees there. -/
def Sees (tape : Tape) (s : State) (x : Emit α) (φ : α → Prop) : Prop :=
  Sound tape s → ∃ a, (∀ front, x tape.tokens (s.below front) = .ok a (s.below front)) ∧ φ a

/-- What is so below any lines is so without them. -/
theorem of_below (h : ∀ front, x tokens (s.below front) = .ok a (s'.below front)) :
    x tokens s = .ok a s' := by
  simpa using h []

theorem eq_of_below {x y : Emit α}
    (h : ∀ front, x tokens (s.below front) = y tokens (s'.below front)) :
    x tokens s = y tokens s' := by
  simpa using h []

/-! ### Chains -/

theorem Emit.bind_ok (h : x tokens s = .ok a s') (f : α → Emit β) :
    (x >>= f) tokens s = f a tokens s' := by
  change EStateM.bind (x tokens) (fun a => f a tokens) s = _
  unfold EStateM.bind
  rw [h]

theorem Emit.bind_error (h : x tokens s = .error failure s') (f : α → Emit β) :
    (x >>= f) tokens s = .error failure s' := by
  change EStateM.bind (x tokens) (fun a => f a tokens) s = _
  unfold EStateM.bind
  rw [h]

theorem Emit.get_eq (tokens : Array Token) (s : State) : (get : Emit State) tokens s = .ok s s :=
  rfl

namespace Blind

variable {x : Emit α}

theorem of_ok (h : ∀ front, x tokens (s.below front) = .ok a (s'.below front)) :
    Blind tokens s x := fun front => by rw [h, of_below h]; rfl

theorem of_eq {y : Emit α} (h : Blind tokens s' y)
    (hx : ∀ front, x tokens (s.below front) = y tokens (s'.below front)) :
    Blind tokens s x := fun front => by
  rw [hx, eq_of_below hx]
  exact h front

theorem bind (h : Blind tokens s x)
    (h' : ∀ a s', x tokens s = .ok a s' → Blind tokens s' (f a)) : Blind tokens s (x >>= f) := by
  intro front
  have hx := h front
  cases hr : x tokens s with
  | ok a s' =>
    rw [hr] at hx
    rw [bind_ok hr, bind_ok hx]
    exact h' a s' hr front
  | error failure s' =>
    rw [hr] at hx
    rw [bind_error hr, bind_error hx]
    rfl

theorem ensuring {after : Emit Unit} (h : Blind tokens s x)
    (h' : ∀ a s', x tokens s = .ok a s' → Blind tokens s' after)
    (h'' : ∀ failure s', x tokens s = .error failure s' → Blind tokens s' after) :
    Blind tokens s (Emit.ensuring x after) := by
  intro front
  have hx := h front
  unfold Emit.ensuring
  rw [hx]
  cases hr : x tokens s with
  | ok a s' =>
    have hafter := h' a s' hr front
    simp only [belowResult, hafter]
    cases after tokens s' <;> rfl
  | error failure s' =>
    have hafter := h'' failure s' hr front
    simp only [belowResult, hafter]
    cases after tokens s' <;> rfl

theorem rescuing (h : Blind tokens s x)
    (h' : ∀ r s', x tokens s = .error (.rejected r) s' → Blind tokens (s'.catching r) (instead r)) :
    Blind tokens s (Emit.rescuing x instead) := by
  intro front
  have hx := h front
  unfold Emit.rescuing
  rw [hx]
  cases hr : x tokens s with
  | ok a s' => rfl
  | error failure s' =>
    cases failure with
    | rejected r => exact h' r s' hr front
    | fault | stalled => rfl

end Blind

namespace Meets

variable {Q : α → State → Prop} {r : EStateM.Result Failure State α}

theorem after (h : Path tape level s s₁) (h' : Meets tape level s₁ Q r) :
    Meets tape level s Q r := by
  cases r with
  | ok a s' => exact ⟨h.trans h'.1, h'.2⟩
  | error failure s' => exact ⟨h.trans h'.1, h'.2⟩

/-- What happens within a line may happen. -/
theorem rise (h : Meets tape .line s Q r) (hl : level ≠ .quiet) : Meets tape level s Q r := by
  cases r with
  | ok a s' => exact ⟨h.1.rise hl, h.2⟩
  | error failure s' => exact ⟨h.1.rise hl, h.2⟩

end Meets

namespace Amid

variable {x : Emit α} {Q : α → State → Prop}

theorem after (h : Path tape level s s₁) (h' : Amid tape level s₁ s' x Q) :
    Amid tape level s s' x Q :=
  ⟨h'.1.after h, h'.2⟩

theorem of_ok (hx : ∀ front, x tape.tokens (s₁.below front) = .ok a (s'.below front))
    (hpath : Path tape level s s') (hq : Q a s') : Amid tape level s s₁ x Q := by
  refine ⟨?_, .of_ok hx⟩
  rw [of_below hx]
  exact ⟨hpath, hq⟩

/-- An action that comes to what another one does in another state. -/
theorem of_eq
    {y : Emit α} (hx : ∀ front, x tape.tokens (s₁.below front) = y tape.tokens (s'.below front))
    (h : Amid tape level s s' y Q) : Amid tape level s s₁ x Q :=
  ⟨eq_of_below hx ▸ h.1, h.2.of_eq hx⟩

theorem bind_ok (hx : ∀ front, x tape.tokens (s₁.below front) = .ok a (s'.below front))
    (h : Amid tape level s s' (f a) R) : Amid tape level s s₁ (x >>= f) R :=
  .of_eq (fun front => Emit.bind_ok (hx front) f) h

end Amid

namespace Does

variable {x : Emit α} {Q R : α → State → Prop}

theorem pure (h : Q a s) : Does tape level s (Pure.pure a) Q :=
  fun _ => ⟨⟨.refl s, h⟩, fun _ => rfl⟩

theorem bind {R : β → State → Prop} (h : Does tape level s x Q)
    (h' : ∀ a s', Grows s s' → Q a s' → Does tape level s' (f a) R) :
    Does tape level s (x >>= f) R := by
  intro hs
  obtain ⟨hx, hblind⟩ := h hs
  refine ⟨?_, hblind.bind fun a s' hr => ?_⟩
  · cases hr : x tape.tokens s with
    | ok a s' =>
      rw [hr] at hx
      rw [bind_ok hr]
      exact (h' a s' hx.1.grows hx.2 (hx.1.sound hs)).1.after hx.1
    | error failure s' =>
      rw [hr] at hx
      rwa [bind_error hr]
  · rw [hr] at hx
    exact (h' a s' hx.1.grows hx.2 (hx.1.sound hs)).2

/-- What follows of a result from the run that leads to it. -/
theorem along (h : Does tape level s x Q)
    (hQ : Sound tape s → ∀ a s', x tape.tokens s = .ok a s' → Path tape level s s' →
      Q a s' → R a s') :
    Does tape level s x R := by
  intro hs
  obtain ⟨hx, hblind⟩ := h hs
  refine ⟨?_, hblind⟩
  cases hr : x tape.tokens s with
  | ok a s' =>
    rw [hr] at hx
    exact ⟨hx.1, hQ hs a s' hr hx.1 hx.2⟩
  | error failure s' =>
    rw [hr] at hx
    exact hx

theorem mono (h : Does tape level s x Q) (hQ : ∀ a s', Grows s s' → Q a s' → R a s') :
    Does tape level s x R :=
  h.along fun _ a s' _ hpath => hQ a s' hpath.grows

theorem map {f : α → β} {R : β → State → Prop} (h : Does tape level s x Q)
    (hR : ∀ a s', Grows s s' → Q a s' → R (f a) s') : Does tape level s (f <$> x) R :=
  h.bind fun a s' hg hq => .pure (hR a s' hg hq)

/-- A quiet action leaves the page and the blocks as they are. -/
theorem still (h : Does tape .quiet s x Q) :
    Does tape level s x fun a s' => Still s s' ∧ Q a s' := by
  intro hs
  obtain ⟨hx, hblind⟩ := h hs
  refine ⟨?_, hblind⟩
  unfold Meets at hx ⊢
  split at hx
  · exact ⟨hx.1.loud, hx.1.still, hx.2⟩
  · exact ⟨hx.1.loud, hx.2⟩

/-- An action within a line does what it does among all events. -/
theorem rise (h : Does tape .line s x Q) (hl : level ≠ .quiet) : Does tape level s x Q :=
  fun hs => ⟨(h hs).1.rise hl, (h hs).2⟩

/-- A quiet action does what it does among all events. -/
theorem loud (h : Does tape .quiet s x Q) : Does tape level s x Q :=
  h.still.mono fun _ _ _ hq => hq.2

theorem sound (h : Does tape level s x Q) :
    Does tape level s x fun a s' => Sound tape s' ∧ Q a s' :=
  h.along fun hs _ _ _ hpath hq => ⟨hpath.sound hs, hq⟩

/-- What is known of the result without the rules for actions. -/
theorem also (h : Does tape level s x Q) (h' : ∀ a s', x tape.tokens s = .ok a s' → R a s') :
    Does tape level s x fun a s' => Q a s' ∧ R a s' :=
  h.along fun _ a s' hx _ hq => ⟨hq, h' a s' hx⟩

theorem of_ok (h : Does tape level s x Q) (hs : Sound tape s) (hx : x tape.tokens s = .ok a s') :
    Path tape level s s' ∧ Q a s' := by
  have hmeets := (h hs).1
  rwa [hx] at hmeets

/-- What the sound state of an action gives for free. -/
theorem ofSound (h : Sound tape s → Does tape level s x Q) : Does tape level s x Q :=
  fun hs => h hs hs

theorem event
    (e : Event) (hx : ∀ front, x tape.tokens (s.below front) = .ok a (e.apply (s.below front)))
    (hlevel : level.allows e = true) (hfit : e.Fits tape s) (hq : Q a (e.apply s)) :
    Does tape level s x Q := by
  intro hs
  refine .of_ok (fun front => ?_) (.single hlevel hfit) hq
  rw [hx, e.apply_below front hs.marked]

/-- An action that looks at the state, but not at its page. -/
theorem get {f : State → Emit α} (hf : ∀ front, f (s.below front) = f s)
    (h : Does tape level s (f s) Q) : Does tape level s (MonadState.get >>= f) Q := by
  intro hs
  obtain ⟨hx, hblind⟩ := h hs
  refine ⟨hx, fun front => ?_⟩
  change f (s.below front) tape.tokens (s.below front) = _
  rw [hf]
  exact hblind front

theorem read {f : Array Token → Emit α} (h : Does tape level s (f tape.tokens) Q) :
    Does tape level s (MonadReader.read >>= f) Q :=
  h

theorem pure_bind {a : β} {f : β → Emit α} (h : Does tape level s (f a) Q) :
    Does tape level s (Pure.pure a >>= f) Q :=
  h

/-! ### Failures -/

theorem fails (hx : ∀ t : State, x tape.tokens t = .error failure t) (h : Excuse tape s failure) :
    Does tape level s x Q := by
  intro _
  refine ⟨?_, fun front => ?_⟩
  · rw [hx]
    exact ⟨.refl s, h⟩
  · rw [hx, hx]
    rfl

/-- A rejection is at a token on the line of the cursor.  What is done about it is told from the
state in which it was caught. -/
theorem rescuing (h : Does tape level s x Q)
    (h' : ∀ r s', Grows s s' → r.Fits tape s' → Sound tape s' →
      Amid tape level s' (s'.catching r) (instead r) Q) :
    Does tape level s (Emit.rescuing x instead) Q := by
  intro hs
  obtain ⟨hx, hblind⟩ := h hs
  have hinstead : ∀ r s', x tape.tokens s = .error (.rejected r) s' → Path tape level s s' ∧
      Meets tape level s' Q (instead r tape.tokens (s'.catching r)) ∧
        Blind tape.tokens (s'.catching r) (instead r) := by
    intro r s' hr
    rw [hr] at hx
    obtain ⟨hpath, ⟨hfits⟩⟩ := hx
    exact ⟨hpath, h' r s' hpath.grows hfits (hpath.sound hs)⟩
  refine ⟨?_, hblind.rescuing fun r s' hr => (hinstead r s' hr).2.2⟩
  unfold Emit.rescuing
  split
  · rename_i r s' hr
    obtain ⟨hpath, hmeets, -⟩ := hinstead r s' hr
    exact hmeets.after hpath
  · exact hx

/-! ### Loops -/

/-- What a turn of a loop must come to: it uses up a token, or it is the last one. -/
def Turned (s : State) (I : β → State → Prop) (Q : α → State → Prop) : Turn β α → State → Prop
  | .again next, s' => s.position < s'.position ∧ I next s'
  | .done a, s' => Q a s'

theorem iterate {I : β → State → Prop}
    (hturn : ∀ b s', Grows s s' → I b s' → Does tape level s' (turn b) (Turned s' I Q))
    (turns : Nat) (b : β) (s' : State) (hg : Grows s s') (hb : I b s')
    (hsize : (tape.tokens.size : Int) < turns + s'.position) :
    Does tape level s' (Emit.iterate turn turns b) Q := by
  induction turns generalizing b s' with
  | zero =>
    intro hs
    have := hs.position_lt
    omega
  | succ turns ih =>
    refine (hturn b s' hg hb).bind fun result s'' hg' hq => ?_
    cases result with
    | again next => exact ih next s'' (hg.trans hg') hq.2 (by have := hq.1; omega)
    | done a => exact .pure hq

/-- **Loops.**  A loop whose turns use up tokens comes to an end, and keeps its invariant. -/
theorem loop (I : β → State → Prop) (hstart : I start s)
    (hturn : ∀ b s', Grows s s' → I b s' → Does tape level s' (turn b) (Turned s' I Q)) :
    Does tape level s (Emit.loop start turn) Q := by
  intro hs
  have hpos := hs.position_nonneg
  exact iterate hturn (tape.tokens.size + 1) start s (.refl s) hstart (by omega) hs

end Does

/-! ### What never fails -/

namespace Completes

variable {x : Emit α} {Q : α → State → Prop}

theorem does (h : Completes tape level s x Q) : Does tape level s x Q := by
  intro hs
  obtain ⟨a, s', hx, hpath, hq⟩ := h hs
  exact .of_ok hx hpath hq

theorem rise (h : Completes tape .line s x Q) (hl : level ≠ .quiet) :
    Completes tape level s x Q := by
  intro hs
  obtain ⟨a, s', hx, hpath, hq⟩ := h hs
  exact ⟨a, s', hx, hpath.rise hl, hq⟩

theorem pure (h : Q a s) : Completes tape level s (Pure.pure a) Q :=
  fun _ => ⟨a, s, fun _ => rfl, .refl s, h⟩

theorem bind (h : Completes tape level s x Q)
    (h' : ∀ a s', Grows s s' → Q a s' → Completes tape level s' (f a) R) :
    Completes tape level s (x >>= f) R := by
  intro hs
  obtain ⟨a, s₁, hx, hpath, hq⟩ := h hs
  obtain ⟨b, s₂, hf, hpath', hr⟩ := h' a s₁ hpath.grows hq (hpath.sound hs)
  exact ⟨b, s₂, fun front => (bind_ok (hx front) f).trans (hf front), hpath.trans hpath', hr⟩

/-- What the sound state of an action gives for free. -/
theorem ofSound (h : Sound tape s → Completes tape level s x Q) : Completes tape level s x Q :=
  fun hs => h hs hs

theorem event
    (e : Event) (hx : ∀ front, x tape.tokens (s.below front) = .ok a (e.apply (s.below front)))
    (hlevel : level.allows e = true) (hfit : e.Fits tape s) (hq : Q a (e.apply s)) :
    Completes tape level s x Q :=
  fun hs =>
    ⟨a, e.apply s, fun front => by rw [hx, e.apply_below front hs.marked], .single hlevel hfit, hq⟩

/-- A loop whose turns use up tokens, none of which fails. -/
theorem loop (I : β → State → Prop) (hstart : I start s)
    (hturn : ∀ b s', Grows s s' → I b s' → Completes tape level s' (turn b) (Does.Turned s' I Q)) :
    Completes tape level s (Emit.loop start turn) Q := by
  have hiterate : ∀ turns b s', Grows s s' → I b s' → (tape.tokens.size : Int) <
      (turns : Nat) + s'.position → Completes tape level s' (Emit.iterate turn turns b) Q := by
    intro turns
    induction turns with
    | zero =>
      intro b s' _ _ hsize hs
      have := hs.position_lt
      omega
    | succ turns ih =>
      intro b s' hg hb hsize
      refine (hturn b s' hg hb).bind fun result s'' hg' hq => ?_
      cases result with
      | again next => exact ih next s'' (hg.trans hg') hq.2 (by have := hq.1; omega)
      | done a => exact .pure hq
  intro hs
  have hpos := hs.position_nonneg
  exact hiterate (tape.tokens.size + 1) start s (.refl s) hstart (by omega) hs

end Completes

/-! ### Looking -/

namespace Sees

variable {x : Emit α} {φ : α → Prop}

theorem does (h : Sees tape s x φ) : Does tape level s x fun a s' => s' = s ∧ φ a := by
  intro hs
  obtain ⟨a, hx, ha⟩ := h hs
  exact .of_ok hx (.refl s) ⟨rfl, ha⟩

theorem completes (h : Sees tape s x φ) : Completes tape level s x fun a s' => s' = s ∧ φ a := by
  intro hs
  obtain ⟨a, hx, ha⟩ := h hs
  exact ⟨a, s, hx, .refl s, rfl, ha⟩

theorem bind (h : Sees tape s x φ) (h' : ∀ a, φ a → Does tape level s (f a) R) :
    Does tape level s (x >>= f) R := by
  refine h.does.bind fun a s' _ hq => ?_
  obtain ⟨rfl, ha⟩ := hq
  exact h' a ha

/-- What comes behind a look and never fails. -/
theorem followed (h : Sees tape s x φ)
    (h' : ∀ a, φ a → Completes tape level s (f a) R) : Completes tape level s (x >>= f) R := by
  refine h.completes.bind fun a s' _ hq => ?_
  obtain ⟨rfl, ha⟩ := hq
  exact h' a ha

theorem seen {ψ : β → Prop} (h : Sees tape s x φ) (h' : ∀ a, φ a → Sees tape s (f a) ψ) :
    Sees tape s (x >>= f) ψ := by
  intro hs
  obtain ⟨a, hx, ha⟩ := h hs
  obtain ⟨b, hf, hb⟩ := h' a ha hs
  exact ⟨b, fun front => (bind_ok (hx front) f).trans (hf front), hb⟩

theorem pure (h : φ a) : Sees tape s (Pure.pure a) φ := fun _ => ⟨a, fun _ => rfl, h⟩

/-- An action that looks at the state, but not at its page. -/
theorem get {f : State → Emit α} (hf : ∀ front, f (s.below front) = f s) (h : Sees tape s (f s) φ) :
    Sees tape s (MonadState.get >>= f) φ := by
  intro hs
  obtain ⟨a, hx, ha⟩ := h hs
  refine ⟨a, fun front => ?_, ha⟩
  change f (s.below front) tape.tokens (s.below front) = _
  rw [hf]
  exact hx front

theorem read {f : Array Token → Emit α} (h : Sees tape s (f tape.tokens) φ) :
    Sees tape s (MonadReader.read >>= f) φ :=
  h

/-- What the sound state that is looked at gives for free. -/
theorem ofSound (h : Sound tape s → Sees tape s x φ) : Sees tape s x φ := fun hs => h hs hs

end Sees

theorem budget_sees : Sees tape s budget (· = tape.tokens.size + 1) := .read (.pure rfl)

end BasicScript
