import BasicScript.Proofs.ExpressionTree
import BasicScript.Proofs.Use

/-!
# Reading expression trees

The emitter, started on the spelling of an expression tree, uses up exactly the spelling and returns
the tree in JavaScript (`expression_gives`).

The levels of the emitter are the levels of the operators: at each level a first operand is read,
and a loop goes on as long as it finds an operator of its level.  So the proof is on the tree, and
for an operator that groups from the left it follows the loop: whatever the loop comes to from a
tree on, it comes to from the first operand of the tree on (`StartsAt`).
-/

namespace BasicScript

open Emit Lexer Script List

variable {s' : State} {next token : Token} {text : String} {rest : List Token}
  {sign? : Token → Option (String → String)} {k j : Nat} {e : Expr} {operand nested : Emit String}
  {wrap : String → String} {sign : Sign} {o : Operator} {failure : Failure}

/-! ### Levels -/

/-- What reads an expression of a level or of a higher one. -/
def levelOf (nested : Emit String) : Nat → Emit String
  | 0 => disjunction nested
  | 1 => conjunction nested
  | 2 => comparison nested
  | 3 => Emit.sum nested
  | 4 => Emit.product nested
  | 5 => unary nested
  | 6 => Emit.power nested
  | _ => primary nested

/-- The operators of a level. -/
def signOf : Nat → Token → Option Combine
  | 0 => disjunctionSign?
  | 1 => conjunctionSign?
  | 2 => comparisonSign?
  | 3 => sumSign?
  | 4 => productSign?
  | 6 => powerSign?
  | _ => fun _ => none

/-- What reads an operand behind an operator of a level. -/
def operandOf (nested : Emit String) : Nat → Emit String
  | 6 => Emit.signed (primary nested) exponentSign?
  | k => levelOf nested (k + 1)

/-- The levels of operators with two sides. -/
def IsChain (k : Nat) : Prop := k < signLevel ∨ k = Operator.power.level

/-- One turn of the loop over operators of a level. -/
def chainTurn (operand : Emit String) (sign? : Token → Option Combine) (left : String) :
    Emit (Turn String String) := do
  match sign? (← current) with
  | none => return .done left
  | some combine =>
    let _ ← advance
    return .again (combine left (← operand))

theorem levelOf_eq_chain (hk : IsChain k) (nested : Emit String) :
    levelOf nested k =
      (do loop (← levelOf nested (k + 1)) (chainTurn (operandOf nested k) (signOf k))) := by
  match k, hk with
  | 0, _ | 1, _ | 2, _ | 3, _ | 4, _ | 6, _ => rfl
  | 5, hk => simp [IsChain, signLevel, Operator.level] at hk
  | k + 7, hk =>
    simp only [IsChain, signLevel, Operator.level] at hk
    omega

/-- One turn of the loop over signs. -/
def signTurn (sign? : Token → Option (String → String)) (wrap : String → String) :
    Emit (Turn (String → String) (String → String)) := do
  match sign? (← current) with
  | none => return .done wrap
  | some inner =>
    let _ ← advance
    return .again (wrap ∘ inner)

theorem signed_eq (operand : Emit String) (sign? : Token → Option (String → String)) :
    Emit.signed operand sign? = (do
      let wrap ← loop id (signTurn sign?)
      return wrap (← operand)) :=
  rfl

/-! ### Tokens behind an expression -/

/-- A token that does not carry on an expression of a level. -/
structure Stops (k : Nat) (token : Token) : Prop where
  sign : ∀ j, k ≤ j → signOf j token = none
  index : token.isMark "(" = false
  point : token.isMark "." = false

theorem Stops.mono (h : Stops j token) (hle : j ≤ k) : Stops k token :=
  ⟨fun i hi => h.sign i (hle.trans hi), h.index, h.point⟩

theorem signOf_bare (k : Nat) (token : Token) : signOf k token.bare = signOf k token := by
  match k with
  | 0 | 1 | 2 | 3 | 4 | 5 | 6 => rfl
  | k + 7 => rfl

namespace Operator

theorem isChain (o : Operator) : IsChain o.level := by
  cases o <;> simp [IsChain, level, signLevel]

theorem signOf_token (o : Operator) : signOf o.level o.token = some o.script := by
  cases o with
  | compare c => cases c <;> rfl
  | _ => rfl

theorem kind_token (o : Operator) : o.token.kind ≠ .endOfInput := by
  cases o <;> simp [token, Token.word, Token.sign]

theorem eq_power (o : Operator) (h : signLevel < o.level) : o = .power := by
  cases o with
  | power => rfl
  | _ => simp [level, signLevel] at h

theorem stops_token (o : Operator) (h : o.level < k) : Stops k o.token := by
  refine ⟨fun j hj => ?_, ?_, ?_⟩
  · have hne : j ≠ o.level := by omega
    match j with
    | 2 => cases o <;> first | rfl | exact absurd rfl hne
    | 0 | 1 | 3 | 4 | 5 | 6 =>
      cases o with
      | compare c => cases c <;> rfl
      | _ => first | rfl | exact absurd rfl hne
    | j + 7 => rfl
  · cases o <;> rfl
  · cases o <;> rfl

end Operator

namespace Sign

theorem unarySign?_token (sign : Sign) : unarySign? sign.token = some sign.script := by
  cases sign <;> rfl

end Sign

theorem exponentSign?_of_unarySign? (h : unarySign? token = none) : exponentSign? token = none := by
  unfold unarySign? at h
  unfold exponentSign?
  split at h
  · cases h
  · split at h
    · cases h
    · simp_all

/-- A tree that begins with no sign. -/
theorem unarySign?_first (h : e.Proper) (hlevel : signLevel < e.level) :
    unarySign? e.first = none := by
  induction e with
  | number | string | name | parens => rfl
  | signed => simp [Expr.level] at hlevel
  | binary o left right ihl =>
    obtain rfl : o = .power := o.eq_power hlevel
    exact ihl h.1 (Nat.lt_of_lt_of_le (by decide) h.2.2.1)

/-! ### What must be known of the names and numbers -/

/-- The names and numbers of an expression can be read in a state: a name stands for a plain
variable, which is called `js` in JavaScript from the expression on. -/
structure Legible (js : String → String) (s : State) (names numbers : List String) : Prop where
  procedure : ∀ n ∈ names, s.procedures.get? (Text.upper n) = none
  function : ∀ n ∈ names, s.functions.get? (Text.upper n) = none
  free : ∀ n ∈ names, s.scopes.Free n
  builtin : ∀ n ∈ names, s.scopes.find? n = none → Vocabulary.builtin? n = none
  named : ∀ n ∈ names, (s.scopes.useAll names).scriptName n = js n
  number : ∀ t ∈ numbers, ∃ literal, number t = .ok literal

/-- The state behind an expression. -/
def State.past (s : State) (e : Expr) : State :=
  { s with position := s.position + e.spelling.length, scopes := s.scopes.useAll e.names }

variable {tokens : Array Token} {js : String → String} {s : State}

namespace State

theorem past_parens (e : Expr) : ((s.moved 1).past e).moved 1 = s.past (.parens e) := by
  simp only [past, moved, Expr.spelling, Expr.names, length_cons, length_append, length_nil]
  congr 1
  omega

theorem past_signed (sign : Sign) (e : Expr) : (s.moved 1).past e = s.past (.signed sign e) := by
  simp only [past, moved, Expr.spelling, Expr.names, length_cons]
  congr 1
  omega

theorem past_binary (o : Operator) (left right : Expr) :
    ((s.past left).moved 1).past right = s.past (.binary o left right) := by
  simp only [past, moved, Expr.spelling, Expr.names, length_cons,
    length_append, Scopes.useAll_append]
  congr 1
  omega

end State

namespace Legible

variable {a b m n : List String}

theorem left (h : Legible js s (a ++ b) (m ++ n)) : Legible js s a m where
  procedure x hx := h.procedure x (by simp [hx])
  function x hx := h.function x (by simp [hx])
  free x hx := h.free x (by simp [hx])
  builtin x hx := h.builtin x (by simp [hx])
  named x hx := by
    have hfree : ∀ y ∈ a, s.scopes.Free y := fun y hy => h.free y (by simp [hy])
    have hrest : ∀ y ∈ b, (s.scopes.useAll a).Free y := fun y hy =>
      Scopes.Free.useAll hfree (h.free y (by simp [hy]))
    obtain ⟨v, hv⟩ := Scopes.exists_find?_useAll hfree hx
    rw [← h.named x (by simp [hx]), Scopes.useAll_append, Scopes.scriptName_of_some hv,
      Scopes.scriptName_of_some (Scopes.find?_useAll_of_some hrest hv)]
  number t ht := h.number t (by simp [ht])

theorem moved (h : Legible js s a m) (count : Nat) : Legible js (s.moved count) a m :=
  ⟨h.procedure, h.function, h.free, h.builtin, h.named, h.number⟩

theorem right (h : Legible js s (a ++ b) (m ++ n))
    (hscopes : s'.scopes = s.scopes.useAll a) (hprocedures : s'.procedures = s.procedures)
    (hfunctions : s'.functions = s.functions) : Legible js s' b n := by
  have hfree : ∀ y ∈ a, s.scopes.Free y := fun y hy => h.free y (by simp [hy])
  constructor
  case procedure => exact fun x hx => hprocedures ▸ h.procedure x (by simp [hx])
  case function => exact fun x hx => hfunctions ▸ h.function x (by simp [hx])
  case free => exact fun x hx => hscopes ▸ Scopes.Free.useAll hfree (h.free x (by simp [hx]))
  case builtin =>
    intro x hx hnone
    refine h.builtin x (by simp [hx]) ?_
    cases hv : s.scopes.find? x with
    | none => rfl
    | some v => rw [hscopes, Scopes.find?_useAll_of_some hfree hv] at hnone; cases hnone
  case named =>
    intro x hx
    rw [hscopes, ← Scopes.useAll_append, h.named x (by simp [hx])]
  case number => exact fun t ht => h.number t (by simp [ht])

end Legible

/-! ### What it means to read a tree -/

section Statements

variable (tokens : Array Token) (js : String → String) (e : Expr) (k : Nat)

/-- An action reads a tree in front of a token that does not carry it on. -/
def ReadBy (action : Nat → Emit String) : Prop :=
  ∀ d s next, e.depth ≤ d → Ahead tokens s.position (e.spelling ++ [next]) → Stops k next →
    Legible js s e.names e.numbers → Gives tokens s (action d) (e.script js) (s.past e)

/-- A level reads a tree. -/
def ReadsAt : Prop := ReadBy tokens js e k fun d => levelOf (expressionTo d) k

/-- What the loop of a level comes to from a tree on, it comes to from the first operand of the tree
on. -/
def StartsAt : Prop :=
  ∀ d s next, e.depth ≤ d → Ahead tokens s.position (e.spelling ++ [next]) → Stops (k + 1) next →
    Legible js s e.names e.numbers →
    let turn := chainTurn (operandOf (expressionTo d) k) (signOf k)
    ∃ left s₁ count, count < e.spelling.length ∧
      Gives tokens s (levelOf (expressionTo d) (k + 1)) left s₁ ∧
      ∀ turns a s', Loops tokens turn turns (e.script js) (s.past e) a s' →
        Loops tokens turn (turns + count) left s₁ a s'

/-- The loop over signs goes up to the operand of a tree, and the operand is read. -/
def SignsAt : Prop :=
  ∀ d s next wrap, e.depth ≤ d → Ahead tokens s.position (e.spelling ++ [next]) →
    Stops signLevel next → Legible js s e.names e.numbers →
    ∃ wrap' operand s₁, Loops tokens (signTurn unarySign?) e.spelling.length wrap s wrap' s₁ ∧
      Gives tokens s₁ (levelOf (expressionTo d) (signLevel + 1)) operand (s.past e) ∧
      wrap' operand = wrap (e.script js)

/-- All levels up to its own read a tree. -/
structure Read : Prop where
  starts : ∀ k ≤ e.level, IsChain k → StartsAt tokens js e k
  signs : signLevel ≤ e.level → SignsAt tokens js e
  primary : e.level = primaryLevel → ReadsAt tokens js e primaryLevel

end Statements

/-! ### From level to level -/

theorem chainTurn_done {sign? : Token → Option Combine} {left : String}
    (hbare : ∀ t, sign? t.bare = sign? t) (h : Ahead tokens s.position (next :: rest))
    (hnone : sign? next = none) : Gives tokens s (chainTurn operand sign? left) (.done left) s := by
  obtain ⟨t, rfl, hcurrent⟩ := current_gives h
  rw [hbare] at hnone
  refine hcurrent.bind ?_
  rw [hnone]
  exact .pure

theorem ReadsAt.startsAt (h : ReadsAt tokens js e (k + 1)) : StartsAt tokens js e k := by
  intro d s next hd hahead hstops hlegible
  obtain ⟨rest, hrest⟩ := e.exists_spelling
  refine ⟨e.script js, s.past e, 0, by rw [hrest]; simp, h d s next hd hahead hstops hlegible, ?_⟩
  exact fun turns a s' hloops => hloops

theorem StartsAt.readsAt (h : StartsAt tokens js e k) (hk : IsChain k) : ReadsAt tokens js e k := by
  intro d s next hd hahead hstops hlegible
  obtain ⟨left, s₁, count, hcount, hfirst, hloops⟩ :=
    h d s next hd hahead (hstops.mono (Nat.le_succ k)) hlegible
  have hdone : Gives tokens (s.past e)
      (chainTurn (operandOf (expressionTo d) k) (signOf k) (e.script js))
        (.done (e.script js)) (s.past e) :=
    chainTurn_done (signOf_bare k) hahead.right (hstops.sign k (Nat.le_refl k))
  have hsize := hahead.left.length_le
  show Gives tokens s (levelOf (expressionTo d) k) _ _
  rw [levelOf_eq_chain hk]
  exact hfirst.bind ((hloops _ _ _ (.done hdone)).gives (by omega))

/-- All looser levels read a tree that one of them reads. -/
theorem ReadsAt.startsAt_below (h : ReadsAt tokens js e (k + 1)) (hk : k < signLevel)
    (hj : j ≤ k) : StartsAt tokens js e j := by
  induction k with
  | zero =>
    obtain rfl : j = 0 := Nat.le_zero.1 hj
    exact h.startsAt
  | succ k ih =>
    rcases Nat.eq_or_lt_of_le hj with rfl | hlt
    · exact h.startsAt
    · exact ih (h.startsAt.readsAt (.inl hk)) (by omega) (Nat.le_of_lt_succ hlt)

theorem signTurn_done (hbare : ∀ t, sign? t.bare = sign? t)
    (h : Ahead tokens s.position (next :: rest)) (hnone : sign? next = none) :
    Gives tokens s (signTurn sign? wrap) (.done wrap) s := by
  obtain ⟨t, rfl, hcurrent⟩ := current_gives h
  rw [hbare] at hnone
  refine hcurrent.bind ?_
  rw [hnone]
  exact .pure

theorem signTurn_again {inner : String → String} (hbare : ∀ t, sign? t.bare = sign? t)
    (h : Ahead tokens s.position (next :: rest)) (hsome : sign? next = some inner)
    (hk : next.kind ≠ .endOfInput) :
    Gives tokens s (signTurn sign? wrap) (.again (wrap ∘ inner)) (s.moved 1) := by
  obtain ⟨t, rfl, hcurrent, hadvance⟩ := advance_gives h hk
  rw [hbare] at hsome
  refine hcurrent.bind ?_
  rw [hsome]
  exact hadvance.bind .pure

theorem ReadsAt.signsAt (h : ReadsAt tokens js e (signLevel + 1))
    (hfirst : unarySign? e.first = none) : SignsAt tokens js e := by
  intro d s next wrap hd hahead hstops hlegible
  obtain ⟨rest, hrest⟩ := e.exists_spelling
  have hread := h d s next hd hahead (hstops.mono (Nat.le_succ _)) hlegible
  rw [hrest, cons_append] at hahead
  refine ⟨wrap, e.script js, s, ?_, hread, rfl⟩
  exact (Loops.done (signTurn_done (fun _ => rfl) hahead hfirst)).mono (by rw [hrest]; simp)

theorem SignsAt.readsAt (h : SignsAt tokens js e) : ReadsAt tokens js e signLevel := by
  intro d s next hd hahead hstops hlegible
  obtain ⟨wrap, operand, s₁, hloops, hoperand, hwrap⟩ := h d s next id hd hahead hstops hlegible
  have hsize := hahead.left.length_le
  show Gives tokens s (Emit.signed _ _) _ _
  rw [signed_eq]
  refine (hloops.gives (by omega)).bind (hoperand.bind ?_)
  rw [hwrap]
  exact .pure

namespace Read

theorem readsAt (h : Read tokens js e) (hk : k ≤ e.level) : ReadsAt tokens js e k := by
  have hle := e.level_le_primaryLevel
  rcases Nat.lt_trichotomy k signLevel with hlt | rfl | hgt
  · exact (h.starts k hk (.inl hlt)).readsAt (.inl hlt)
  · exact (h.signs hk).readsAt
  · have hcases : k = Operator.power.level ∨ k = primaryLevel := by
      simp only [signLevel, primaryLevel, Operator.level] at *
      omega
    rcases hcases with rfl | rfl
    · exact (h.starts _ hk (.inr rfl)).readsAt (.inr rfl)
    · exact h.primary (Nat.le_antisymm hle hk)

theorem ofChain (hlevel : e.level < signLevel) (h : StartsAt tokens js e e.level) :
    Read tokens js e where
  starts k hk _ := by
    rcases Nat.eq_or_lt_of_le hk with rfl | hlt
    · exact h
    · obtain ⟨l, hl⟩ : ∃ l, e.level = l + 1 := Nat.exists_eq_succ_of_ne_zero (by omega)
      have hreads := h.readsAt (.inl hlevel)
      rw [hl] at hreads
      exact hreads.startsAt_below (by omega) (by omega)
  signs hle := absurd hle (by omega)
  primary heq := absurd heq (by simp only [signLevel, primaryLevel] at *; omega)

theorem ofSigns (hlevel : e.level = signLevel) (h : SignsAt tokens js e) : Read tokens js e where
  starts k hk hchain := by
    have hlt : k < signLevel := by
      rcases hchain with hlt | rfl
      · exact hlt
      · rw [hlevel] at hk; exact absurd hk (by decide)
    exact h.readsAt.startsAt_below (k := 4) (by decide) (Nat.le_of_lt_succ hlt)
  signs _ := h
  primary heq := absurd (hlevel.symm.trans heq) (by decide)

theorem ofPower (hlevel : e.level = Operator.power.level) (hfirst : unarySign? e.first = none)
    (h : StartsAt tokens js e Operator.power.level) : Read tokens js e := by
  have hsigns : SignsAt tokens js e := ReadsAt.signsAt (h.readsAt (.inr rfl)) hfirst
  refine ⟨fun k hk hchain => ?_, fun _ => hsigns,
    fun heq => absurd (hlevel.symm.trans heq) (by decide)⟩
  rcases hchain with hlt | rfl
  · exact hsigns.readsAt.startsAt_below (k := 4) (by decide) (Nat.le_of_lt_succ hlt)
  · exact h

theorem ofPrimary (hfirst : unarySign? e.first = none) (h : ReadsAt tokens js e primaryLevel) :
    Read tokens js e := by
  have hstarts : StartsAt tokens js e Operator.power.level := h.startsAt
  have hsigns : SignsAt tokens js e := ReadsAt.signsAt (hstarts.readsAt (.inr rfl)) hfirst
  refine ⟨fun k hk hchain => ?_, fun _ => hsigns, fun _ => h⟩
  rcases hchain with hlt | rfl
  · exact hsigns.readsAt.startsAt_below (k := 4) (by decide) (Nat.le_of_lt_succ hlt)
  · exact hstarts

end Read

/-! ### Primaries -/

theorem readsAt_number (text : String) : ReadsAt tokens js (.number text) primaryLevel := by
  intro d s next _ hahead _ hlegible
  obtain ⟨literal, hliteral⟩ := hlegible.number text (by simp [Expr.numbers])
  obtain ⟨t, ht, hcurrent, hadvance⟩ := advance_gives hahead (by simp [Token.numeral])
  have hk : t.kind = .number := congrArg Token.kind ht
  have htext : t.text = text := congrArg Token.text ht
  refine hcurrent.bind ?_
  rw [hk, htext]
  refine hadvance.bind ?_
  rw [Expr.script, literalOf, hliteral]
  exact .pure

theorem readsAt_string (text : String) : ReadsAt tokens js (.string text) primaryLevel := by
  intro d s next _ hahead _ _
  obtain ⟨t, ht, hcurrent, hadvance⟩ := advance_gives hahead nofun
  have hk : t.kind = .string := congrArg Token.kind ht
  have htext : t.text = text := congrArg Token.text ht
  refine hcurrent.bind ?_
  rw [hk, htext]
  exact hadvance.bind .pure

theorem membersOf_gives {start : TypeSpec}
    (h : Ahead tokens s.position (next :: rest)) (hpoint : next.isMark "." = false) :
    Gives tokens s (membersOf nested start) ⟨"", start⟩ s := by
  refine (Loops.done ?_).gives (Nat.le_add_left 1 _)
  exact (takeMark_not h hpoint).bind .pure

theorem variableUse_gives
    (h : Ahead tokens s.position (next :: rest)) (hstops : Stops k next) :
    Gives tokens s (variableUse nested token (s.scopes.find? token.text))
      (s.scopes.scriptName token.text) { s with scopes := s.scopes.use token.text } := by
  have hindex : Gives tokens s (atMark "(") false s := hstops.index ▸ atMark_gives h
  have hpoint : Gives tokens s (atMark ".") false s := hstops.point ▸ atMark_gives h
  refine hindex.bind ((if_neg Bool.false_ne_true).symm ▸ hpoint.bind ?_)
  rw [Bool.false_and, if_neg Bool.false_ne_true]
  cases hfind : s.scopes.find? token.text with
  | some v =>
    refine (membersOf_gives h hstops.point).bind ?_
    rw [Scopes.use_of_some hfind, Scopes.scriptName_of_some hfind]
    exact congrArg (EStateM.Result.ok · s) String.append_empty
  | none =>
    have hmembers : Gives tokens { s with scopes := s.scopes.use token.text }
        (membersOf nested (typeOf (.implicit token.text))) _ _ := membersOf_gives h hstops.point
    refine (implicitVariable_gives hfind).bind (hmembers.bind ?_)
    change Gives tokens _ (Pure.pure ((Variable.implicit token.text).name ++ "")) _ _
    rw [Scopes.scriptName_of_none hfind, String.append_empty, Variable.name_implicit]
    exact .pure

theorem readsAt_name (text : String) : ReadsAt tokens js (.name text) primaryLevel := by
  intro d s next _ hahead hstops hlegible
  obtain ⟨t, ht, hcurrent, hadvance⟩ := advance_gives hahead nofun
  have hk : t.kind = .identifier := congrArg Token.kind ht
  obtain rfl : t.text = text := congrArg Token.text ht
  have hmem : t.text ∈ (Expr.name t.text).names := by simp [Expr.names]
  have hname : s.scopes.scriptName t.text = js t.text := by
    rw [← hlegible.named _ hmem]
    exact (Scopes.scriptName_use (hlegible.free _ hmem)).symm
  have huse :
      Gives tokens (s.moved 1) (variableUse (expressionTo d) t (s.scopes.find? t.text)) (js t.text)
      (s.past (.name t.text)) :=
    hname ▸ variableUse_gives (s := s.moved 1) hahead.tail hstops
  have hlookup : Gives tokens s (Emit.lookup t.text) (s.scopes.find? t.text) s := rfl
  refine hcurrent.bind ?_
  rw [hk]
  refine .get_bind ?_
  rw [hlegible.procedure _ hmem]
  refine .get_bind ?_
  rw [hlegible.function _ hmem]
  refine hlookup.bind ?_
  cases hfind : s.scopes.find? t.text with
  | none =>
    rw [hlegible.builtin _ hmem hfind]
    exact hadvance.bind (hfind ▸ huse)
  | some v => exact hadvance.bind (hfind ▸ huse)

theorem readsAt_parens (h : Read tokens js e) : ReadsAt tokens js (.parens e) primaryLevel := by
  intro d s next hd hahead _ hlegible
  obtain ⟨d, rfl⟩ : ∃ d', d = d' + 1 :=
    Nat.exists_eq_add_of_le' (Nat.le_trans (Nat.le_add_left 1 _) hd)
  obtain ⟨t, ht, hcurrent, hadvance⟩ := advance_gives hahead (by simp [Token.mark])
  have hk : t.kind = .punctuation := congrArg Token.kind ht
  have hmark : t.isMark "(" = true := congrArg (Token.isMark · "(") ht
  rw [Expr.spelling] at hahead
  have hspelled := hahead.left
  have hopened : Ahead tokens (s.moved 1).position (e.spelling ++ [Token.mark ")"]) := hspelled.tail
  have hstops : Stops 0 (Token.mark ")") := by
    refine ⟨fun j _ => ?_, rfl, rfl⟩
    rcases j with _ | _ | _ | _ | _ | _ | _ | j <;> rfl
  have hinner :
      Gives tokens (s.moved 1) (expressionTo (d + 1)) (e.script js) ((s.moved 1).past e) :=
    h.readsAt (Nat.zero_le _) d (s.moved 1) (.mark ")") (Nat.le_of_succ_le_succ hd) hopened
      hstops (hlegible.moved 1)
  obtain ⟨t', hclose⟩ := expectMark_gives (s := (s.moved 1).past e) hopened.right
  refine hcurrent.bind ?_
  rw [hk]
  refine (if_pos hmark).symm ▸ hadvance.bind (hinner.bind (hclose.bind ?_))
  rw [State.past_parens]
  exact .pure

/-! ### Signs and operators -/

theorem signsAt_signed (h : SignsAt tokens js e) : SignsAt tokens js (.signed sign e) := by
  intro d s next wrap hd hahead hstops hlegible
  have hturn :
      Gives tokens s (signTurn unarySign? wrap) (.again (wrap ∘ sign.script)) (s.moved 1) :=
    signTurn_again (fun _ => rfl) hahead sign.unarySign?_token (by cases sign <;> nofun)
  obtain ⟨wrap', operand, s₁, hloops, hoperand, hwrap⟩ :=
    h d (s.moved 1) next (wrap ∘ sign.script) hd hahead.tail hstops (hlegible.moved 1)
  rw [State.past_signed sign] at hoperand
  exact ⟨wrap', operand, s₁, hloops.again hturn, hoperand, hwrap⟩

/-- A level reads an operand behind one of its operators. -/
def OperandAt (tokens : Array Token) (js : String → String) (e : Expr) (k : Nat) : Prop :=
  ReadBy tokens js e (k + 1) fun d => operandOf (expressionTo d) k

theorem ReadsAt.operandAt (h : ReadsAt tokens js e (k + 1)) (hk : k < signLevel) :
    OperandAt tokens js e k := by
  match k, hk with
  | 0, _ | 1, _ | 2, _ | 3, _ | 4, _ => exact h

theorem ReadsAt.exponent (h : ReadsAt tokens js e primaryLevel)
    (hfirst : unarySign? e.first = none) : OperandAt tokens js e Operator.power.level := by
  intro d s next hd hahead hstops hlegible
  obtain ⟨rest, hrest⟩ := e.exists_spelling
  have hread := h d s next hd hahead hstops hlegible
  rw [hrest, cons_append] at hahead
  have hdone : Gives tokens s (signTurn exponentSign? id) (.done id) s :=
    signTurn_done (fun _ => rfl) hahead (exponentSign?_of_unarySign? hfirst)
  show Gives tokens s (Emit.signed _ _) _ _
  rw [signed_eq]
  exact ((Loops.done hdone).gives (Nat.le_add_left 1 _)).bind (hread.bind .pure)

theorem ReadsAt.signedExponent (hsign : exponentSign? sign.token = some sign.script)
    (h : ReadsAt tokens js e primaryLevel) (hfirst : unarySign? e.first = none) :
    OperandAt tokens js (.signed sign e) Operator.power.level := by
  intro d s next hd hahead hstops hlegible
  obtain ⟨rest, hrest⟩ := e.exists_spelling
  have hread := h d (s.moved 1) next hd hahead.tail hstops (hlegible.moved 1)
  have hagain :
      Gives tokens s (signTurn exponentSign? id) (.again (id ∘ sign.script)) (s.moved 1) :=
    signTurn_again (fun _ => rfl) hahead hsign (by cases sign <;> nofun)
  have hsize := hahead.left.length_le
  have hbehind : Ahead tokens (s.moved 1).position (e.first :: (rest ++ [next])) := by
    have := hahead.tail
    rwa [hrest] at this
  have hdone : Gives tokens (s.moved 1) (signTurn exponentSign? (id ∘ sign.script))
      (.done (id ∘ sign.script)) (s.moved 1) :=
    signTurn_done (fun _ => rfl) hbehind (exponentSign?_of_unarySign? hfirst)
  show Gives tokens s (Emit.signed _ _) _ _
  rw [signed_eq]
  rw [State.past_signed sign] at hread
  rw [Expr.spelling, hrest, length_cons, length_cons] at hsize
  exact (((Loops.done hdone).again hagain).gives (by omega)).bind (hread.bind .pure)

theorem startsAt_binary {left right : Expr} (hl : StartsAt tokens js left o.level)
    (hr : OperandAt tokens js right o.level) :
    StartsAt tokens js (.binary o left right) o.level := by
  intro d s next hd hahead hstops hlegible
  rw [Expr.depth, Nat.max_le] at hd
  rw [Expr.spelling, append_assoc] at hahead
  have hfront :
      Ahead tokens s.position (left.spelling ++ [o.token] ++ (right.spelling ++ [next])) := by
    simpa using hahead
  obtain ⟨first, s₁, count, hcount, hfirst, hloops⟩ :=
    hl d s o.token hd.1 hfront.left (o.stops_token (Nat.lt_succ_self _)) hlegible.left
  have hsign : Ahead tokens (s.past left).position (o.token :: (right.spelling ++ [next])) :=
    hahead.right
  obtain ⟨t, ht, hcurrent, hadvance⟩ := advance_gives hsign o.kind_token
  have hoperand := hr d ((s.past left).moved 1) next hd.2 hsign.tail hstops
    (hlegible.right rfl rfl rfl)
  rw [State.past_binary o] at hoperand
  refine ⟨first, s₁, count + 1, ?_, hfirst, fun turns a s' hend => ?_⟩
  · simp only [Expr.spelling, length_append, length_cons]
    omega
  · rw [Nat.add_comm count, ← Nat.add_assoc]
    refine hloops _ a s' (.again (hcurrent.bind ?_) hend)
    rw [← signOf_bare, ht, o.signOf_token]
    exact hadvance.bind (hoperand.bind .pure)

theorem Read.operandAt_power (h : Read tokens js e) (hproper : e.Proper)
    (hexponent : e.isExponent = true)
    (hinner : ∀ sign operand, e = .signed sign operand → Read tokens js operand) :
    OperandAt tokens js e Operator.power.level := by
  have hprimary (hlevel : e.level = primaryLevel) : OperandAt tokens js e Operator.power.level :=
    (h.primary hlevel).exponent (unarySign?_first hproper (by rw [hlevel]; decide))
  cases e with
  | signed sign operand =>
    have hsigned (hlevel : operand.level = primaryLevel)
        (hsign : exponentSign? sign.token = some sign.script) :
        OperandAt tokens js (.signed sign operand) Operator.power.level :=
      ReadsAt.signedExponent hsign ((hinner sign operand rfl).primary hlevel)
        (unarySign?_first hproper.1 (by rw [hlevel]; decide))
    cases sign with
    | minus => exact hsigned (by simpa [Expr.isExponent] using hexponent) rfl
    | plus => exact hsigned (by simpa [Expr.isExponent] using hexponent) rfl
    | not => simp [Expr.isExponent, Expr.level, signLevel, primaryLevel] at hexponent
  | _ => exact hprimary (by simpa [Expr.isExponent] using hexponent)

theorem Expr.Proper.binary {left right : Expr} (h : (Expr.binary o left right).Proper)
    (ho : o ≠ .power) :
    left.Proper ∧ right.Proper ∧ o.level ≤ left.level ∧ o.level < right.level := by
  cases o <;> first | exact h | exact absurd rfl ho

/-- **Every proper tree is read** by all levels up to its own. -/
theorem read_of_proper (h : e.Proper) : Read tokens js e := by
  -- an exponent may have a sign, whose operand is two constructors away
  suffices hboth : Read tokens js e ∧ ∀ sign x, e = .signed sign x → Read tokens js x from hboth.1
  induction e with
  | number text => exact ⟨.ofPrimary rfl (readsAt_number text), nofun⟩
  | string text => exact ⟨.ofPrimary rfl (readsAt_string text), nofun⟩
  | name text => exact ⟨.ofPrimary rfl (readsAt_name text), nofun⟩
  | parens inner ih => exact ⟨.ofPrimary rfl (readsAt_parens (ih h).1), nofun⟩
  | signed sign operand ih =>
    have hoperand : Read tokens js operand := (ih h.1).1
    refine ⟨.ofSigns rfl (signsAt_signed (hoperand.signs h.2)), fun sign' x heq => ?_⟩
    cases heq
    exact hoperand
  | binary o left right ihl ihr =>
    refine ⟨?_, nofun⟩
    by_cases hpower : o = .power
    · subst hpower
      obtain ⟨hleft, hright, hlevel, hexponent⟩ := h
      have hoperand : OperandAt tokens js right Operator.power.level :=
        (ihr hright).1.operandAt_power hright hexponent (ihr hright).2
      have hstarts := startsAt_binary ((ihl hleft).1.starts _ hlevel (.inr rfl)) hoperand
      exact .ofPower rfl (unarySign?_first (e := .binary .power left right) ⟨hleft,
        hright, hlevel, hexponent⟩
        (Nat.lt_succ_self _)) hstarts
    · obtain ⟨hleft, hright, hlevel, hlevel'⟩ := h.binary hpower
      have hlt : o.level < signLevel :=
        o.isChain.resolve_right (by cases o <;> simp_all [Operator.level])
      have hoperand : OperandAt tokens js right o.level :=
        ((ihr hright).1.readsAt hlevel').operandAt hlt
      exact .ofChain hlt (startsAt_binary ((ihl hleft).1.starts _ hlevel o.isChain) hoperand)

/-! ### Whole expressions -/

/-- The first token of an expression ends nothing. -/
theorem Expr.first_demanded (e : Expr) :
    (e.first.endsStatement || e.first.isMark "," || e.first.isMark ")") = false := by
  induction e with
  | number | string | name | parens => rfl
  | signed sign => cases sign <;> rfl
  | binary o left right ihl => exact ihl

theorem demandExpression_gives (h : Ahead tokens s.position (e.spelling ++ rest)) :
    Gives tokens s demandExpression () s := by
  obtain ⟨rest', hrest⟩ := e.exists_spelling
  rw [hrest] at h
  obtain ⟨t, ht, hcurrent⟩ := current_gives h
  have hopens : (t.endsStatement || t.isMark "," || t.isMark ")") = false :=
    (congrArg (fun t => t.endsStatement || t.isMark "," || t.isMark ")") ht).trans e.first_demanded
  refine hcurrent.bind ?_
  rw [hopens]
  rfl

/-- An expression that is spelled ahead is used up, and is returned in JavaScript. -/
theorem expression_gives (hproper : e.Proper)
    (hahead : Ahead tokens s.position (e.spelling ++ [next])) (hstops : Stops 0 next)
    (hlegible : Legible js s e.names e.numbers) :
    Gives tokens s expression (e.script js) (s.past e) := by
  have hdepth : e.depth ≤ tokens.size := by
    have := e.depth_lt_length
    have := hahead.left.length_le
    omega
  have hread : Gives tokens s (expressionTo (tokens.size + 1)) (e.script js) (s.past e) :=
    (read_of_proper hproper).readsAt (Nat.zero_le _) tokens.size s next hdepth hahead hstops
      hlegible
  exact (demandExpression_gives hahead).bind (Gives.budget.bind hread)

/-- Whether a token can carry on an expression in front of it: an operator, an index or a point. -/
def Token.continues (token : Token) : Bool :=
  Operator.all.any (·.token = token.bare) || token.isMark "(" || token.isMark "."

theorem stops_of_continues (h : token.continues = false) : Stops 0 token := by
  simp only [Token.continues, Bool.or_eq_false_iff, any_eq_false, decide_eq_true_eq] at h
  have hword (o : Operator) (text : String) (ho : o.token = .word text) :
      token.isKeyword text = false := by
    have hne := ho ▸ h.1.1 o o.mem_all
    simp only [Token.isKeyword, Bool.and_eq_false_imp, decide_eq_true_eq, decide_eq_false_iff_not]
    rintro hk rfl
    exact hne (by rw [Token.word, Token.bare, hk])
  have hsign (o : Operator) (text : String) (ho : o.token = .sign text) :
      token.isOperator text = false := by
    have hne := ho ▸ h.1.1 o o.mem_all
    simp only [Token.isOperator, Bool.and_eq_false_imp, decide_eq_true_eq, decide_eq_false_iff_not]
    rintro hk rfl
    exact hne (by rw [Token.sign, Token.bare, hk])
  refine ⟨fun j _ => ?_, h.1.2, h.2⟩
  rcases j with _ | _ | _ | _ | _ | _ | _ | j
  · simp [signOf, disjunctionSign?, hword .or "OR" rfl, hword .xor "XOR" rfl]
  · simp [signOf, conjunctionSign?, hword .and "AND" rfl]
  · have hequal := hsign (.compare .equal) "=" rfl
    have hunequal := hsign (.compare .unequal) "<>" rfl
    have hless := hsign (.compare .less) "<" rfl
    have hgreater := hsign (.compare .greater) ">" rfl
    have hatMost := hsign (.compare .atMost) "<=" rfl
    have hatLeast := hsign (.compare .atLeast) ">=" rfl
    simp_all [signOf, comparisonSign?, comparison?, Token.isOperator]
  · simp [signOf, sumSign?, hsign .plus "+" rfl, hsign .minus "-" rfl]
  · simp [signOf, productSign?, hsign .times "*" rfl, hsign .divide "/" rfl, hsign .wholes "\\" rfl,
      hword .modulo "MOD" rfl]
  · rfl
  · simp [signOf, powerSign?, hsign .power "^" rfl]
  · rfl

/-- A literal that can be written: its numeral has a point, or no more digits than can be read. -/
def Writable (text : String) : Prop :=
  Numeral text.toList ∧ ('.' ∈ text.toList ∨ (text.toList.filter isDigit).length ≤ digitLimit)

theorem Writable.exists_number (h : Writable text) : ∃ literal, number text = .ok literal := by
  cases hnumber : number text with
  | ok literal => exact ⟨literal, rfl⟩
  | error fault =>
    obtain ⟨hpoint, hlimit, -⟩ := number_error h.1 hnumber
    rcases h.2 with hdot | hle
    · exact absurd hdot hpoint
    · omega

/-- A name that stands for a declared variable: no procedure and no function of one line has it. -/
structure State.Declares (s : State) (name : String) : Prop where
  found : (s.scopes.find? name).isSome
  procedure : s.procedures.get? (Text.upper name) = none
  function : s.functions.get? (Text.upper name) = none

/-- **Expressions are read by precedence.**  Let the spelling of an expression tree, with just the
parentheses that it needs, be ahead, and behind it a token that cannot carry it on.  If its names
are declared variables and its numbers can be written, the emitter uses up exactly the spelling,
changes nothing else, and returns the tree in JavaScript. -/
theorem explicit_spelling_read (tokens : Array Token) (s : State) (e : Expr) (next : Token)
    (hahead : Ahead tokens s.position (e.explicit.spelling ++ [next.bare]))
    (hnext : next.continues = false) (hnames : ∀ n ∈ e.names, s.Declares n)
    (hnumbers : ∀ t ∈ e.numbers, Writable t) :
    expression tokens s = .ok (e.explicit.script s.scopes.scriptName)
      { s with position := s.position + e.explicit.spelling.length } := by
  have hfound : ∀ n ∈ e.explicit.names, ∃ v, s.scopes.find? n = some v := fun n hn =>
    Option.isSome_iff_exists.1 (hnames n (e.names_explicit ▸ hn)).found
  have hscopes : s.scopes.useAll e.explicit.names = s.scopes := Scopes.useAll_of_some hfound
  have hlegible : Legible s.scopes.scriptName s e.explicit.names e.explicit.numbers := by
    rw [e.names_explicit] at *
    constructor
    case procedure => exact fun n hn => (hnames n hn).procedure
    case function => exact fun n hn => (hnames n hn).function
    case free => exact fun n hn hnone => absurd (hfound n hn) (by simp [hnone])
    case builtin => exact fun n hn hnone => absurd (hfound n hn) (by simp [hnone])
    case named => exact fun n _ => by rw [hscopes]
    case number => exact fun t ht => (hnumbers t (e.numbers_explicit ▸ ht)).exists_number
  have hread := expression_gives e.proper_explicit hahead
    (show Stops 0 next.bare from stops_of_continues hnext) hlegible
  rw [State.past, hscopes] at hread
  exact hread

theorem writable_digits (hdigits : ∀ c ∈ text.toList, isDigit c = true)
    (hne : text.toList ≠ []) (hlimit : text.toList.length ≤ digitLimit) : Writable text :=
  ⟨⟨text.toList, [], [], [], by simp, hdigits, by simp, .inl ⟨rfl, rfl⟩, .inl hne, .inl rfl⟩,
    .inr (by rwa [filter_eq_self.2 hdigits])⟩

/-- `-2 ^ -x * (x + 1) <> 3 OR NOT x`. -/
def signedPower : Expr :=
  .binary .or
    (.binary (.compare .unequal)
      (.binary .times (.signed .minus (.binary .power (.number "2") (.signed .minus (.name "x"))))
        (.binary .plus (.name "x") (.number "1")))
      (.number "3"))
    (.signed .not (.name "x"))

/-- A state in which `x` is declared, as `X`. -/
def declaringX : State := { scopes := (Scopes.start 0 1).use "X" }

/-- The sum is the only operand that needs parentheses. -/
theorem signedPower_read :
    signedPower.explicit.spelling =
      [.sign "-", .numeral "2", .sign "^", .sign "-", .named "x", .sign "*",
      .mark "(", .named "x", .sign "+", .numeral "1", .mark ")", .sign "<>",
      .numeral "3", .word "OR", .word "NOT", .named "x"] ∧
    expression (signedPower.explicit.spelling ++ [Token.lineEnd]).toArray declaringX =
      .ok "((((-Math.pow(2, (-X))) * ((X + 1))) !== 3) || (!X))" (declaringX.moved 16) := by
  have hdigits (text : String) (h : text ∈ signedPower.numbers) : Writable text := by
    have hmem : text = "2" ∨ text = "1" ∨ text = "3" := by simpa [signedPower, Expr.numbers] using h
    rcases hmem with rfl | rfl | rfl
    all_goals exact writable_digits (all_eq_true.1 (by decide)) (by decide) (by decide)
  have hread :=
    explicit_spelling_read (signedPower.explicit.spelling ++ [Token.lineEnd]).toArray declaringX
    signedPower .lineEnd ⟨0, rfl, by decide +kernel⟩ rfl
    (fun n hn => by
      obtain rfl : n = "x" := by simpa [signedPower, Expr.names] using hn
      exact ⟨by decide +kernel, rfl, rfl⟩)
    hdigits
  have hscript : signedPower.explicit.script declaringX.scopes.scriptName =
      "((((-Math.pow(2, (-X))) * ((X + 1))) !== 3) || (!X))" := by decide +kernel
  have hlength : signedPower.explicit.spelling.length = 16 := by decide +kernel
  rw [hscript, hlength] at hread
  exact ⟨by decide +kernel, hread⟩

/-! ### Literals that cannot be written -/

theorem chain_error {first : Emit String} {sign? : Token → Option Combine}
    (h : first tokens s = .error failure s') :
    chain first operand sign? tokens s = .error failure s' :=
  bind_error h _

theorem signed_error (hbare : ∀ t, sign? t.bare = sign? t)
    (hahead : Ahead tokens s.position (next :: rest)) (hnone : sign? next = none)
    (h : operand tokens s = .error failure s') :
    Emit.signed operand sign? tokens s = .error failure s' := by
  have hdone : Gives tokens s (signTurn sign? id) (.done id) s := signTurn_done hbare hahead hnone
  rw [signed_eq, bind_ok ((Loops.done hdone).gives (Nat.le_add_left 1 _))]
  exact bind_error h _

/-- Digits of which there are too many end the pass. -/
theorem expression_tooManyDigits
    (hdigits : ∀ c ∈ text.toList, isDigit c = true) (hlimit : digitLimit < text.toList.length)
    (hahead : Ahead tokens s.position (.numeral text :: rest)) :
    expression tokens s = .error (.fault (.tooManyDigits text.toList.length)) (s.moved 1) := by
  obtain ⟨t, ht, hcurrent, hadvance⟩ := advance_gives hahead nofun
  have hk : t.kind = .number := congrArg Token.kind ht
  have htext : t.text = text := congrArg Token.text ht
  have hnumber : number text = .error (.tooManyDigits text.toList.length) := by
    have hbody : ∀ c ∈ text.toList, isNumeralChar c = true := fun c hc => by
      simp [isNumeralChar, hdigits c hc]
    have hdrop := dropNumberSuffix_body hbody (.inl rfl)
    have hpoint : '.' ∉ text.toList := fun hc => (isDigit_facts (hdigits _ hc)).2.2.2.2.2.1 rfl
    have hwhole := whole_digits hdigits (ne_nil_of_length_pos (Nat.zero_lt_of_lt hlimit))
    rw [append_nil, String.ofList_toList] at hdrop
    rw [String.ofList_toList, if_pos hlimit] at hwhole
    simp [number, hdrop, hwhole, hpoint, Except.map]
  have hprimary (d : Nat) : primary (expressionTo d) tokens s =
      .error (.fault (.tooManyDigits text.toList.length)) (s.moved 1) := by
    refine (bind_ok hcurrent _).trans ?_
    rw [hk, htext]
    refine (bind_ok hadvance _).trans ?_
    rw [hnumber]
    rfl
  have hunary (d : Nat) : unary (expressionTo d) tokens s =
      .error (.fault (.tooManyDigits text.toList.length)) (s.moved 1) :=
    signed_error (fun _ => rfl) hahead rfl (chain_error (hprimary d))
  have hread : expressionTo (tokens.size + 1) tokens s =
      .error (.fault (.tooManyDigits text.toList.length)) (s.moved 1) :=
    chain_error (chain_error (chain_error (chain_error (chain_error (hunary tokens.size)))))
  exact (bind_ok (demandExpression_gives (e := .number text) hahead) _).trans hread

/-- A state inside a function `f`, with the variable of its result. -/
def insideF : State :=
  { scopes :=
      (((Scopes.start 0 1).push .function (some "f") 1 2).declare "f" { name := "f_result" }).2,
    procedures := [("F", ⟨"f", "f", .function, 0⟩)] }

/-- What an action returned. -/
def returned? {α : Type} : EStateM.Result Failure State α → Option α
  | .ok a _ => some a
  | .error _ _ => none

theorem exists_ok_of_returned? {α : Type} {a : α} {r : EStateM.Result Failure State α}
    (h : returned? r = some a) : ∃ s, r = .ok a s := by
  cases r with
  | ok b s => cases h; exact ⟨s, rfl⟩
  | error failure s => cases h

/-- A literal with one digit too many. -/
def tooManyOnes : String := String.ofList (List.replicate 4301 '1')

/-- **What is not read as it is written.**  A number without a point and with too many digits ends
the pass; and inside a function its name is a call of the function, although it is also the variable
of the result. -/
theorem unread_literal_and_result :
    (Expr.number tooManyOnes).explicit.spelling = [.numeral tooManyOnes] ∧
    expression #[.numeral tooManyOnes, .inputEnd] {} =
      .error (.fault (.tooManyDigits 4301)) (State.moved {} 1) ∧
    insideF.scopes.find? "f" = some { name := "f_result" } ∧
    ∃ s, expression #[.named "f", .inputEnd] insideF = .ok "(await f())" s := by
  have hones : tooManyOnes.toList = List.replicate 4301 '1' := String.toList_ofList
  have hlength : tooManyOnes.toList.length = 4301 := by rw [hones, length_replicate]
  have hdigits : ∀ c ∈ tooManyOnes.toList, isDigit c = true := fun c hc => by
    rw [hones] at hc
    rw [eq_of_mem_replicate hc]
    rfl
  have hahead : Ahead #[.numeral tooManyOnes, .inputEnd] (State.position {})
      [.numeral tooManyOnes, .inputEnd] := ⟨0, rfl, prefix_refl _⟩
  have herror := expression_tooManyDigits hdigits (by rw [hlength]; decide) hahead
  rw [hlength] at herror
  have hcall : returned? (expression #[.named "f", .inputEnd] insideF) = some "(await f())" := by
    decide +kernel
  exact ⟨rfl, herror, by decide +kernel, exists_ok_of_returned? hcall⟩

end BasicScript
