import BasicScript.Proofs.Cursor

/-!
# Parentheses

The announcements count the parameters of a procedure by its commas: those directly in the
parentheses behind its name.  The pass reads the parameters themselves, and between two commas there
may be parentheses of arrays and whole expressions.

`Tape.Tilts` says from which depth in parentheses to which the tokens between two states lead.  If
they end as deep as they begin, with no comma outside of parentheses of their own, they have no
comma that counts as one between parameters (`Tilts.countFrom`).
-/

namespace BasicScript

open Emit List

variable {tape : Tape} {s s₁ s' : State} {token : Token} {depth middle last : Nat}

/-! ### Depth -/

/-- How deep in parentheses some tokens of a line end that begin `depth` deep.  They close no more
than is open, and no comma stands outside of parentheses. -/
def depthBehind (depth : Nat) : List Token → Option Nat
  | [] => some depth
  | token :: rest =>
    if token.endsLine then none
    else if token.isMark "(" then depthBehind (depth + 1) rest
    else if token.isMark ")" then
      match depth with
      | 0 => none
      | depth + 1 => depthBehind depth rest
    else if token.isMark "," && depth = 0 then none
    else depthBehind depth rest

theorem depthBehind_append (depth : Nat) (front back : List Token) :
    depthBehind depth (front ++ back) = (depthBehind depth front).bind (depthBehind · back) := by
  induction front generalizing depth with
  | nil => rfl
  | cons token rest ih =>
    simp only [cons_append, depthBehind]
    split
    · rfl
    split
    · exact ih _
    split
    · cases depth with
      | zero => rfl
      | succ depth => exact ih depth
    split
    · rfl
    · exact ih _

/-- What can be passed at some depth can be passed at any greater one. -/
theorem depthBehind_add {depth last : Nat} {tokens : List Token}
    (h : depthBehind depth tokens = some last) (more : Nat) :
    depthBehind (depth + more) tokens = some (last + more) := by
  induction tokens generalizing depth with
  | nil =>
    cases h
    rfl
  | cons token rest ih =>
    simp only [depthBehind] at h ⊢
    split at h
    · cases h
    rw [if_neg ‹_›]
    split at h
    · rw [if_pos ‹_›, Nat.add_right_comm]
      exact ih h
    rw [if_neg ‹_›]
    split at h
    · rw [if_pos ‹_›]
      cases depth with
      | zero => cases h
      | succ depth =>
        rw [Nat.add_right_comm]
        exact ih h
    rw [if_neg ‹_›]
    split at h
    · cases h
    · rename_i hcomma
      rw [if_neg (fun hmore => hcomma (by simp_all))]
      exact ih h

/-- **Counting.**  Tokens whose parentheses close have no comma that counts as one between
parameters. -/
theorem countParameters_of_depthBehind {depth last : Nat} {front : List Token}
    (h : depthBehind depth front = some last) (commas : Nat) (back : List Token) :
    countParameters (depth + 1) commas true (front ++ back) = countParameters
      (last + 1) commas true back := by
  induction front generalizing depth with
  | nil =>
    cases h
    rfl
  | cons token rest ih =>
    simp only [cons_append, depthBehind, countParameters] at h ⊢
    split at h
    · cases h
    rw [if_neg ‹_›]
    split at h
    · rw [if_pos ‹_›]
      exact ih h
    rw [if_neg ‹_›]
    split at h
    · rw [if_pos ‹_›]
      cases depth with
      | zero => cases h
      | succ depth =>
        rw [if_neg (by omega)]
        exact ih h
    rw [if_neg ‹_›]
    split at h
    · cases h
    rename_i hcomma
    split
    · rw [if_neg (by simp_all)]
      exact ih h
    · exact ih h

theorem Token.isMark_ne {mark other : String} (h : token.isMark mark = true) (hne : mark ≠ other) :
    token.isMark other = false := by
  simp only [Token.isMark, Bool.and_eq_true, decide_eq_true_eq] at h
  simp [Token.isMark, h, hne]

/-- A token inside a line that is neither a parenthesis nor a comma. -/
structure Token.Even (token : Token) : Prop where
  endsLine : token.endsLine = false
  opens : token.isMark "(" = false
  closes : token.isMark ")" = false
  comma : token.isMark "," = false

namespace Token.Even

theorem of_kind (h : token.endsLine = false) (hk : token.kind ≠ .punctuation) : token.Even := by
  refine ⟨h, ?_, ?_, ?_⟩ <;> simp [Token.isMark, hk]

theorem keyword {word : String} (h : token.isKeyword word = true) : token.Even :=
  .of_kind (Token.endsLine_of_isKeyword h) (by simp [Token.kind_of_isKeyword h])

theorem operator {sign : String} (h : token.isOperator sign = true) : token.Even :=
  .of_kind (Token.endsLine_of_isOperator h) (by simp [Token.kind_of_isOperator h])

theorem word (h : token.isWord = true) : token.Even := by
  refine .of_kind (Token.endsLine_of_isWord h) ?_
  rcases Token.kind_of_isWord h with hk | hk <;> simp [hk]

theorem point (h : token.isMark "." = true) : token.Even :=
  ⟨Token.endsLine_of_isMark h, Token.isMark_ne h (by decide), Token.isMark_ne h (by decide),
    Token.isMark_ne h (by decide)⟩

end Token.Even

/-! ### Stretches of tokens -/

/-- The tokens from the cursor of one state up to that of another lead from one depth to another. -/
def Tape.Tilts (tape : Tape) (depth last : Nat) (s s' : State) : Prop :=
  ∃ front, tape.tokens.toList.drop s.position.toNat = front ++
    tape.tokens.toList.drop s'.position.toNat ∧ depthBehind depth front = some last

theorem Tape.drop_eq {place : Int} (h : 0 ≤ place) (ht : tape.tokens[place.toNat]? = some token) :
    tape.tokens.toList.drop place.toNat = token :: tape.tokens.toList.drop (place + 1).toNat := by
  rw [show (place + 1).toNat = place.toNat + 1 by omega]
  refine drop_eq_getElem?_toList_append.trans ?_
  rw [Array.getElem?_toList, ht]
  rfl

namespace Tape.Tilts

theorem of_eq (h : s'.position = s.position) : tape.Tilts depth depth s s' :=
  ⟨[], by rw [h, nil_append], rfl⟩

theorem refl (s : State) : tape.Tilts depth depth s s := .of_eq rfl

theorem trans (h : tape.Tilts depth middle s s₁) (h' : tape.Tilts middle last s₁ s') :
    tape.Tilts depth last s s' := by
  obtain ⟨front, hfront, hdepth⟩ := h
  obtain ⟨front', hfront', hdepth'⟩ := h'
  refine ⟨front ++ front', by rw [hfront, hfront', append_assoc], ?_⟩
  rw [depthBehind_append, hdepth]
  exact hdepth'

theorem add (h : tape.Tilts depth last s s') (more : Nat) :
    tape.Tilts (depth + more) (last + more) s s' :=
  have ⟨front, hfront, hdepth⟩ := h
  ⟨front, hfront, depthBehind_add hdepth more⟩

end Tape.Tilts

namespace Tape.Under

variable (h : tape.Under s token) (hs : Sound tape s) (hp : s'.position = s.position + 1)

include h hs hp

theorem tilts (hdepth : depthBehind depth [token] = some last) : tape.Tilts depth last s s' :=
  ⟨[token], by rw [Tape.drop_eq hs.position_nonneg h, hp, singleton_append], hdepth⟩

theorem even (heven : token.Even) : tape.Tilts depth depth s s' :=
  h.tilts hs hp (by simp [depthBehind, heven.endsLine, heven.opens, heven.closes, heven.comma])

theorem opens (hmark : token.isMark "(" = true) : tape.Tilts depth (depth + 1) s s' :=
  h.tilts hs hp (by simp [depthBehind, hmark, Token.endsLine_of_isMark hmark])

theorem closes (hmark : token.isMark ")" = true) : tape.Tilts (depth + 1) depth s s' := by
  have hopens : token.isMark "(" = false := Token.isMark_ne hmark (by decide)
  exact h.tilts hs hp (by simp [depthBehind, hmark, hopens, Token.endsLine_of_isMark hmark])

theorem comma (hmark : token.isMark "," = true) : tape.Tilts (depth + 1) (depth + 1) s s' := by
  have hopens : token.isMark "(" = false := Token.isMark_ne hmark (by decide)
  have hcloses : token.isMark ")" = false := Token.isMark_ne hmark (by decide)
  exact h.tilts hs hp (by simp [depthBehind, Token.endsLine_of_isMark hmark, hopens, hcloses])

end Tape.Under

theorem take_tilts {level : Level} {test : Token → Bool} (htest : ∀ t, test t = true → t.Even) :
    Does tape level s (Emit.take test) fun _ s' => tape.Tilts 0 0 s s' := by
  refine .ofSound fun hs => (take_tests fun t ht => (htest t ht).endsLine).mono ?_
  rintro b s' _ ⟨token, ht, hpasses, hs'⟩
  cases b with
  | true => exact ht.even hs hs' (htest token hpasses)
  | false => exact .of_eq (congrArg State.position hs')

/-! ### Counting -/

/-- The number of parameters that is counted from the cursor on, with some commas counted before. -/
def Tape.countFrom (tape : Tape) (commas : Nat) (any : Bool) (s : State) : Nat :=
  countParameters 1 commas any (tape.tokens.toList.drop s.position.toNat)

theorem Tape.Tilts.countFrom (h : tape.Tilts 0 0 s s') (commas : Nat) :
    tape.countFrom commas true s = tape.countFrom commas true s' := by
  obtain ⟨front, hfront, hdepth⟩ := h
  rw [Tape.countFrom, hfront]
  exact countParameters_of_depthBehind hdepth commas _

namespace Tape.Under

variable (h : tape.Under s token) (hs : Sound tape s) (hp : s'.position = s.position + 1)
    (commas : Nat) (any : Bool)

include h hs

theorem countFrom_closes (hmark : token.isMark ")" = true) :
    tape.countFrom commas any s = commas + any.toNat := by
  have hopens : token.isMark "(" = false := Token.isMark_ne hmark (by decide)
  simp [Tape.countFrom, Tape.drop_eq hs.position_nonneg h, countParameters,
    Token.endsLine_of_isMark hmark, hopens, hmark]

include hp

theorem countFrom_even (heven : token.Even) :
    tape.countFrom commas any s = tape.countFrom commas true s' := by
  simp [Tape.countFrom, Tape.drop_eq hs.position_nonneg h, hp, countParameters,
    heven.endsLine, heven.opens, heven.closes, heven.comma]

theorem countFrom_comma (hmark : token.isMark "," = true) :
    tape.countFrom commas any s = tape.countFrom (commas + 1) any s' := by
  have hopens : token.isMark "(" = false := Token.isMark_ne hmark (by decide)
  have hcloses : token.isMark ")" = false := Token.isMark_ne hmark (by decide)
  simp [Tape.countFrom, Tape.drop_eq hs.position_nonneg h, hp, countParameters,
    Token.endsLine_of_isMark hmark, hopens, hcloses, hmark]

theorem parameterCount_opens (hmark : token.isMark "(" = true) :
    parameterCount (tape.tokens.toList.drop s.position.toNat) = tape.countFrom 0 false s' := by
  simp [Tape.countFrom, Tape.drop_eq hs.position_nonneg h, hp, parameterCount, countParameters,
    Token.endsLine_of_isMark hmark, hmark]

end Tape.Under

end BasicScript
