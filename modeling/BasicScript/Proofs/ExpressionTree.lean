import BasicScript.Proofs.Ahead

/-!
# Expression trees

An expression as a tree, how it is spelled in tokens, and how it is written in JavaScript.

Of two operators the one of the higher level holds its operands tighter, and operators of one level
group from the left.  Where a tree has it otherwise its spelling needs parentheses; `Expr.explicit`
puts in exactly these, and `Expr.Proper` is a tree in which none is missing.
-/

namespace BasicScript

open List

/-! ### Operators -/

/-- The comparisons. -/
inductive Comparison where
  | equal | unequal | less | greater | atMost | atLeast
deriving Repr, DecidableEq

namespace Comparison

/-- How a comparison is spelled. -/
def sign : Comparison → String
  | equal => "="
  | unequal => "<>"
  | less => "<"
  | greater => ">"
  | atMost => "<="
  | atLeast => ">="

/-- The comparison in JavaScript. -/
def script : Comparison → String
  | equal => "==="
  | unequal => "!=="
  | c => c.sign

end Comparison

/-- The operators with two sides.  `wholes` is the division of whole numbers. -/
inductive Operator where
  | or | xor | and
  | compare (c : Comparison)
  | plus | minus
  | times | divide | wholes | modulo
  | power
deriving Repr, DecidableEq

/-- What can stand in front of an operand. -/
inductive Sign where
  | minus | plus | not
deriving Repr, DecidableEq

/-- The level of signs and `NOT`, between products and powers. -/
def signLevel : Nat := 5

/-- The level of what no operator can take apart. -/
def primaryLevel : Nat := 7

namespace Operator

/-- How an operator is spelled. -/
def token : Operator → Token
  | or => .word "OR"
  | xor => .word "XOR"
  | and => .word "AND"
  | compare c => .sign c.sign
  | plus => .sign "+"
  | minus => .sign "-"
  | times => .sign "*"
  | divide => .sign "/"
  | wholes => .sign "\\"
  | modulo => .word "MOD"
  | power => .sign "^"

/-- How tightly an operator holds its operands, the loosest first. -/
def level : Operator → Nat
  | or | xor => 0
  | and => 1
  | compare _ => 2
  | plus | minus => 3
  | times | divide | wholes | modulo => 4
  | power => 6

/-- Two operands with a JavaScript operator between them, in parentheses. -/
def grouped (sign a b : String) : String := "(" ++ a ++ " " ++ sign ++ " " ++ b ++ ")"

/-- The operation in JavaScript, in parentheses or as a call. -/
def script (o : Operator) (a b : String) : String :=
  match o with
  | or => grouped "||" a b
  | xor => "(Boolean(" ++ a ++ ") !== Boolean(" ++ b ++ "))"
  | and => grouped "&&" a b
  | compare c => grouped c.script a b
  | plus => grouped "+" a b
  | minus => grouped "-" a b
  | times => grouped "*" a b
  | divide => grouped "/" a b
  | wholes => "Math.trunc(" ++ a ++ " / " ++ b ++ ")"
  | modulo => grouped "%" a b
  | power => "Math.pow(" ++ a ++ ", " ++ b ++ ")"

/-- Every operator. -/
def all : List Operator :=
  [or, xor, and, compare .equal, compare .unequal, compare .less, compare .greater, compare .atMost,
    compare .atLeast, plus, minus, times, divide, wholes, modulo, power]

theorem mem_all (o : Operator) : o ∈ all := by
  cases o with
  | compare c => cases c <;> decide
  | _ => decide

end Operator

namespace Sign

/-- How a sign is spelled. -/
def token : Sign → Token
  | minus => .sign "-"
  | plus => .sign "+"
  | not => .word "NOT"

/-- An operand with a sign in JavaScript.  A plus changes nothing. -/
def script (sign : Sign) (a : String) : String :=
  match sign with
  | minus => "(-" ++ a ++ ")"
  | plus => a
  | not => "(!" ++ a ++ ")"

end Sign

/-! ### Trees -/

/-- An expression.  Parentheses of the source are part of it. -/
inductive Expr where
  | number (text : String)
  | string (text : String)
  | name (text : String)
  | parens (inner : Expr)
  | signed (sign : Sign) (operand : Expr)
  | binary (o : Operator) (left right : Expr)
deriving Repr, DecidableEq

/-- The JavaScript literal of a number. -/
def Script.literalOf (text : String) : String := (Script.number text).toOption.getD ""

namespace Expr

/-- The level of the outermost operator. -/
def level : Expr → Nat
  | signed _ _ => signLevel
  | binary o _ _ => o.level
  | _ => primaryLevel

/-- The tokens of an expression. -/
def spelling : Expr → List Token
  | number text => [.numeral text]
  | string text => [.quotation text]
  | name text => [.named text]
  | parens inner => .mark "(" :: (inner.spelling ++ [.mark ")"])
  | signed sign operand => sign.token :: operand.spelling
  | binary o left right => left.spelling ++ o.token :: right.spelling

/-- The expression in JavaScript, with names as `js` gives them. -/
def script (js : String → String) : Expr → String
  | number text => Script.literalOf text
  | string text => Script.literal text
  | name text => js text
  | parens inner => "(" ++ inner.script js ++ ")"
  | signed sign operand => sign.script (operand.script js)
  | binary o left right => o.script (left.script js) (right.script js)

/-- The names in an expression, in order. -/
def names : Expr → List String
  | name text => [text]
  | parens inner => inner.names
  | signed _ operand => operand.names
  | binary _ left right => left.names ++ right.names
  | _ => []

/-- The numbers in an expression, in order. -/
def numbers : Expr → List String
  | number text => [text]
  | parens inner => inner.numbers
  | signed _ operand => operand.numbers
  | binary _ left right => left.numbers ++ right.numbers
  | _ => []

/-- How deep parentheses nest. -/
def depth : Expr → Nat
  | parens inner => inner.depth + 1
  | signed _ operand => operand.depth
  | binary _ left right => max left.depth right.depth
  | _ => 0

/-- The first token of an expression. -/
def first : Expr → Token
  | number text => .numeral text
  | string text => .quotation text
  | name text => .named text
  | parens _ => .mark "("
  | signed sign _ => sign.token
  | binary _ left _ => left.first

theorem exists_spelling (e : Expr) : ∃ rest, e.spelling = e.first :: rest := by
  induction e with
  | number | string | name => exact ⟨[], rfl⟩
  | parens | signed => exact ⟨_, rfl⟩
  | binary o left right ihl =>
    obtain ⟨rest, hrest⟩ := ihl
    exact ⟨rest ++ o.token :: right.spelling, by rw [spelling, hrest]; rfl⟩

theorem depth_lt_length (e : Expr) : e.depth < e.spelling.length := by
  induction e with
  | number | string | name => exact Nat.one_pos
  | parens inner ih => simp only [depth, spelling, length_cons, length_append]; omega
  | signed sign operand ih => simp only [depth, spelling, length_cons]; omega
  | binary o left right ihl ihr =>
    simp only [depth, spelling, length_cons, length_append]
    omega

/-! ### Parentheses -/

/-- Whether an expression can be an exponent: a primary, with one sign in front at most. -/
def isExponent : Expr → Bool
  | signed .minus e | signed .plus e => e.level = primaryLevel
  | e => e.level = primaryLevel

/-- No operand of the expression misses its parentheses. -/
def Proper : Expr → Prop
  | parens inner => inner.Proper
  | signed _ operand => operand.Proper ∧ signLevel ≤ operand.level
  | binary .power left right =>
    left.Proper ∧ right.Proper ∧ Operator.power.level ≤ left.level ∧ right.isExponent
  | binary o left right =>
    left.Proper ∧ right.Proper ∧ o.level ≤ left.level ∧ o.level < right.level
  | _ => True

/-- The expression in parentheses, unless its level is high enough. -/
def closed (least : Nat) (e : Expr) : Expr := if least ≤ e.level then e else parens e

/-- The expression as an exponent. -/
def exponent : Expr → Expr
  | signed .minus e => signed .minus (e.closed primaryLevel)
  | signed .plus e => signed .plus (e.closed primaryLevel)
  | e => e.closed primaryLevel

/-- The expression with all the parentheses that its spelling needs. -/
def explicit : Expr → Expr
  | parens inner => parens inner.explicit
  | signed sign operand => signed sign (operand.explicit.closed signLevel)
  | binary .power left right =>
    binary .power (left.explicit.closed Operator.power.level) right.explicit.exponent
  | binary o left right =>
    binary o (left.explicit.closed o.level) (right.explicit.closed (o.level + 1))
  | e => e

theorem level_le_primaryLevel (e : Expr) : e.level ≤ primaryLevel := by
  cases e with
  | binary o => cases o <;> simp [level, Operator.level, primaryLevel]
  | _ => simp [level, signLevel, primaryLevel]

theorem level_closed (least : Nat) (h : least ≤ primaryLevel) (e : Expr) :
    least ≤ (e.closed least).level := by
  unfold closed
  split
  · assumption
  · exact h

theorem Proper.closed {e : Expr} (h : e.Proper) (least : Nat) : (e.closed least).Proper := by
  unfold Expr.closed
  split <;> exact h

theorem proper_exponent {e : Expr} (h : e.Proper) : e.exponent.Proper ∧ e.exponent.isExponent := by
  unfold exponent
  have hclosed (e : Expr) : (e.closed primaryLevel).level = primaryLevel :=
    Nat.le_antisymm (level_le_primaryLevel _) (level_closed _ (Nat.le_refl _) e)
  split
  case h_3 hminus hplus =>
    have hlevel := hclosed e
    refine ⟨h.closed _, ?_⟩
    unfold isExponent
    split
    case h_3 => simpa using hlevel
    all_goals
      rename_i heq
      rw [heq] at hlevel
      simp [level, signLevel, primaryLevel] at hlevel
  all_goals
    refine ⟨⟨h.1.closed _, ?_⟩, by simp [isExponent, hclosed]⟩
    rw [hclosed]
    decide

theorem proper_explicit (e : Expr) : e.explicit.Proper := by
  induction e with
  | number | string | name => trivial
  | parens inner ih => exact ih
  | signed sign operand ih => exact ⟨ih.closed _, level_closed _ (by decide) _⟩
  | binary o left right ihl ihr =>
    by_cases hpower : o = .power
    · subst hpower
      obtain ⟨hproper, hexponent⟩ := proper_exponent ihr
      exact ⟨ihl.closed _, hproper, level_closed _ (by decide) _, hexponent⟩
    · have hlevel : o.level + 1 ≤ primaryLevel :=
        by cases o <;> simp_all [Operator.level, primaryLevel]
      simp only [explicit, Proper]
      exact ⟨ihl.closed _, ihr.closed _, level_closed _ (by omega) _, level_closed _ hlevel _⟩

section Leaves

variable (e : Expr) (least : Nat)

@[simp] theorem names_closed : (e.closed least).names = e.names := by
  unfold closed
  split <;> rfl

@[simp] theorem names_exponent : e.exponent.names = e.names := by
  unfold exponent
  split <;> simp [names]

/-- Only parentheses are put in, so the names stay. -/
@[simp] theorem names_explicit : e.explicit.names = e.names := by
  induction e with
  | number | string | name => rfl
  | parens inner ih => exact ih
  | signed sign operand ih => simp [explicit, names, ih]
  | binary o left right ihl ihr => cases o <;> simp [explicit, names, ihl, ihr]

@[simp] theorem numbers_closed : (e.closed least).numbers = e.numbers := by
  unfold closed
  split <;> rfl

@[simp] theorem numbers_exponent : e.exponent.numbers = e.numbers := by
  unfold exponent
  split <;> simp [numbers]

@[simp] theorem numbers_explicit : e.explicit.numbers = e.numbers := by
  induction e with
  | number | string | name => rfl
  | parens inner ih => exact ih
  | signed sign operand ih => simp [explicit, numbers, ih]
  | binary o left right ihl ihr => cases o <;> simp [explicit, numbers, ihl, ihr]

end Leaves

end Expr

end BasicScript
