import BasicScript.Proofs.ValidNames

/-!
# Operators around an expression

Statements put operators next to the text of an expression without parentheses of their own, as in a
delay that is multiplied or a case that is compared.  That is safe for an operand: the text then
closes what it opens, is not split by a blank, comma or semicolon, and binds tighter than the
operator.  The text of an expression fails to be an operand for one reason only: it begins with the
name of a variable that has a numeric suffix inside, in front of a point.

* `expression_operand_iff`: which texts of expressions are operands, at all states of a pass.
* `suffix_regroups`: a delay that JavaScript reads as another product.
-/

namespace BasicScript

open Emit Script Lexer List

variable {tape : Tape} {s s' : State} {text : String}

/-- Names in front of a text are JavaScript names. -/
def Tape.HeadsFit (tape : Tape) (text : String) : Prop :=
  ∀ key word, tape.Words key word → (mangle word).toList <+: text.toList →
    ∀ c ∈ word.toList.dropLast, suffixTail? c = none

/-- Up to the name in front, an operand is one of JavaScript. -/
theorem Script.Operand.identifiers_iff (h : Operand tape.Heads text) :
    Operand (isIdentifier · = true) text ↔ tape.HeadsFit text := by
  constructor
  · intro hoperand key word hword hprefix
    exact (isIdentifier_mangle_iff hword.lettered).1
      (hoperand.isIdentifier_of_prefix hword.lettered.mangle hprefix)
  · intro hfit
    refine h.narrow fun x hx hprefix => ?_
    rcases hx with hx | ⟨key, word, hword, rfl⟩
    · exact hx
    · exact (isIdentifier_mangle_iff hword.lettered).2 (hfit key word hword hprefix)

/-- **Expressions between operators.**  Wherever an expression of a source is read, its text is
solid: it is not empty, closes what it opens, and has no blank, comma or semicolon outside strings
and brackets.  It is an operand of JavaScript exactly if it does not begin with a name that is made
from a word with a numeric suffix inside. -/
theorem expression_operand_iff (source : String) (hread : (scan source).fault = none)
    (collector : Collector) : let tape := Tape.ofSource source hread
    (∀ depth s, Between tape.tokens collector depth s → Visited tape s) ∧
    ∀ s text s', Visited tape s → expression tape.tokens s = .ok text s' →
      Visited tape s' ∧ Solid text ∧
        (Operand (isIdentifier · = true) text ↔ tape.HeadsFit text) := by
  intro tape
  refine ⟨fun depth s hbetween => (Begun.of_between hbetween).visited,
    fun s text s' hvisited hok => ?_⟩
  have hdoes : Does tape .quiet s expression _ := expression_operand
  obtain ⟨⟨es, hrun⟩, hoperand, -⟩ := hdoes.of_ok hvisited.sound hok
  exact ⟨hvisited.run hrun, hoperand.solid, hoperand.identifiers_iff⟩

/-- The text of the expression in front of a turn. -/
def expressionAt? (source : String) (turns : Nat) : Option String :=
  (turnAt? source turns).bind fun s =>
    match expression (scan source).tokens.toArray s with
    | .ok text _ => some text
    | .error .. => none

/-- A field of an element, with suffixes at the ends of words. -/
def suffixedField : String := "p%(-n + 1).x&"

theorem suffixed_field_is_operand :
    ∃ s s', Between (scan suffixedField).tokens.toArray {}
      ((scan suffixedField).tokens.toArray.size + 1) s ∧
      expression (scan suffixedField).tokens.toArray s = .ok "p_int[((-n) + 1)].x_lng" s' ∧
      Solid "p_int[((-n) + 1)].x_lng" ∧
      Operand (isIdentifier · = true) "p_int[((-n) + 1)].x_lng" := by
  have hat : expressionAt? suffixedField 0 = some "p_int[((-n) + 1)].x_lng" := by decide +kernel
  obtain ⟨s, hturn, hs⟩ := Option.bind_eq_some_iff.1 hat
  split at hs
  case h_2 => cases hs
  rename_i text s' hok
  cases hs
  have hbetween := between_of_turnAt? hturn
  obtain ⟨hvisited, htexts⟩ := expression_operand_iff suffixedField (by decide +kernel) {}
  obtain ⟨-, hsolid, hiff⟩ := htexts s _ s' (hvisited _ s hbetween) hok
  refine ⟨s, s', hbetween, hok, hsolid, hiff.2 fun key word hword hprefix => ?_⟩
  -- a name in front of the text is one in front of its first word
  have hsplit : (mangle word).toList <+: ("p_int" ++ "[((-n) + 1)].x_lng").toList := hprefix
  have hfront := hword.lettered.mangle.prefix_of_append hsplit (c := '[') rfl (by decide)
  have hname : Operand (isIdentifier · = true) "p_int" := .reference (.identifier rfl fun _ h => h)
  exact (isIdentifier_mangle_iff hword.lettered).1
    (hname.isIdentifier_of_prefix hword.lettered.mangle hfront)

/-- A variable with a numeric suffix in front of a point, multiplied. -/
def suffixInProduct : String := "SLEEP a&.b"

/-- Without any report, the text of a variable is no operand, and a product takes a part of it. -/
theorem suffix_regroups :
    ∃ s, (scan suffixInProduct).fault = none ∧
      pass (scan suffixInProduct).tokens.toArray {} = .ok () s ∧ ¬HasError s.collector.toList ∧
      s.page.render Script.indentUnit =
        ["  let a&_b = 0;", "  await _sleep(" ++ "a&_b" ++ " * 1000);"] ∧
      ¬Operand (isIdentifier · = true) "a&_b" := by
  have hdeclares : ending? suffixInProduct State.declares =
      some (["a&_b", "a&_b"], [], ["  let a&_b = 0;", "  await _sleep(a&_b * 1000);"], true) :=
        by decide +kernel
  obtain ⟨s, hread, hpass, hs⟩ := pass_of_ending? hdeclares
  simp only [State.declares, Prod.mk.injEq, decide_eq_true_eq] at hs
  obtain ⟨-, -, hlines, herrors⟩ := hs
  refine ⟨s, hread, hpass, herrors, hlines, fun hoperand => ?_⟩
  have hlettered : Lettered "a&_b".toList := by
    refine ⟨'a', ['&', '_', 'b'], rfl, rfl, forall_mem_cons.2 ⟨.inr rfl, ?_⟩⟩
    exact forall_mem_cons.2 ⟨.inl rfl, forall_mem_singleton.2 (.inl rfl)⟩
  cases hoperand.isIdentifier_of_prefix hlettered (prefix_refl _)

end BasicScript
