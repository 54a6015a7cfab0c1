import BasicScript.Script.Number
import BasicScript.Token.Lexer
import Mathlib.Data.List.TakeDrop
import Mathlib.Data.List.TakeWhile

/-!
# Numerals of the source

A numeral is what a number of the source can look like: digits with at most one point and at most
one type suffix.  Its literal can be written unless it has no point and more than `digitLimit`
digits (`number_error`); nothing else can go wrong with it.
-/

namespace BasicScript

open Script List
open Lexer (isDigit isNumberSuffix)

/-- The text of a number: digits, a point with further digits, a type suffix.  Some digit is
there. -/
structure Numeral (text : List Char) : Prop where
  exists_parts : ∃ whole point fraction suffix,
    text = whole ++ point ++ fraction ++ suffix ∧
    (∀ c ∈ whole, isDigit c = true) ∧ (∀ c ∈ fraction, isDigit c = true) ∧
    (point = [] ∧ fraction = [] ∨ point = ['.']) ∧ (whole ≠ [] ∨ fraction ≠ []) ∧
    (suffix = [] ∨ ∃ c, suffix = [c] ∧ isNumberSuffix c = true)

/-! ### Characters of numerals -/

/-- A digit is a digit for every reader of numbers, and neither blank, sign, underscore nor
suffix. -/
theorem isDigit_facts {c : Char} (h : isDigit c = true) :
    Number.isDigit c = true ∧ Text.isBlank c = false ∧ c ≠ '_' ∧ c ≠ '-' ∧ c ≠ '+' ∧ c ≠ '.' ∧
      numberSuffixes.contains c = false := by
  simp only [isDigit, Bool.and_eq_true, decide_eq_true_eq] at h
  have hall : ∀ n < 58, 48 ≤ n → Number.isDigit (Char.ofNat n) = true ∧
      Text.isBlank (Char.ofNat n) = false ∧ Char.ofNat n ≠ '_' ∧ Char.ofNat n ≠ '-' ∧
      Char.ofNat n ≠ '+' ∧ Char.ofNat n ≠ '.' ∧
      numberSuffixes.contains (Char.ofNat n) = false := by
    decide +kernel
  have hc := hall c.toNat (Nat.lt_succ_of_le h.2) h.1
  rwa [Char.ofNat_toNat] at hc

/-- A digit or a point. -/
def isNumeralChar (c : Char) : Bool := isDigit c || c = '.'

theorem isNumeralChar_facts {c : Char} (h : isNumeralChar c = true) :
    Text.isBlank c = false ∧ c ≠ '_' ∧ c ≠ '-' ∧ c ≠ '+' ∧
      numberSuffixes.contains c = false := by
  simp only [isNumeralChar, Bool.or_eq_true, decide_eq_true_eq] at h
  rcases h with h | rfl
  · have := isDigit_facts h
    grind
  · decide

section Body

variable {body : List Char} (hbody : ∀ c ∈ body, isNumeralChar c = true)

include hbody

theorem dropWhile_isBlank : body.dropWhile Text.isBlank = body := by
  cases body with
  | nil => rfl
  | cons c rest => simp [(isNumeralChar_facts (hbody c (by simp))).1]

theorem trimBlanks_body : Number.trimBlanks body = body := by
  have hrev : ∀ c ∈ body.reverse, isNumeralChar c = true := fun c hc => hbody c (mem_reverse.1 hc)
  rw [Number.trimBlanks, dropWhile_isBlank hbody, dropWhile_isBlank hrev, reverse_reverse]

theorem splitSign_body : Number.splitSign body = (false, body) := by
  cases body with
  | nil => rfl
  | cons c rest =>
    have hc := isNumeralChar_facts (hbody c (by simp))
    unfold Number.splitSign
    split <;> simp_all

theorem dropUnderscores_body (before : Bool) : Number.dropUnderscores before body = some body := by
  induction body generalizing before with
  | nil => rfl
  | cons c rest ih =>
    have hc : c ≠ '_' := (isNumeralChar_facts (hbody c (by simp))).2.1
    have hrest := ih (fun d hd => hbody d (by simp [hd])) (Number.isDigit c)
    unfold Number.dropUnderscores
    split <;> simp_all

/-- Only a suffix is taken off a numeral. -/
theorem dropNumberSuffix_body {suffix : List Char}
    (hs : suffix = [] ∨ ∃ c, suffix = [c] ∧ isNumberSuffix c = true) :
    dropNumberSuffix (String.ofList (body ++ suffix)) = String.ofList body := by
  unfold dropNumberSuffix
  rw [String.toList_ofList, reverse_append]
  rcases hs with rfl | ⟨c, rfl, hc⟩
  · simp only [reverse_nil, nil_append, append_nil]
    split
    · rfl
    · rename_i last front hrev
      have hmem : last ∈ body := by
        rw [← mem_reverse, hrev]
        simp
      rw [(isNumeralChar_facts (hbody last hmem)).2.2.2.2, if_neg Bool.false_ne_true]
  · have hcont : numberSuffixes.contains c = true := by
      simp only [isNumberSuffix, Bool.or_eq_true, decide_eq_true_eq] at hc
      rcases hc with ((rfl | rfl) | rfl) | rfl <;> rfl
    simp only [reverse_cons, reverse_nil, nil_append, singleton_append, hcont,
      if_true, reverse_reverse]

end Body

/-! ### Reading numerals -/

/-- Digits in front of something else are all that is taken. -/
theorem takeDrop_digits {digits rest : List Char} (h : ∀ c ∈ digits, isDigit c = true)
    (hrest : rest.head?.all (!Number.isDigit ·) = true) :
    (digits ++ rest).takeWhile Number.isDigit = digits ∧
      (digits ++ rest).dropWhile Number.isDigit = rest := by
  have hall : ∀ c ∈ digits, Number.isDigit c = true := fun c hc => (isDigit_facts (h c hc)).1
  rw [takeWhile_append_of_pos hall, dropWhile_append_of_pos hall]
  cases rest with
  | nil => simp
  | cons c rest => simp_all

/-- A number with a point can always be read, and is not negative. -/
theorem double_eq {whole fraction : List Char} (hw : ∀ c ∈ whole, isDigit c = true)
    (hf : ∀ c ∈ fraction, isDigit c = true) (hne : whole ≠ [] ∨ fraction ≠ []) :
    Number.double (String.ofList (whole ++ '.' :: fraction)) =
      .ok (false, .ofDecimal (Number.ofDigits (whole ++ fraction)) (0 - fraction.length)) := by
  have hbody : ∀ c ∈ whole ++ '.' :: fraction, isNumeralChar c = true := by
    intro c hc
    simp only [mem_append, mem_cons] at hc
    rcases hc with hc | rfl | hc
    · simp [isNumeralChar, hw c hc]
    · rfl
    · simp [isNumeralChar, hf c hc]
  obtain ⟨htake, hdrop⟩ := takeDrop_digits hw (show ('.' :: fraction).head?.all _ = true from rfl)
  obtain ⟨htake', hdrop'⟩ := takeDrop_digits hf (show [].head?.all _ = true from rfl)
  rw [append_nil] at htake' hdrop'
  have hempty : (whole.isEmpty && fraction.isEmpty) = false := by
    rcases hne with h | h <;> simp [h]
  have hdecimal : Number.decimal? (String.ofList (whole ++ '.' :: fraction)) =
      some ⟨false, Number.ofDigits (whole ++ fraction), 0 - fraction.length⟩ := by
    simp only [Number.decimal?, String.toList_ofList, trimBlanks_body hbody, splitSign_body hbody,
      dropUnderscores_body hbody, Option.bind_eq_bind, Option.bind_some,
      span_eq_takeWhile_dropWhile, htake, hdrop, Number.splitFraction, htake', hdrop',
      Number.exponent?, hempty, Bool.false_eq_true, if_false]
  rw [Number.double, hdecimal]
  rfl

/-- Digits can be read unless there are too many. -/
theorem whole_digits {digits : List Char} (h : ∀ c ∈ digits, isDigit c = true) (hne : digits ≠ []) :
    Number.whole (String.ofList digits) =
      if digitLimit < digits.length then .error (.tooManyDigits digits.length)
      else .ok (Number.ofDigits digits) := by
  have hbody : ∀ c ∈ digits, isNumeralChar c = true := fun c hc => by simp [isNumeralChar, h c hc]
  have hspan : Number.splitDigits digits = (digits, []) := by
    have hall : ∀ c ∈ digits, (Number.isDigit c || c = '_') = true := fun c hc => by
      simp [(isDigit_facts (h c hc)).1]
    rw [Number.splitDigits, span_eq_takeWhile_dropWhile, dropWhile_eq_nil_iff.2 hall,
      takeWhile_eq_self_iff.2 hall]
  simp [Number.whole, String.toList_ofList, trimBlanks_body hbody, splitSign_body hbody, hspan,
    dropUnderscores_body hbody, hne]

/-- A numeral is read as its digits, if they are not too many, or as a double. -/
theorem number_of_numeral {text : String} (h : Numeral text.toList) :
    '.' ∉ text.toList ∧ number text =
        (if digitLimit < (text.toList.filter isDigit).length then
          .error (.tooManyDigits (text.toList.filter isDigit).length)
        else .ok (toString (Number.ofDigits (text.toList.filter isDigit)))) ∨
      '.' ∈ text.toList ∧ ∃ value, Number.double (dropNumberSuffix text) = .ok (false, value) ∧
        number text = .ok (doubleLiteral false value) := by
  obtain ⟨whole, point, fraction, suffix, htext, hw, hf, hp, hne, hs⟩ := h.exists_parts
  have hbody : ∀ c ∈ whole ++ point ++ fraction, isNumeralChar c = true := by
    intro c hc
    simp only [mem_append] at hc
    rcases hc with (hc | hc) | hc
    · simp [isNumeralChar, hw c hc]
    · rcases hp with ⟨rfl, -⟩ | rfl
      · cases hc
      · simp_all [isNumeralChar]
    · simp [isNumeralChar, hf c hc]
  have hdrop := dropNumberSuffix_body hbody hs
  rw [← htext, String.ofList_toList] at hdrop
  simp only [number, hdrop, String.toList_ofList]
  rcases hp with ⟨rfl, rfl⟩ | rfl
  · have hwhole : whole ≠ [] := by simpa using hne
    have hdot : '.' ∉ whole := fun hc => (isDigit_facts (hw _ hc)).2.2.2.2.2.1 rfl
    have hsuffix : '.' ∉ suffix ∧ suffix.filter isDigit = [] := by
      rcases hs with rfl | ⟨c, rfl, hc⟩
      · simp
      · simp only [isNumberSuffix, Bool.or_eq_true, decide_eq_true_eq] at hc
        rcases hc with ((rfl | rfl) | rfl) | rfl <;> decide
    have hdigits : text.toList.filter isDigit = whole := by
      simp [htext, hsuffix.2, filter_eq_self.2 hw]
    refine .inl ⟨by simp [htext, hdot, hsuffix.1], ?_⟩
    simp only [hdigits, append_nil, contains_eq_mem, hdot, decide_false,
      Bool.false_eq_true, if_false, whole_digits hw hwhole]
    split <;> rfl
  · have hdouble := double_eq hw hf hne
    rw [← singleton_append, ← append_assoc] at hdouble
    refine .inr ⟨by simp [htext], _, hdouble, ?_⟩
    rw [if_pos (by simp), hdouble]
    rfl

/-- **What can go wrong with a numeral**: it has no point and too many digits. -/
theorem number_error {text : String} (h : Numeral text.toList) {fault : Fault}
    (he : number text = .error fault) :
    '.' ∉ text.toList ∧ digitLimit < (text.toList.filter isDigit).length ∧
      fault = .tooManyDigits (text.toList.filter isDigit).length := by
  rcases number_of_numeral h with ⟨hdot, hnumber⟩ | ⟨-, value, -, hvalue⟩
  · rw [hnumber] at he
    split at he
    · cases he
      exact ⟨hdot, ‹_›, rfl⟩
    · cases he
  · rw [hvalue] at he
    cases he

end BasicScript
