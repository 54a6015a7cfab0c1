import BasicScript.Proofs.Calling

/-!
# Operands of JavaScript

What the text of an expression may look like so that no operator next to it takes a part of it.
Only the tightest forms of the language are such **operands** (`Operand`): number literals, string
literals, and names or parentheses with members, indices and arguments behind them (`Reference`).
Which names may stand in front is left open, since a name that is made from the source need not be
one of JavaScript.

* `Operand.solid`: an operand closes what it opens, and has no blank, comma or semicolon outside its
  brackets.
* `Operand.narrow`: all that decides between two readings of an operand is the name in front of it.
* `numeric_of_number`: what a number of the source looks like.
-/

namespace BasicScript

open List
open Lexer (isLetter isDigit isWordChar isWordSuffix isNumberSuffix)

open Script (mangle suffixTail? reserved)

variable {tape : Tape} {key w x text : String} {c : Char} {rest cs : List Char}

/-! ### Names -/

namespace Script

/-- The first character of a JavaScript name. -/
def isNameStart (c : Char) : Bool :=
  ('A' ≤ c && c ≤ 'Z') || ('a' ≤ c && c ≤ 'z') || c = '_' || c = '$'

/-- A character of a JavaScript name behind the first one. -/
def isNameChar (c : Char) : Bool := isNameStart c || ('0' ≤ c && c ≤ '9')

/-- A JavaScript name, if it is no forbidden word. -/
def isIdentifier (x : String) : Bool :=
  match x.toList with
  | [] => false
  | first :: rest => isNameStart first && rest.all isNameChar

/-- Of the characters of words, only numeric suffixes are none of JavaScript names. -/
theorem isNameChar_iff (h : isWordChar c = true ∨ isWordSuffix c = true) :
    isNameChar c = true ↔ suffixTail? c = none :=
  Lexer.forall_wordChar (P := fun c => isNameChar c = true ↔ suffixTail? c = none)
    (by decide +kernel) h

theorem suffixTail?_of_isWordChar (h : isWordChar c = true) : suffixTail? c = none :=
  Lexer.forall_wordChar (P := fun c => isWordChar c = true → suffixTail? c = none)
    (by decide +kernel) (.inl h) h

theorem letter_facts (h : isLetter c = true) : isNameStart c = true ∧ suffixTail? c = none := by
  have hchar : isWordChar c = true ∨ isWordSuffix c = true := .inl (by simp [isWordChar, h])
  exact Lexer.forall_wordChar (P := fun c => isLetter c = true → isNameStart c = true ∧
    suffixTail? c = none)
    (by decide +kernel) hchar h

theorem reserved_all : ∀ w ∈ reserved, w.toList.all isWordChar = true := by decide +kernel

/-- What is spelled like a word is a JavaScript name if it has no numeric suffix in it. -/
theorem isIdentifier_iff (h : Lettered x.toList) :
    isIdentifier x = true ↔ ∀ c ∈ x.toList, suffixTail? c = none := by
  obtain ⟨first, rest, htext, hfirst, hrest⟩ := h.exists_first
  obtain ⟨hstart, hnone⟩ := letter_facts hfirst
  have hall : rest.all isNameChar = true ↔ ∀ c ∈ rest, suffixTail? c = none := by
    rw [all_eq_true]
    exact forall₂_congr fun c hc => isNameChar_iff (hrest c hc)
  simp only [isIdentifier, htext, hstart, Bool.true_and, forall_mem_cons, hnone, true_and, hall]

/-- The JavaScript name of a word is one if no numeric suffix stands inside the word, in front of
its last character. -/
theorem isIdentifier_mangle_iff (h : Lettered w.toList) :
    isIdentifier (mangle w) = true ↔ ∀ c ∈ w.toList.dropLast, suffixTail? c = none := by
  rw [isIdentifier_iff h.mangle]
  rcases settled_or_replaced w with hsettled | ⟨x, hreplaced⟩
  · rw [hsettled.mangle]
    obtain ⟨first, rest, htext, -⟩ := h.exists_first
    have hne : w.toList ≠ [] := by simp [htext]
    have hlast := hsettled.last _ (getLast?_eq_getLast_of_ne_nil hne)
    conv_lhs => rw [← dropLast_append_getLast hne]
    rw [forall_mem_append]
    simp [hlast]
  · rw [hreplaced.mangle]
    cases hreplaced with
    | @suffix front tail c htail =>
      have hchars : ∀ d ∈ tail.toList, suffixTail? d = none := fun d hd =>
        suffixTail?_of_isWordChar (all_eq_true.1 (Lettered.tail_all htail) d hd)
      rw [String.toList_append, String.toList_push, dropLast_concat, forall_mem_append]
      exact and_iff_left hchars
    | reserved hword =>
      have hchars : ∀ c ∈ w.toList, suffixTail? c = none := fun c hc =>
        suffixTail?_of_isWordChar (all_eq_true.1 (reserved_all w hword) c hc)
      rw [String.toList_append, forall_mem_append]
      exact iff_of_true ⟨hchars, by simp [suffixTail?]⟩ fun c hc => hchars c (dropLast_subset _ hc)

end Script

/-- The JavaScript name of a single word is one. -/
theorem Word.isIdentifier_mangle (h : Word w.toList) : Script.isIdentifier (mangle w) = true := by
  rw [Script.isIdentifier_mangle_iff h.lettered]
  obtain ⟨first, body, suffix, htext, hfirst, hbody, hsuffix⟩ := h.exists_parts
  have hchars : ∀ c ∈ first :: body, suffixTail? c = none :=
    forall_mem_cons.2 ⟨(Script.letter_facts hfirst).2,
      fun c hc => Script.suffixTail?_of_isWordChar (hbody c hc)⟩
  intro c hc
  rw [htext] at hc
  rcases hsuffix with rfl | ⟨d, rfl, -⟩
  · exact hchars c (by simpa using dropLast_subset _ hc)
  · rw [← cons_append, dropLast_concat] at hc
    exact hchars c hc

/-- The JavaScript names of procedures, parameters, one-line functions and record types are no worse
than words. -/
theorem Tape.Titled.isIdentifier (h : tape.Titled key x) : Script.isIdentifier x = true := by
  obtain ⟨w, hw, rfl⟩ := h
  exact hw.word.isIdentifier_mangle

theorem Script.isIdentifier_ofList {first : Char} :
    isIdentifier (String.ofList (first :: rest)) = (isNameStart first && rest.all isNameChar) := by
  simp [isIdentifier]

namespace Script

theorem plain_of_isNameChar (h : isNameChar c = true) : isPlain c = true := by
  have hlt : c.toNat < 0x80 := by
    simp only [isNameChar, isNameStart, Bool.or_eq_true, Bool.and_eq_true, decide_eq_true_eq] at h
    rcases h with (((h | h) | h) | h) | h
    · exact Nat.lt_of_le_of_lt h.2 (by decide)
    · exact Nat.lt_of_le_of_lt h.2 (by decide)
    · subst h; decide
    · subst h; decide
    · exact Nat.lt_of_le_of_lt h.2 (by decide)
  exact ascii_forall (P := fun c => isNameChar c = true → isPlain c = true)
    (by decide +kernel) hlt h

theorem isNameChar_of_isIdentifier (h : isIdentifier x = true) :
    ∀ c ∈ x.toList, isNameChar c = true := by
  unfold isIdentifier at h
  split at h
  · cases h
  · rename_i first rest htext
    rw [Bool.and_eq_true, all_eq_true] at h
    rw [htext]
    exact forall_mem_cons.2 ⟨by simp [isNameChar, h.1], h.2⟩

theorem wordy_of_isIdentifier (h : isIdentifier x = true) : Wordy x := by
  refine ⟨?_, fun c hc => plain_of_isNameChar (isNameChar_of_isIdentifier h c hc)⟩
  rintro rfl
  cases h

/-! ### Numbers -/

/-- Digits, one at least. -/
def Digits (cs : List Char) : Prop := cs ≠ [] ∧ ∀ c ∈ cs, isDigit c = true

/-- A number literal: digits, and maybe a fraction and an exponent. -/
structure NumberLiteral (text : String) : Prop where
  exists_parts : ∃ whole fraction exponent, text.toList = whole ++ fraction ++
    exponent ∧ Digits whole ∧ (fraction = [] ∨ ∃ digits, fraction = '.' :: digits ∧ Digits digits) ∧
    (exponent = [] ∨ ∃ sign digits, exponent = 'e' :: sign :: digits ∧
      (sign = '+' ∨ sign = '-') ∧ Digits digits)

theorem Digits.plain (h : Digits cs) : Plain cs := fun c hc =>
  Lexer.plain_of_isWordChar (.inl (by simp [isWordChar, h.2 c hc]))

theorem digits_natToString (n : Nat) : Digits (toString n).toList := by
  refine ⟨?_, Lexer.isDigit_natToString n⟩
  simp

theorem digits_zero : Digits ['0'] := ⟨nofun, forall_mem_singleton.2 rfl⟩

theorem Digits.append {ds : List Char} (h : Digits cs) (h' : ∀ c ∈ ds, isDigit c = true) :
    Digits (cs ++ ds) :=
  ⟨by simp [h.1], forall_mem_append.2 ⟨h.2, h'⟩⟩

theorem isDigit_replicate (n : Nat) : ∀ c ∈ List.replicate n '0', isDigit c = true := fun c hc => by
  rw [eq_of_mem_replicate hc]
  rfl

theorem Digits.pad (h : Digits cs) (n : Nat) : Digits (List.replicate n '0' ++ cs) :=
  ⟨by simp [h.1], forall_mem_append.2 ⟨isDigit_replicate n, h.2⟩⟩

theorem Digits.take (h : Digits cs) {n : Nat} (hn : 0 < n) : Digits (cs.take n) :=
  ⟨by simp [h.1, Nat.pos_iff_ne_zero.1 hn], fun c hc => h.2 c (mem_of_mem_take hc)⟩

theorem Digits.numberLiteral (h : Digits text.toList) : NumberLiteral text :=
  ⟨text.toList, [], [], by simp, h, .inl rfl, .inl rfl⟩

theorem NumberLiteral.wordy (h : NumberLiteral text) : Wordy text := by
  obtain ⟨whole, fraction, exponent, htext, hwhole, hfraction, hexponent⟩ := h.exists_parts
  refine ⟨?_, ?_⟩
  · rintro rfl
    simp [hwhole.1] at htext
  · rw [htext]
    refine (hwhole.plain.append ?_).append ?_
    · rcases hfraction with rfl | ⟨digits, rfl, hdigits⟩
      · exact forall_mem_nil _
      · exact forall_mem_cons.2 ⟨rfl, hdigits.plain⟩
    · rcases hexponent with rfl | ⟨sign, digits, rfl, hsign, hdigits⟩
      · exact forall_mem_nil _
      · refine forall_mem_cons.2 ⟨rfl, forall_mem_cons.2 ⟨?_, hdigits.plain⟩⟩
        rcases hsign with rfl | rfl <;> rfl

theorem exponentText_parts (e : Int) :
    ∃ sign digits, (exponentText e).toList = sign :: digits ∧ (sign = '+' ∨ sign = '-') ∧
      Digits digits := by
  have hdigits := (digits_natToString e.natAbs).pad (2 - (toString e.natAbs).toList.length)
  simp only [exponentText, String.toList_append, String.toList_ofList]
  split
  · exact ⟨'-', _, rfl, .inr rfl, hdigits⟩
  · exact ⟨'+', _, rfl, .inl rfl, hdigits⟩

theorem numberLiteral_pointed {digits : List Char} (h : Digits digits) (point : Int) :
    NumberLiteral (pointed digits point) := by
  have hrest (n : Nat) (hne : ¬(digits.drop n).isEmpty = true) : Digits (digits.drop n) :=
    ⟨by simpa using hne, fun c hc => h.2 c (mem_of_mem_drop hc)⟩
  unfold pointed
  split
  · split
    · exact ⟨['0'], '.' :: (List.replicate (-point).toNat '0' ++ digits), [], by simp, digits_zero,
        .inr ⟨_, rfl, h.pad _⟩, .inl rfl⟩
    · rename_i hpoint
      extract_lets front fraction
      have hfront : Digits front := (h.take (by omega)).append (isDigit_replicate _)
      refine ⟨front, '.' :: (if fraction.isEmpty then ['0'] else fraction), [], ?_, hfront,
        .inr ⟨_, rfl, ?_⟩, .inl rfl⟩
      · simp only [String.toList_append, String.toList_ofList]
        split <;> simp
      · split
        · exact digits_zero
        · exact hrest _ ‹_›
  · extract_lets fraction
    obtain ⟨sign, digits', hexponent, hsign, hdigits'⟩ := exponentText_parts (point - 1)
    refine ⟨digits.take 1, if fraction.isEmpty then [] else '.' :: fraction,
      'e' :: sign :: digits', ?_, h.take (by decide), ?_,
      .inr ⟨sign, digits', rfl, hsign, hdigits'⟩⟩
    · simp only [String.toList_append, String.toList_ofList, hexponent]
      split <;> simp
    · split
      · exact .inl rfl
      · exact .inr ⟨_, rfl, hrest _ ‹_›⟩

theorem doubleLiteral_cases (value : Number.Binary64) :
    NumberLiteral (doubleLiteral false value) ∨ value = .infinite ∧
      doubleLiteral false value = "inf" := by
  cases value with
  | infinite => exact .inr ⟨rfl, rfl⟩
  | finite mantissa exponent =>
    have htext : NumberLiteral (doubleText false (.finite mantissa exponent)) := by
      simpa [doubleText] using numberLiteral_pointed (digits_natToString _) _
    left
    unfold doubleLiteral
    split
    · split
      · exact (digits_natToString _).numberLiteral
      · exact htext
    · exact htext

/-- **Numbers.**  A number of the source becomes a number literal, or the name of infinity. -/
theorem number_cases {literal : String} (h : Numeral text.toList)
    (hok : number text = .ok literal) : NumberLiteral literal ∨ literal = "inf" := by
  rcases number_of_numeral h with ⟨-, hnumber⟩ | ⟨-, value, -, hvalue⟩
  · rw [hnumber] at hok
    split at hok
    · cases hok
    · cases hok
      exact .inl (digits_natToString _).numberLiteral
  · rw [hvalue] at hok
    cases hok
    exact (doubleLiteral_cases value).imp_right And.right

/-! ### References -/

/-- Members and indices behind a value. -/
inductive Selectors : String → Prop where
  | nil : Selectors ""
  | member {text x : String} (h : Selectors text) (hx : isIdentifier x = true) :
      Selectors (text ++ "." ++ x)
  | index {text i : String} (h : Selectors text) (hi : Solid i) :
      Selectors (text ++ "[" ++ i ++ "]")

/-- A name or an expression in parentheses, with members, indices and arguments behind it.  `Name`
says which words may be the name in front. -/
inductive Reference (Name : String → Prop) : String → Prop where
  | name {x : String} (hword : Wordy x) (h : Name x) : Reference Name x
  | group {text : String} (h : Inner text) (hne : text ≠ "") : Reference Name ("(" ++ text ++ ")")
  | member {text x : String} (h : Reference Name text) (hx : isIdentifier x = true) :
      Reference Name (text ++ "." ++ x)
  | index {text i : String} (h : Reference Name text) (hi : Solid i) :
      Reference Name (text ++ "[" ++ i ++ "]")
  | call {text arguments : String} (h : Reference Name text) (ha : Inner arguments) :
      Reference Name (text ++ "(" ++ arguments ++ ")")

/-- What binds tighter than every operator: a number, a string, or a reference. -/
inductive Operand (Name : String → Prop) : String → Prop where
  | number {text : String} (h : NumberLiteral text) : Operand Name text
  | quotation (text : String) : Operand Name (literal text)
  | reference {text : String} (h : Reference Name text) : Operand Name text

variable {Name Name' : String → Prop} {next : String}

theorem Selectors.sealed (h : Selectors text) : Sealed text := by
  induction h with
  | nil => exact sealed_empty
  | member _ hx ih => exact (Reads.lit ih rfl).frag rfl (wordy_of_isIdentifier hx).solid.1
  | index _ hi ih => exact (Reads.lit ih rfl).piece hi.1 rfl

theorem Selectors.indexed (h : Selectors text) {indices : List String}
    (hi : ∀ i ∈ indices, Solid i) : Selectors (text ++ Emit.indexed indices) := by
  unfold Emit.indexed
  induction indices generalizing text with
  | nil => simpa using h
  | cons i rest ih =>
    obtain ⟨hfirst, hrest⟩ := forall_mem_cons.1 hi
    rw [map_cons, String.join_cons, ← String.append_assoc, ← String.append_assoc,
      ← String.append_assoc]
    exact ih (.index h hfirst) hrest

namespace Reference

theorem identifier (h : isIdentifier x = true) (hname : ∀ x, isIdentifier x = true → Name x) :
    Reference Name x :=
  .name (wordy_of_isIdentifier h) (hname x h)

theorem select (h : Reference Name text) (hs : Selectors next) : Reference Name (text ++ next) := by
  induction hs with
  | nil => rwa [String.append_empty]
  | member _ hx ih =>
    rw [← String.append_assoc, ← String.append_assoc]
    exact .member ih hx
  | index _ hi ih =>
    rw [← String.append_assoc, ← String.append_assoc, ← String.append_assoc]
    exact .index ih hi

theorem solid (h : Reference Name text) : Solid text := by
  induction h with
  | name hword _ => exact hword.solid
  | group h _ => exact ⟨(Reads.start rfl).within h rfl, by simp⟩
  | member _ hx ih =>
    exact ⟨(Reads.lit ih.1 rfl).frag rfl (wordy_of_isIdentifier hx).solid.1, by simp⟩
  | index _ hi ih => exact ⟨(Reads.lit ih.1 rfl).piece hi.1 rfl, by simp⟩
  | call _ ha ih => exact ⟨(Reads.lit ih.1 rfl).within ha rfl, by simp⟩

theorem narrow (h : Reference Name text)
    (hname : ∀ x, Name x → x.toList <+: text.toList → Name' x) : Reference Name' text := by
  have hfront {front back : String} (h : ∀ x, Name x →
      x.toList <+: (front ++ back).toList → Name' x) :
      ∀ x, Name x → x.toList <+: front.toList → Name' x := fun x hx hfront =>
    h x hx (by rw [String.toList_append]; exact hfront.trans (prefix_append _ _))
  induction h with
  | name hword h => exact .name hword (hname _ h (prefix_refl _))
  | group h hne => exact .group h hne
  | member _ hx ih => exact .member (ih (hfront (hfront hname))) hx
  | index _ hi ih => exact .index (ih (hfront (hfront (hfront hname)))) hi
  | call _ ha ih => exact .call (ih (hfront (hfront (hfront hname)))) ha

end Reference

theorem prefix_of_prefix_append_cons {xs ys zs : List Char} (h : xs <+: ys ++ c :: zs)
    (hc : c ∉ xs) : xs <+: ys := by
  rcases prefix_or_prefix_of_prefix h (prefix_append ys (c :: zs)) with hshort | ⟨ws, rfl⟩
  · exact hshort
  · cases ws with
    | nil => simp
    | cons d ws =>
      obtain ⟨rfl, -⟩ := cons_prefix_cons.1 ((prefix_append_right_inj ys).1 h)
      simp at hc

end Script

namespace Lettered

theorem isLetter_of_prefix (h : Lettered x.toList) (hx : x.toList <+: c :: rest) :
    isLetter c = true := by
  obtain ⟨first, more, htext, hfirst, -⟩ := h.exists_first
  rw [htext, cons_prefix_cons] at hx
  exact hx.1 ▸ hfirst

/-- A word ends in front of a character that no word has. -/
theorem prefix_of_append {front back : String} (h : Lettered x.toList)
    (hx : x.toList <+: (front ++ back).toList) (hback : back.toList.head? = some c)
    (hc : isWordChar c = false ∧ isWordSuffix c = false) : x.toList <+: front.toList := by
  obtain ⟨rest, hrest⟩ := head?_eq_some_iff.1 hback
  rw [String.toList_append, hrest] at hx
  refine Script.prefix_of_prefix_append_cons hx fun hmem => ?_
  simpa [hc] using h.chars c hmem

end Lettered

namespace Script

variable {Name Name' : String → Prop}

/-- A word in front of a reference is a name if the name in front is. -/
theorem Reference.isIdentifier_of_prefix (h : Reference (isIdentifier · = true) text)
    (hx : Lettered x.toList) (hfront : x.toList <+: text.toList) : isIdentifier x = true := by
  induction h with
  | name _ h =>
    rw [isIdentifier_iff hx]
    intro c hc
    exact (isNameChar_iff (hx.chars c hc)).1 (isNameChar_of_isIdentifier h c (hfront.subset hc))
  | group h hne =>
    rw [String.append_assoc, String.toList_append] at hfront
    cases hx.isLetter_of_prefix hfront
  | member _ _ ih =>
    rw [String.append_assoc] at hfront
    exact ih (hx.prefix_of_append hfront (c := '.') (by simp) (by decide))
  | index _ _ ih =>
    rw [String.append_assoc, String.append_assoc] at hfront
    exact ih (hx.prefix_of_append hfront (c := '[') (by simp) (by decide))
  | call _ _ ih =>
    rw [String.append_assoc, String.append_assoc] at hfront
    exact ih (hx.prefix_of_append hfront (c := '(') (by simp) (by decide))

/-! ### Operands -/

namespace Operand

theorem solid (h : Operand Name text) : Solid text := by
  cases h with
  | number h => exact h.wordy.solid
  | quotation text => exact literal_solid text
  | reference h => exact h.solid

theorem narrow (h : Operand Name text) (hname : ∀ x, Name x → x.toList <+: text.toList → Name' x) :
    Operand Name' text := by
  cases h with
  | number h => exact .number h
  | quotation text => exact .quotation text
  | reference h => exact .reference (h.narrow hname)

/-- A word in front of an operand is a name if the name in front is. -/
theorem isIdentifier_of_prefix (h : Operand (isIdentifier · = true) text) (hx : Lettered x.toList)
    (hfront : x.toList <+: text.toList) : isIdentifier x = true := by
  cases h with
  | number h =>
    obtain ⟨whole, fraction, exponent, htext, ⟨hne, hdigits⟩, -⟩ := h.exists_parts
    obtain ⟨c, rest, rfl⟩ := exists_cons_of_ne_nil hne
    rw [htext, append_assoc, cons_append] at hfront
    have hletter := hx.isLetter_of_prefix hfront
    have hdigit : isLetter c = false :=
      Lexer.forall_wordChar (P := fun c => isDigit c = true →
        isLetter c = false) (by decide +kernel)
        (.inl (by simp [isWordChar, hletter])) (hdigits c (by simp))
    rw [hdigit] at hletter
    cases hletter
  | quotation text =>
    rw [literal, String.append_assoc, String.toList_append] at hfront
    cases hx.isLetter_of_prefix hfront
  | reference h => exact h.isIdentifier_of_prefix hx hfront

end Operand

end Script

end BasicScript
