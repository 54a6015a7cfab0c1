import BasicScript.Proofs.ProgramTree

/-!
# Program text

Tokens are written as a text with a blank behind each token (`textOf`), and the text is read as
those tokens, without a warning (`scan_textOf`).  So every tree whose names, numbers and strings can
be written at all has a text.  The other tokens of a tree are few (`treeTokens`).
-/

namespace BasicScript

open Lexer Text List

variable {w text : String} {tail suffix : List Char} {c : Char} {piece : Piece} {token : Token}

/-! ### The tokens of a tree -/

/-- The keywords of program trees. -/
def treeWords : List String :=
  ["PRINT", "IF", "THEN", "ELSE", "ELSEIF", "END", "FOR", "TO", "STEP", "NEXT",
    "WHILE", "WEND", "DO", "UNTIL", "LOOP", "SELECT", "CASE", "IS", "OR",
    "XOR", "AND", "MOD", "NOT"]

/-- The operators of program trees. -/
def treeSigns : List String := ["=", "<>", "<", ">", "<=", ">=", "+", "-", "*", "/", "\\", "^"]

/-- The punctuation marks of program trees. -/
def treeMarks : List String := ["(", ")", ","]

/-- The tokens of program trees, apart from names, numbers and strings. -/
def treeTokens : List Token :=
  treeWords.map .word ++ (treeSigns.map .sign ++ (treeMarks.map .mark ++ [.lineEnd]))

/-- A token of a program tree. -/
inductive Token.InTree : Token → Prop where
  | name (text : String) : InTree (.named text)
  | number (text : String) : InTree (.numeral text)
  | string (text : String) : InTree (.quotation text)
  | fixed {token : Token} (h : token ∈ treeTokens) : InTree token

theorem Expr.inTree (e : Expr) : ∀ t ∈ e.spelling, t.InTree := by
  induction e with
  | number text => exact fun t ht => mem_singleton.1 ht ▸ .number text
  | string text => exact fun t ht => mem_singleton.1 ht ▸ .string text
  | name text => exact fun t ht => mem_singleton.1 ht ▸ .name text
  | parens inner ih =>
    simp only [spelling, forall_mem_cons, forall_mem_append]
    exact ⟨.fixed (by decide), ih, .fixed (by decide), forall_mem_nil _⟩
  | signed sign operand ih =>
    simp only [spelling, forall_mem_cons]
    exact ⟨.fixed (by cases sign <;> decide), ih⟩
  | binary o left right ihl ihr =>
    simp only [spelling, forall_mem_cons, forall_mem_append]
    refine ⟨ihl, .fixed ?_, ihr⟩
    cases o with
    | compare c => cases c <;> decide
    | _ => decide

theorem Inline.inTree {closed : Bool} (x : Inline closed) : ∀ t ∈ x.spelling, t.InTree := by
  induction x with
  | print e =>
    simp only [spelling, forall_mem_cons]
    exact ⟨.fixed (by decide), e.explicit.inTree⟩
  | assign name e =>
    simp only [spelling, forall_mem_cons]
    exact ⟨.name name, .fixed (by decide), e.explicit.inTree⟩
  | ifThen c body ih =>
    simp only [spelling, forall_mem_cons, forall_mem_append]
    exact ⟨.fixed (by decide), c.explicit.inTree, .fixed (by decide), ih⟩
  | ifElse c body other ihb iho =>
    simp only [spelling, forall_mem_cons, forall_mem_append]
    exact ⟨.fixed (by decide), c.explicit.inTree, .fixed (by decide), ihb, .fixed (by decide), iho⟩

theorem LoopTest.inTree (test : LoopTest) : ∀ t ∈ test.spelling, t.InTree := by
  obtain ⟨isUntil, c⟩ := test
  simp only [spelling, forall_mem_cons]
  refine ⟨.fixed ?_, c.explicit.inTree⟩
  cases isUntil
  · exact (by decide : Token.word "WHILE" ∈ treeTokens)
  · exact (by decide : Token.word "UNTIL" ∈ treeTokens)

theorem CaseTest.inTree (test : CaseTest) : ∀ t ∈ test.spelling, t.InTree := by
  cases test with
  | value e => exact e.explicit.inTree
  | range low high =>
    simp only [spelling, forall_mem_cons, forall_mem_append]
    exact ⟨low.explicit.inTree, .fixed (by decide), high.explicit.inTree⟩
  | compare hasIs c e =>
    have hsign : Token.sign c.sign ∈ treeTokens := by cases c <;> decide
    cases hasIs with
    | false =>
      simp only [spelling, forall_mem_cons, forall_mem_append]
      exact ⟨nofun, .fixed hsign, e.explicit.inTree⟩
    | true =>
      simp only [spelling, forall_mem_cons, forall_mem_append]
      exact ⟨fun t ht => mem_singleton.1 ht ▸ .fixed (by decide), .fixed hsign, e.explicit.inTree⟩

theorem CaseTest.listInTree (first : CaseTest) (more : List CaseTest) :
    ∀ t ∈ listSpelling first more, t.InTree := by
  induction more generalizing first with
  | nil => exact first.inTree
  | cons second more ih =>
    simp only [listSpelling, forall_mem_cons, forall_mem_append]
    exact ⟨first.inTree, .fixed (by decide), ih second⟩

theorem LoopEnds.frontInTree (ends : LoopEnds) : ∀ t ∈ ends.frontSpelling, t.InTree := by
  cases ends with
  | front test => exact test.inTree
  | _ => nofun

theorem LoopEnds.backInTree (ends : LoopEnds) : ∀ t ∈ ends.backSpelling, t.InTree := by
  cases ends with
  | back test => exact test.inTree
  | _ => nofun

theorem stepInTree (step : Option Expr) : ∀ t ∈ stepSpelling step, t.InTree := by
  cases step with
  | none => nofun
  | some e =>
    simp only [stepSpelling, forall_mem_cons]
    exact ⟨.fixed (by decide), e.explicit.inTree⟩

theorem closerInTree {name : String}
    (closer : Option { other : String // upper other = upper name }) :
    ∀ t ∈ closerSpelling closer, t.InTree := by
  cases closer with
  | none => nofun
  | some other => exact fun t ht => mem_singleton.1 ht ▸ .name other.1

theorem lineEnd_inTree : Token.lineEnd.InTree := .fixed (by decide)

mutual

theorem Stmt.inTree : (x : Stmt) → ∀ t ∈ x.spelling, t.InTree
  | .line x => x.inTree
  | .condition c body rest => by
    simp only [Stmt.spelling, forall_mem_append, forall_mem_cons]
    exact ⟨.fixed (by decide), c.explicit.inTree, .fixed (by decide), lineEnd_inTree,
      body.inTree, rest.inTree, .fixed (by decide), .fixed (by decide), nofun⟩
  | .counting name start stop step body closer => by
    simp only [Stmt.spelling, forall_mem_append, forall_mem_cons]
    exact ⟨.fixed (by decide), .name name, .fixed (by decide), start.explicit.inTree,
      .fixed (by decide), stop.explicit.inTree, stepInTree step, lineEnd_inTree, body.inTree,
      .fixed (by decide), closerInTree closer⟩
  | .whileLoop c body => by
    simp only [Stmt.spelling, forall_mem_append, forall_mem_cons]
    exact ⟨.fixed (by decide), c.explicit.inTree, lineEnd_inTree, body.inTree,
      .fixed (by decide), nofun⟩
  | .doLoop ends body => by
    simp only [Stmt.spelling, forall_mem_append, forall_mem_cons]
    exact ⟨.fixed (by decide), ends.frontInTree, lineEnd_inTree, body.inTree,
      .fixed (by decide), ends.backInTree⟩
  | .selection e cases => by
    simp only [Stmt.spelling, forall_mem_append, forall_mem_cons]
    exact ⟨.fixed (by decide), .fixed (by decide), e.explicit.inTree, lineEnd_inTree, cases.inTree,
      .fixed (by decide), .fixed (by decide), nofun⟩

theorem Body.inTree : (x : Body) → ∀ t ∈ x.spelling, t.InTree
  | .done => nofun
  | .next s rest => by
    simp only [Body.spelling, forall_mem_append, forall_mem_cons]
    exact ⟨s.inTree, lineEnd_inTree, rest.inTree⟩

theorem Branches.inTree : (x : Branches) → ∀ t ∈ x.spelling, t.InTree
  | .done => nofun
  | .elseIf c body rest => by
    simp only [Branches.spelling, forall_mem_append, forall_mem_cons]
    exact ⟨.fixed (by decide), c.explicit.inTree, .fixed (by decide), lineEnd_inTree,
      body.inTree, rest.inTree⟩
  | .otherwise body => by
    simp only [Branches.spelling, forall_mem_cons]
    exact ⟨.fixed (by decide), lineEnd_inTree, body.inTree⟩

theorem Cases.inTree : (x : Cases) → ∀ t ∈ x.spelling, t.InTree
  | .done => nofun
  | .case first more body rest => by
    simp only [Cases.spelling, forall_mem_append, forall_mem_cons]
    exact ⟨.fixed (by decide), CaseTest.listInTree first more, lineEnd_inTree,
      body.inTree, rest.inTree⟩
  | .otherwise body => by
    simp only [Cases.spelling, forall_mem_cons]
    exact ⟨.fixed (by decide), .fixed (by decide), lineEnd_inTree, body.inTree⟩

end

/-! ### Writing tokens -/

/-- What a name, a number or a string must look like to be written. -/
def Token.Lexical (token : Token) : Prop :=
  match token.kind with
  | .identifier => Word token.text.toList ∧ Vocabulary.keywords.contains (upper token.text) = false
  | .number => Numeral token.text.toList
  | .string => ∀ c ∈ token.text.toList, c ≠ '"' ∧ c ≠ '\n' ∧ plainChar c = c
  | _ => True

/-- The characters of a token. -/
def Token.source (token : Token) : List Char :=
  match token.kind with
  | .string => '"' :: (token.text.toList ++ ['"'])
  | _ => token.text.toList

/-- A token with a blank behind it, if it is no line end. -/
def Token.printed (token : Token) : List Char :=
  match token.kind with
  | .newline => ['\n']
  | _ => token.source ++ [' ']

/-- Tokens as a text. -/
def textOf (tokens : List Token) : String := String.ofList (tokens.flatMap Token.printed)

/-! ### Cutting -/

namespace Lexer

/-- No characters, or a blank in front. -/
def SetOff (rest : List Char) : Prop := ∀ c ∈ rest.head?, c = ' '

theorem setOff_nil : SetOff [] := fun _ h => nomatch h

theorem setOff_blank (rest : List Char) : SetOff (' ' :: rest) := by
  rintro c ⟨⟩
  rfl

variable {test : Char → Bool} {front rest : List Char}

/-- What a blank fails, the characters behind a token fail. -/
theorem SetOff.fails (h : SetOff rest) (htest : test ' ' = false) :
    ∀ c ∈ rest.head?, test c = false := by
  intro c hc
  rwa [h c hc]

theorem split_of_forall (hfront : ∀ c ∈ front, test c = true)
    (hrest : ∀ c ∈ rest.head?, test c = false) : split test (front ++ rest) = (front, rest) := by
  induction front with
  | nil =>
    cases rest with
    | nil => rfl
    | cons c rest => simp [split, hrest c rfl]
  | cons c front ih =>
    rw [List.cons_append, split_pass (hfront c (by simp)), ih fun d hd => hfront d (by simp [hd])]

/-- At most one character that passes a test, in front of one that does not. -/
theorem splitOne_of_suffix (hsuffix : suffix = [] ∨ ∃ c, suffix = [c] ∧ test c = true)
    (hrest : ∀ c ∈ rest.head?, test c = false) :
    splitOne test (suffix ++ rest) = (suffix, rest) := by
  rcases hsuffix with rfl | ⟨c, rfl, hc⟩
  · cases rest with
    | nil => rfl
    | cons c rest => simp [splitOne, hrest c rfl]
  · simp [splitOne, hc]

theorem isNumberSuffix_facts (h : isNumberSuffix c = true) : isDigit c = false ∧ c ≠ '.' := by
  simp only [isNumberSuffix, Bool.or_eq_true, decide_eq_true_eq] at h
  rcases h with ((rfl | rfl) | rfl) | rfl <;> decide

theorem isWordSuffix_facts (h : isWordSuffix c = true) : isWordChar c = false := by
  simp only [isWordSuffix, Bool.or_eq_true, decide_eq_true_eq] at h
  rcases h with (((rfl | rfl) | rfl) | rfl) | rfl <;> decide

/-- What follows a suffix is its first character, or a blank. -/
theorem SetOff.forall_head {isSuffix : Char → Bool} (h : SetOff rest)
    (hsuffix : suffix = [] ∨ ∃ c, suffix = [c] ∧ isSuffix c = true)
    {P : Char → Prop} (hblank : P ' ') (hP : ∀ c, isSuffix c = true → P c) :
    ∀ c ∈ (suffix ++ rest).head?, P c := by
  rcases hsuffix with rfl | ⟨d, rfl, hd⟩
  · intro c hc
    rwa [h c hc]
  · rintro c ⟨⟩
    exact hP d hd

theorem cutNumber_of_numeral (h : Numeral front) (hrest : SetOff rest) :
    cutNumber (front ++ rest) = (⟨.number, front⟩, rest) := by
  obtain ⟨whole, point, fraction, suffix, rfl, hwhole, hfraction, hpoint, -, hsuffix⟩ :=
    h.exists_parts
  have hend : ∀ c ∈ (suffix ++ rest).head?, isDigit c = false ∧ c ≠ '.' :=
    hrest.forall_head hsuffix (by decide) fun _ => isNumberSuffix_facts
  have hlast : splitOne isNumberSuffix (suffix ++ rest) = (suffix, rest) :=
    splitOne_of_suffix hsuffix (hrest.fails (by decide))
  rcases hpoint with ⟨rfl, rfl⟩ | rfl
  · have hsplit : split isDigit (whole ++ (suffix ++ rest)) = (whole, suffix ++ rest) :=
      split_of_forall hwhole fun c hc => (hend c hc).1
    have hnone : splitOne (· = '.') (suffix ++ rest) = ([], suffix ++ rest) :=
      splitOne_of_suffix (.inl rfl) fun c hc => decide_eq_false (hend c hc).2
    simp only [cutNumber, List.append_nil, List.append_assoc, hsplit, hnone, hlast,
      List.isEmpty_nil, if_true]
  · have hsplit : split isDigit (whole ++ '.' :: (fraction ++ (suffix ++ rest))) =
        (whole, '.' :: (fraction ++ (suffix ++ rest))) :=
      split_of_forall hwhole (by rintro c ⟨⟩; decide)
    have hone : splitOne (· = '.') ('.' :: (fraction ++ (suffix ++ rest))) =
        (['.'], fraction ++ (suffix ++ rest)) := rfl
    have hsplit' : split isDigit (fraction ++ (suffix ++ rest)) = (fraction, suffix ++ rest) :=
      split_of_forall hfraction fun c hc => (hend c hc).1
    simp only [cutNumber, List.append_assoc, List.cons_append, List.nil_append,
      hsplit, hone, hsplit', hlast, List.isEmpty_cons, Bool.false_eq_true, if_false]

theorem cutWord_of_word (h : Word front) (hrest : SetOff rest) :
    cutWord (front ++ rest) = (⟨.word, front⟩, rest) := by
  obtain ⟨first, body, suffix, rfl, hfirst, hbody, hsuffix⟩ := h.exists_parts
  have hchars : ∀ c ∈ first :: body, isWordChar c = true := by
    simp only [List.forall_mem_cons]
    exact ⟨by simp [isWordChar, hfirst], hbody⟩
  have hend : ∀ c ∈ (suffix ++ rest).head?, isWordChar c = false :=
    hrest.forall_head hsuffix (by decide) fun _ => isWordSuffix_facts
  have hsplit : split isWordChar (first :: body ++ (suffix ++ rest)) =
      (first :: body, suffix ++ rest) :=
    split_of_forall hchars hend
  have hlast : splitOne isWordSuffix (suffix ++ rest) = (suffix, rest) :=
    splitOne_of_suffix hsuffix (hrest.fails (by decide))
  rw [List.cons_append] at hsplit
  simp only [cutWord, List.cons_append, List.append_assoc, hsplit, hlast]

theorem cutString_of_text (h : ∀ c ∈ front, c ≠ '"' ∧ c ≠ '\n') :
    cutString ('"' :: (front ++ '"' :: rest)) =
      (⟨.string true, '"' :: (front ++ ['"'])⟩, rest) := by
  have hsplit : split (fun c => decide (c ≠ '"') && decide (c ≠ '\n')) (front ++ '"' :: rest) =
      (front, '"' :: rest) :=
    split_of_forall (fun c hc => by simp [h c hc]) (by rintro c ⟨⟩; decide)
  have hone : splitOne (· = '"') ('"' :: rest) = (['"'], rest) := rfl
  simp only [cutString, drop_succ_cons, drop_zero, hsplit, hone]
  rfl

/-! ### First characters -/

theorem isLetter_lt (h : isLetter c = true) : c.toNat < 128 := by
  simp only [isLetter, Bool.or_eq_true, Bool.and_eq_true, decide_eq_true_eq] at h
  rcases h with (⟨-, h⟩ | ⟨-, h⟩) | rfl
  · exact Nat.lt_of_le_of_lt h (by decide)
  · exact Nat.lt_of_le_of_lt h (by decide)
  · decide

theorem isLetter_facts (h : isLetter c = true) :
    c ≠ '\n' ∧ isBlank c = false ∧ c ≠ '\'' ∧ isDigit c = false ∧ c ≠ '.' ∧ c ≠ '&' ∧ c ≠ '"' := by
  have hall : ∀ n < 128, isLetter (Char.ofNat n) = true → Char.ofNat n ≠ '\n' ∧
      isBlank (Char.ofNat n) = false ∧ Char.ofNat n ≠ '\'' ∧ isDigit (Char.ofNat n) = false ∧
        Char.ofNat n ≠ '.' ∧ Char.ofNat n ≠ '&' ∧
      Char.ofNat n ≠ '"' := by
    decide +kernel
  have hc := hall c.toNat (isLetter_lt h)
  rw [Char.ofNat_toNat] at hc
  exact hc h

theorem isWordChar_facts (h : isWordChar c = true ∨ isWordSuffix c = true) :
    isBlank c = false ∧ c ≠ '\n' ∧ plainChar c = c := by
  have hlt : c.toNat < 128 := by
    rcases h with h | h
    · rw [isWordChar, Bool.or_eq_true] at h
      rcases h with h | h
      · exact isLetter_lt h
      · simp only [isDigit, Bool.and_eq_true, decide_eq_true_eq] at h
        exact Nat.lt_of_le_of_lt h.2 (by decide)
    · simp only [isWordSuffix, Bool.or_eq_true, decide_eq_true_eq] at h
      rcases h with (((rfl | rfl) | rfl) | rfl) | rfl <;> decide
  have hall : ∀ n < 128, isWordChar (Char.ofNat n) = true ∨ isWordSuffix (Char.ofNat n) = true →
      isBlank (Char.ofNat n) = false ∧ Char.ofNat n ≠ '\n' ∧
        plainChar (Char.ofNat n) = Char.ofNat n := by
    decide +kernel
  have hc := hall c.toNat hlt
  rw [Char.ofNat_toNat] at hc
  exact hc h

theorem word_chars (h : Word front) :
    ∀ c ∈ front, isBlank c = false ∧ c ≠ '\n' ∧ plainChar c = c := by
  obtain ⟨first, body, suffix, rfl, hfirst, hbody, hsuffix⟩ := h.exists_parts
  intro c hc
  refine isWordChar_facts ?_
  simp only [mem_cons, mem_append] at hc
  rcases hc with rfl | hc | hc
  · exact .inl (by simp [isWordChar, hfirst])
  · exact .inl (hbody c hc)
  · rcases hsuffix with rfl | ⟨d, rfl, hd⟩
    · cases hc
    · exact .inr (mem_singleton.1 hc ▸ hd)

theorem numeral_chars (h : Numeral front) : ∀ c ∈ front, plainChar c = c := by
  obtain ⟨whole, point, fraction, suffix, rfl, hwhole, hfraction, hpoint, -, hsuffix⟩ :=
    h.exists_parts
  have hdigit {c : Char} (hc : isDigit c = true) : plainChar c = c :=
    (isWordChar_facts (.inl (by simp [isWordChar, hc]))).2.2
  simp only [forall_mem_append]
  refine ⟨⟨⟨fun c hc => hdigit (hwhole c hc), ?_⟩, fun c hc => hdigit (hfraction c hc)⟩, ?_⟩
  · rcases hpoint with ⟨rfl, -⟩ | rfl
    · exact forall_mem_nil _
    · exact forall_mem_singleton.2 (by decide)
  · rcases hsuffix with rfl | ⟨d, rfl, hd⟩
    · exact forall_mem_nil _
    · simp only [isNumberSuffix, Bool.or_eq_true, decide_eq_true_eq] at hd
      rcases hd with ((rfl | rfl) | rfl) | rfl <;> exact forall_mem_singleton.2 (by decide)

theorem startsRemark_of_first (hcapital : c ≠ 'R') (hsmall : c ≠ 'r') :
    startsRemark (c :: tail) = false := by
  unfold startsRemark
  split
  · rename_i heq
    obtain ⟨rfl, -⟩ := List.cons.inj heq
    simp [hcapital, hsmall]
  · rfl

/-- A word that stands apart is a remark only if it is `REM`. -/
theorem startsRemark_of_word (h : Word front) (hrest : SetOff rest)
    (hne : upper (String.ofList front) ≠ "REM") : startsRemark (front ++ rest) = false := by
  have hchars := word_chars h
  have hshort {a b : Char} {tail : List Char} (htail : SetOff tail) :
      startsRemark (a :: b :: tail) = false := by
    cases tail with
    | nil => rfl
    | cons c tail =>
      obtain rfl : c = ' ' := htail c rfl
      simp [startsRemark]
  rcases front with _ | ⟨a, _ | ⟨b, _ | ⟨c, _ | ⟨d, more⟩⟩⟩⟩
  · obtain ⟨first, body, suffix, hnil, -⟩ := h.exists_parts
    cases hnil
  · cases rest with
    | nil => rfl
    | cons c rest =>
      obtain rfl : c = ' ' := hrest c rfl
      cases rest with
      | nil => rfl
      | cons d rest => simp [startsRemark]
  · exact hshort hrest
  · by_contra htrue
    simp only [startsRemark, cons_append, nil_append, Bool.not_eq_false,
      Bool.and_eq_true, Bool.or_eq_true, decide_eq_true_eq] at htrue
    obtain ⟨⟨⟨ha, hb⟩, hc⟩, -⟩ := htrue
    have hremark : upper (String.ofList [a, b, c]) = "REM" := by
      rcases ha with rfl | rfl <;> rcases hb with rfl | rfl <;> rcases hc with rfl | rfl <;> rfl
    exact absurd hremark hne
  · have hd := hchars d (by simp)
    simp [startsRemark, hd.1, hd.2.1]

/-! ### Pieces of a text -/

theorem pieces_of_cut (h : cut c tail = (piece, rest)) :
    pieces (c :: tail) = piece :: pieces rest := by
  rw [pieces, h]

theorem cut_of_letter (hletter : isLetter c = true)
    (hremark : startsRemark (c :: tail) = false) : cut c tail = cutWord (c :: tail) := by
  obtain ⟨hnewline, hblank, hquote, hdigit, hpoint, hhex, hstring⟩ := isLetter_facts hletter
  have hnumber : startsNumber (c :: tail) = false := by simp [startsNumber, hdigit, hpoint]
  have hhexadecimal : startsHexadecimal (c :: tail) = false := by
    unfold startsHexadecimal
    split
    · simp_all
    · rfl
  simp [cut, hnewline, hblank, hquote, hremark, hnumber, hhexadecimal, hstring, hletter]

theorem cut_of_number (hnumber : startsNumber (c :: tail) = true) :
    cut c tail = cutNumber (c :: tail) := by
  have hfacts : c ≠ '\n' ∧ isBlank c = false ∧ c ≠ '\'' ∧ c ≠ 'R' ∧ c ≠ 'r' := by
    simp only [startsNumber, Bool.or_eq_true, Bool.and_eq_true, decide_eq_true_eq] at hnumber
    rcases hnumber with hdigit | ⟨rfl, -⟩
    · refine ⟨?_, ?_, ?_, ?_, ?_⟩
      · rintro rfl
        cases hdigit
      · by_contra hblank
        simp only [isBlank, Bool.not_eq_false, Bool.or_eq_true, decide_eq_true_eq] at hblank
        rcases hblank with (rfl | rfl) | rfl <;> cases hdigit
      all_goals
        rintro rfl
        cases hdigit
    · decide
  have hremark : startsRemark (c :: tail) = false :=
    startsRemark_of_first hfacts.2.2.2.1 hfacts.2.2.2.2
  simp [cut, hfacts.1, hfacts.2.1, hfacts.2.2.1, hremark, hnumber]

theorem cut_of_operator (h : isOperator c = true) : cut c tail = cutOperator (c :: tail) := by
  simp only [isOperator, Bool.or_eq_true, decide_eq_true_eq] at h
  rcases h with (((((((rfl | rfl) | rfl) | rfl) | rfl) | rfl) | rfl) | rfl) | rfl
  all_goals
    simp [cut, startsRemark_of_first, startsNumber, startsHexadecimal, isBlank, isDigit,
      isLetter, isMark, isOperator]

/-- One character is the whole operator, if it stands apart. -/
theorem pieces_operator (h : isOperator c = true) (hrest : SetOff rest) :
    pieces (c :: rest) = ⟨.operator, [c]⟩ :: pieces rest := by
  refine pieces_of_cut ((cut_of_operator h).trans ?_)
  cases rest with
  | nil => simp [cutOperator]
  | cons d rest =>
    obtain rfl : d = ' ' := hrest d rfl
    simp [cutOperator]

theorem pieces_mark (h : isMark c = true) (hrest : SetOff rest) :
    pieces (c :: rest) = ⟨.mark, [c]⟩ :: pieces rest := by
  simp only [isMark, Bool.or_eq_true, decide_eq_true_eq] at h
  have hdigit : isDigit c = false := by
    rcases h with (((((rfl | rfl) | rfl) | rfl) | rfl) | rfl) | rfl <;> decide
  have hnumber : startsNumber (c :: rest) = false := by
    cases rest with
    | nil => simp [startsNumber, hdigit]
    | cons d rest =>
      obtain rfl : d = ' ' := hrest d rfl
      simp [startsNumber, hdigit, show isDigit ' ' = false by decide]
  rcases h with (((((rfl | rfl) | rfl) | rfl) | rfl) | rfl) | rfl
  all_goals
    refine pieces_of_cut ?_
    simp [cut, startsRemark_of_first, hnumber, startsHexadecimal, isBlank, isLetter, isMark]

theorem pieces_word (h : Word front) (hrest : SetOff rest)
    (hne : upper (String.ofList front) ≠ "REM") :
    pieces (front ++ rest) = ⟨.word, front⟩ :: pieces rest := by
  have hremark : startsRemark (front ++ rest) = false := startsRemark_of_word h hrest hne
  have hword : cutWord (front ++ rest) = _ := cutWord_of_word h hrest
  obtain ⟨first, body, suffix, rfl, hfirst, -⟩ := h.exists_parts
  exact pieces_of_cut ((cut_of_letter hfirst hremark).trans hword)

theorem startsNumber_of_numeral (h : Numeral front) : startsNumber (front ++ rest) = true := by
  obtain ⟨whole, point, fraction, suffix, rfl, hwhole, hfraction, hpoint, hsome, -⟩ :=
    h.exists_parts
  cases whole with
  | cons d whole => simp [startsNumber, hwhole d (by simp)]
  | nil =>
    obtain ⟨d, fraction, rfl⟩ := exists_cons_of_ne_nil (hsome.resolve_left (by simp))
    obtain rfl : point = ['.'] := hpoint.resolve_left (by simp)
    simp [startsNumber, hfraction d (by simp)]

theorem pieces_number (h : Numeral front) (hrest : SetOff rest) :
    pieces (front ++ rest) = ⟨.number, front⟩ :: pieces rest := by
  have hnumber : startsNumber (front ++ rest) = true := startsNumber_of_numeral h
  have hcut : cutNumber (front ++ rest) = _ := cutNumber_of_numeral h hrest
  cases hsource : front ++ rest with
  | nil =>
    rw [hsource] at hnumber
    cases hnumber
  | cons c tail =>
    rw [hsource] at hnumber hcut
    exact pieces_of_cut ((cut_of_number hnumber).trans hcut)

theorem pieces_string (h : ∀ c ∈ front, c ≠ '"' ∧ c ≠ '\n') :
    pieces ('"' :: (front ++ '"' :: rest)) = ⟨.string true, '"' :: (front ++ ['"'])⟩ ::
      pieces rest := by
  have hcut : cutString ('"' :: (front ++ '"' :: rest)) = _ := cutString_of_text h
  have hremark : startsRemark ('"' :: (front ++ '"' :: rest)) = false :=
    startsRemark_of_first (by decide) (by decide)
  refine pieces_of_cut (Eq.trans ?_ hcut)
  simp [cut, isBlank, hremark, startsNumber, startsHexadecimal, isDigit]

theorem pieces_blank : pieces (' ' :: rest) = ⟨.blank, [' ']⟩ :: pieces rest := pieces_of_cut rfl

theorem pieces_newline : pieces ('\n' :: rest) = ⟨.newline, ['\n']⟩ :: pieces rest :=
  pieces_of_cut rfl

end Lexer

/-! ### Reading a text back -/

/-- A token is one piece of the source, with nothing to warn of. -/
def Token.ReadAs (token : Token) (piece : Piece) : Prop :=
  piece.reading = .token token.kind token.text ∧ (∀ place, piece.warnings place = []) ∧
    ∀ rest, SetOff rest → pieces (token.source ++ rest) = piece :: pieces rest

/-- A token that stands apart is read, wherever it begins. -/
theorem Token.ReadAs.scanFrom (h : token.ReadAs piece) (place : Place)
    {rest : List Char} (hrest : SetOff rest) :
    Lexer.scanFrom place (pieces (token.source ++ rest)) =
      (Lexer.scanFrom (place.after piece) (pieces rest)).before []
        [⟨token.kind, token.text, place.line, place.column⟩] := by
  obtain ⟨hreading, hwarnings, hpieces⟩ := h
  rw [hpieces rest hrest, Lexer.scanFrom, hreading]
  simp only [hwarnings]

theorem scanFrom_blank (place : Place) (rest : List Char) :
    scanFrom place (pieces (' ' :: rest)) = scanFrom (place.after ⟨.blank, [' ']⟩)
      (pieces rest) := by
  rw [pieces_blank]
  rfl

theorem word_of_letters {text : List Char} (hne : text ≠ []) (h : ∀ c ∈ text, isLetter c = true) :
    Word text := by
  obtain ⟨first, body, rfl⟩ := List.exists_cons_of_ne_nil hne
  refine ⟨first, body, [], by simp, h first (by simp), fun c hc => ?_, .inl rfl⟩
  simp [isWordChar, h c (by simp [hc])]

theorem treeWords_facts :
    ∀ w ∈ treeWords, w.toList ≠ [] ∧ w.toList.all isLetter = true ∧ Text.upper w = w ∧
    Vocabulary.keywords.contains w = true ∧ w ≠ "REM" := by
  decide +kernel

theorem keyword_readAs (hword : Word w.toList) (hupper : Text.upper w = w)
    (hkeyword : Vocabulary.keywords.contains w = true) (hremark : w ≠ "REM") :
    (Token.word w).ReadAs ⟨.word, w.toList⟩ := by
  have hreading : readWord w = .token .keyword w := by rw [readWord, hupper, if_pos hkeyword]
  have hother : Text.upper (String.ofList w.toList) ≠ "REM" := by rwa [String.ofList_toList, hupper]
  refine ⟨?_, fun _ => rfl, fun rest hrest => pieces_word hword hrest hother⟩
  rw [Piece.reading, String.ofList_toList, hreading]
  rfl

theorem word_readAs (h : w ∈ treeWords) : (Token.word w).ReadAs ⟨.word, w.toList⟩ := by
  obtain ⟨hne, hletters, hupper, hkeyword, hremark⟩ := treeWords_facts w h
  exact keyword_readAs (word_of_letters hne (List.all_eq_true.1 hletters)) hupper hkeyword hremark

theorem sign_readAs (h : w ∈ treeSigns) : (Token.sign w).ReadAs ⟨.operator, w.toList⟩ := by
  refine ⟨by simp [Piece.reading, Token.sign], fun _ => rfl, fun rest hrest => ?_⟩
  simp only [treeSigns, List.mem_cons, List.not_mem_nil, or_false] at h
  rcases h with rfl | rfl | rfl | rfl | rfl | rfl | rfl | rfl | rfl | rfl | rfl | rfl
  case inr.inl | inr.inr.inr.inr.inl | inr.inr.inr.inr.inr.inl =>
    exact pieces_of_cut (cut_of_operator rfl)
  all_goals exact pieces_operator rfl hrest

theorem mark_readAs (hw : w.toList = [c]) (h : Lexer.isMark c = true) :
    (Token.mark w).ReadAs ⟨.mark, w.toList⟩ := by
  refine ⟨by simp [Piece.reading, Token.mark], fun _ => rfl, fun rest hrest => ?_⟩
  have hpieces := pieces_mark h hrest
  simpa [Token.source, Token.mark, hw] using hpieces

theorem named_readAs (h : (Token.named text).Lexical) :
    (Token.named text).ReadAs ⟨.word, text.toList⟩ := by
  obtain ⟨hword, hkeyword⟩ : Word text.toList ∧
    Vocabulary.keywords.contains (Text.upper text) = false := h
  have hreading : readWord text = .token .identifier text := by
    rw [readWord, if_neg (by rw [hkeyword]; exact Bool.false_ne_true)]
  have hother : Text.upper (String.ofList text.toList) ≠ "REM" := by
    rw [String.ofList_toList]
    intro hremark
    rw [hremark] at hkeyword
    revert hkeyword
    decide +kernel
  refine ⟨?_, fun _ => rfl, fun rest hrest => pieces_word hword hrest hother⟩
  rw [Piece.reading, String.ofList_toList, hreading]
  rfl

theorem numeral_readAs (h : (Token.numeral text).Lexical) :
    (Token.numeral text).ReadAs ⟨.number, text.toList⟩ :=
  ⟨by simp [Piece.reading, Token.numeral], fun _ => rfl, fun _ => pieces_number h⟩

theorem quotation_readAs (h : (Token.quotation text).Lexical) :
    (Token.quotation text).ReadAs ⟨.string true, '"' :: (text.toList ++ ['"'])⟩ := by
  refine ⟨?_, fun _ => rfl, fun rest _ => ?_⟩
  · simp [Piece.reading, insideQuotes, Token.quotation]
  · have hpieces : pieces ('"' :: (text.toList ++ '"' :: rest)) = _ :=
      pieces_string fun c hc => ⟨(h c hc).1, (h c hc).2.1⟩
    simpa [Token.source, Token.quotation] using hpieces

namespace Token.InTree

theorem exists_readAs (h : token.InTree) (hlexical : token.Lexical)
    (hline : token.kind ≠ .newline) : ∃ piece, token.ReadAs piece := by
  cases h with
  | name text => exact ⟨_, named_readAs hlexical⟩
  | number text => exact ⟨_, numeral_readAs hlexical⟩
  | string text => exact ⟨_, quotation_readAs hlexical⟩
  | fixed hmem =>
    simp only [treeTokens, List.mem_append, List.mem_map, List.mem_singleton] at hmem
    rcases hmem with ⟨w, hw, rfl⟩ | ⟨w, hw, rfl⟩ | ⟨w, hw, rfl⟩ | rfl
    · exact ⟨_, word_readAs hw⟩
    · exact ⟨_, sign_readAs hw⟩
    · simp only [treeMarks, List.mem_cons, List.not_mem_nil, or_false] at hw
      rcases hw with rfl | rfl | rfl <;> exact ⟨_, mark_readAs rfl rfl⟩
    · exact absurd rfl hline

theorem bare (h : token.InTree) : token.bare = token := by
  cases h with
  | fixed hmem =>
    simp only [treeTokens, List.mem_append, List.mem_map, List.mem_singleton] at hmem
    rcases hmem with ⟨w, -, rfl⟩ | ⟨w, -, rfl⟩ | ⟨w, -, rfl⟩ | rfl <;> rfl
  | _ => rfl

theorem newline (h : token.InTree) (hline : token.kind = .newline) : token = .lineEnd := by
  cases h with
  | fixed hmem =>
    simp only [treeTokens, List.mem_append, List.mem_map, List.mem_singleton] at hmem
    rcases hmem with ⟨w, -, rfl⟩ | ⟨w, -, rfl⟩ | ⟨w, -, rfl⟩ | rfl
    · cases hline
    · cases hline
    · cases hline
    · rfl
  | _ => cases hline

/-- No character of a token is a look-alike. -/
theorem plainChar_source (h : token.InTree) (hlexical : token.Lexical) :
    ∀ c ∈ token.source, plainChar c = c := by
  cases h with
  | name text => exact fun c hc => (word_chars hlexical.1 c hc).2.2
  | number text => exact numeral_chars hlexical
  | string text =>
    intro c hc
    have hmem : c = '"' ∨ c ∈ text.toList ∨ c = '"' := by
      simpa [Token.source, Token.quotation] using hc
    rcases hmem with rfl | hc | rfl
    · decide
    · exact (hlexical c hc).2.2
    · decide
  | fixed hmem =>
    have hall : ∀ t ∈ treeTokens, t.source.all (fun c => decide (plainChar c = c)) = true := by
      decide +kernel
    exact fun c hc => of_decide_eq_true (all_eq_true.1 (hall token hmem) c hc)

theorem plainChar_printed (h : token.InTree) (hlexical : token.Lexical) :
    ∀ c ∈ token.printed, plainChar c = c := by
  rw [Token.printed]
  split
  · exact forall_mem_singleton.2 (by decide)
  · intro c hc
    rcases mem_append.1 hc with hc | hc
    · exact h.plainChar_source hlexical c hc
    · rw [mem_singleton.1 hc]
      decide

end Token.InTree

/-- A token is read, wherever it begins. -/
theorem scanFrom_printed (h : token.InTree) (hlexical : token.Lexical)
    (place : Place) (rest : List Char) : ∃ place', scanFrom place (pieces (token.printed ++ rest)) =
      (scanFrom place' (pieces rest)).before []
        [⟨token.kind, token.text, place.line, place.column⟩] := by
  by_cases hline : token.kind = .newline
  · obtain rfl := h.newline hline
    refine ⟨place.after ⟨.newline, ['\n']⟩, ?_⟩
    rw [show Token.lineEnd.printed ++ rest = '\n' :: rest from rfl, pieces_newline]
    rfl
  · obtain ⟨piece, hpiece⟩ := h.exists_readAs hlexical hline
    have hprinted : token.printed ++ rest = token.source ++ ' ' :: rest := by
      rw [Token.printed]
      split
      · exact absurd ‹_› hline
      · rw [List.append_assoc, List.singleton_append]
    refine ⟨(place.after piece).after ⟨.blank, [' ']⟩, ?_⟩
    rw [hprinted, hpiece.scanFrom place (setOff_blank rest), scanFrom_blank]

/-- **A text is read as its tokens**, and there is nothing to warn of. -/
theorem scan_textOf {tokens : List Token} (h : ∀ t ∈ tokens, t.InTree)
    (hlexical : ∀ t ∈ tokens, t.Lexical) :
    (scan (textOf tokens)).tokens.map Token.bare = tokens ++ [.inputEnd] ∧
      (scan (textOf tokens)).warnings = [] ∧ (scan (textOf tokens)).fault = none := by
  have hplain : (textOf tokens).toList.map plainChar = tokens.flatMap Token.printed := by
    rw [textOf, String.toList_ofList]
    refine (List.map_congr_left fun c hc => ?_).trans (List.map_id _)
    obtain ⟨t, ht, hc⟩ := List.mem_flatMap.1 hc
    exact (h t ht).plainChar_printed (hlexical t ht) c hc
  rw [scan, hplain]
  generalize ({} : Place) = place
  clear hplain
  induction tokens generalizing place with
  | nil =>
    rw [List.flatMap_nil, pieces]
    exact ⟨rfl, rfl, rfl⟩
  | cons token tokens ih =>
    obtain ⟨place', hscan⟩ := scanFrom_printed (h token (by simp)) (hlexical token (by simp)) place
      (tokens.flatMap Token.printed)
    obtain ⟨htokens, hwarnings, hfault⟩ := ih (fun t ht => h t (by simp [ht]))
      (fun t ht => hlexical t (by simp [ht])) place'
    rw [List.flatMap_cons, hscan]
    refine ⟨?_, hwarnings, hfault⟩
    rw [Scan.before, List.map_append, htokens]
    exact congrArg (· :: (tokens ++ [Token.inputEnd])) (h token (by simp)).bare

end BasicScript
