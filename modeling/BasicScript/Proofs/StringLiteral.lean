import BasicScript.Script.Literal

/-!
# The value of a string literal

A string literal in double quotes is read by JavaScript's rules (`decode`).  Between the quotes a
character stands for itself, or a backslash begins an escape: a letter for a control character, two
hexadecimal digits behind `x` or four behind `u`, or a character that stands for itself all the
same.

`literal_decodes`: a text that is written as a literal is one literal, on one line and without a
character that is lost in transit, and reading it gives the text back.
-/

namespace BasicScript.Script

open List

/-! ### Reading a literal -/

/-- What stands between the quotes of a literal: a backslash belongs to the character behind it, and
no quote stands alone. -/
inductive LiteralBody : List Char → Prop where
  | nil : LiteralBody []
  | char {c : Char} {rest : List Char} (hquote : c ≠ '"') (hescape : c ≠ '\\')
      (h : LiteralBody rest) : LiteralBody (c :: rest)
  | escape {c : Char} {rest : List Char} (h : LiteralBody rest) : LiteralBody ('\\' :: c :: rest)

/-- The value of a hexadecimal digit. -/
def hexValue? (c : Char) : Option Nat :=
  if c.isDigit then some (c.toNat - '0'.toNat)
  else if 'a' ≤ c ∧ c ≤ 'f' then some (c.toNat - 'a'.toNat + 10)
  else if 'A' ≤ c ∧ c ≤ 'F' then some (c.toNat - 'A'.toNat + 10)
  else none

/-- The character that hexadecimal digits stand for.  Half of a surrogate pair is no character. -/
def hexChar? (digits : List Char) : Option Char := do
  let values ← digits.mapM hexValue?
  let code := values.foldl (fun code value => 16 * code + value) 0
  if code.isValidChar then some (Char.ofNat code) else none

/-- The character that a backslash and one more character stand for.  Digits and the ends of lines
are refused here: what they stand for hangs on what follows, and no generated literal has them. -/
def escaped? (c : Char) : Option Char :=
  if c = 'n' then some '\n'
  else if c = 't' then some '\t'
  else if c = 'r' then some '\r'
  else if c = 'b' then some '\x08'
  else if c = 'f' then some '\x0c'
  else if c = 'v' then some '\x0b'
  else if c = 'x' ∨ c = 'u' ∨ c.isDigit ∨ c = '\n' ∨ c = '\r' ∨
    c = '\u2028' ∨ c = '\u2029' then none
  else some c

/-- Reads what stands behind the opening quote, up to the closing one, which ends the text. -/
def decodeRest : List Char → Option (List Char)
  | ['"'] => some []
  | '\\' :: 'x' :: a :: b :: rest =>
    (hexChar? [a, b]).bind fun value => (decodeRest rest).map (value :: ·)
  | '\\' :: 'u' :: a :: b :: c :: d :: rest =>
    (hexChar? [a, b, c, d]).bind fun value => (decodeRest rest).map (value :: ·)
  | '\\' :: c :: rest => (escaped? c).bind fun value => (decodeRest rest).map (value :: ·)
  | c :: rest =>
    if c = '"' ∨ c = '\\' ∨ c = '\n' ∨ c = '\r' then none else (decodeRest rest).map (c :: ·)
  | [] => none

/-- The text that a literal stands for. -/
def decode (text : String) : Option String :=
  match text.toList with
  | '"' :: rest => (decodeRest rest).map String.ofList
  | _ => none

/-! ### One character -/

/-- The characters that a literal has as escapes, in the order in which a whole text can be
rewritten. -/
def escapedChars : List Char := ['\\', '"', '\n', '\t', '\r', '\x00', '\u2028', '\u2029']

theorem escapeChar_of_not_mem {c : Char} (h : c ∉ escapedChars) : escapeChar c = [c] := by
  simp only [escapedChars, List.mem_cons, List.not_mem_nil, or_false, not_or] at h
  obtain ⟨h₁, h₂, h₃, h₄, h₅, h₆, h₇, h₈⟩ := h
  simp only [escapeChar, h₁, h₂, h₃, h₄, h₅, h₆, h₇, h₈, if_false]

theorem decodeRest_escapeChar (c : Char) (rest : List Char) :
    decodeRest (escapeChar c ++ rest) = (decodeRest rest).map (c :: ·) := by
  by_cases hc : c ∈ escapedChars
  · simp only [escapedChars, List.mem_cons, List.not_mem_nil, or_false] at hc
    rcases hc with rfl | rfl | rfl | rfl | rfl | rfl | rfl | rfl <;> rfl
  · rw [escapeChar_of_not_mem hc]
    simp only [escapedChars, List.mem_cons, List.not_mem_nil, or_false, not_or] at hc
    obtain ⟨hslash, hquote, hfeed, -, hreturn, -⟩ := hc
    cases rest with
    | nil => simp [decodeRest, hslash, hquote, hfeed, hreturn]
    | cons d rest => simp [decodeRest, hslash, hquote, hfeed, hreturn]

theorem LiteralBody.append {cs rest : List Char} (hcs : ∀ c ∈ cs, c ≠ '"' ∧ c ≠ '\\')
    (h : LiteralBody rest) : LiteralBody (cs ++ rest) := by
  induction cs with
  | nil => exact h
  | cons c cs ih =>
    obtain ⟨hc, hcs⟩ := forall_mem_cons.1 hcs
    exact .char hc.1 hc.2 (ih hcs)

theorem literalBody_escapeChar {rest : List Char} (c : Char) (h : LiteralBody rest) :
    LiteralBody (escapeChar c ++ rest) := by
  by_cases hc : c ∈ escapedChars
  · simp only [escapedChars, mem_cons, not_mem_nil, or_false] at hc
    -- an escape is a backslash, the character that belongs to it, and digits
    have hcode (kind : Char) (digits : List Char)
        (hdigits : digits.all (fun c => c ≠ '"' ∧ c ≠ '\\') = true) :
        LiteralBody ('\\' :: kind :: (digits ++ rest)) :=
      .escape (h.append fun c hc => of_decide_eq_true (List.all_eq_true.1 hdigits c hc))
    rcases hc with rfl | rfl | rfl | rfl | rfl | rfl | rfl | rfl
    case inr.inr.inr.inr.inr.inl => exact hcode 'x' ['0', '0'] rfl
    case inr.inr.inr.inr.inr.inr.inl => exact hcode 'u' ['2', '0', '2', '8'] rfl
    case inr.inr.inr.inr.inr.inr.inr => exact hcode 'u' ['2', '0', '2', '9'] rfl
    all_goals exact .escape h
  · rw [escapeChar_of_not_mem hc]
    simp only [escapedChars, List.mem_cons, not_or] at hc
    exact .char hc.2.1 hc.1 h

/-- The characters that end a line or are lost in transit. -/
def lostChars : List Char := ['\n', '\r', '\x00', '\u2028', '\u2029']

theorem not_mem_lostChars {c d : Char} (hd : d ∈ escapeChar c) : d ∉ lostChars := by
  by_cases hc : c ∈ escapedChars
  · have hall : (escapedChars.all fun c => (escapeChar c).all fun d => !lostChars.contains d) =
        true := by decide
    simpa using List.all_eq_true.1 (List.all_eq_true.1 hall c hc) d hd
  · rw [escapeChar_of_not_mem hc, List.mem_singleton] at hd
    subst hd
    exact fun hlost => hc ((by decide : lostChars ⊆ escapedChars) hlost)

/-! ### Whole texts -/

/-- A text in which the escape of a character stands for the character. -/
def replaceChar (cs : List Char) (c : Char) : List Char :=
  cs.flatMap fun d => if d = c then escapeChar c else [d]

theorem foldl_replaceChar (chars cs : List Char) :
    chars.foldl replaceChar cs = cs.flatMap fun c => chars.foldl replaceChar [c] := by
  induction chars generalizing cs with
  | nil => exact (List.flatMap_singleton' cs).symm
  | cons d chars ih =>
    have hone (c : Char) : replaceChar [c] d = if c = d then escapeChar d else [c] := by
      simp [replaceChar]
    simp only [List.foldl_cons, hone]
    rw [ih, replaceChar, List.flatMap_assoc]
    simp only [← ih]

theorem foldl_replaceChar_of_not_mem {chars : List Char} {c : Char} (h : c ∉ chars) :
    chars.foldl replaceChar [c] = [c] := by
  induction chars with
  | nil => rfl
  | cons d chars ih =>
    obtain ⟨hne, hmem⟩ : c ≠ d ∧ c ∉ chars := by simpa using h
    rw [List.foldl_cons, show replaceChar [c] d = [c] by simp [replaceChar, hne], ih hmem]

/-- **Escaping is a chain of replacements.**  Taking the characters one after another, the backslash
first, escapes no character twice. -/
theorem escape_eq_foldl (text : String) :
    (escape text).toList = escapedChars.foldl replaceChar text.toList := by
  rw [escape, String.toList_ofList, foldl_replaceChar]
  refine congrArg text.toList.flatMap (funext fun c => ?_)
  by_cases hc : c ∈ escapedChars
  · have hall : (escapedChars.all fun c => escapeChar c == escapedChars.foldl replaceChar [c]) =
        true := by decide
    exact eq_of_beq (List.all_eq_true.1 hall c hc)
  · rw [escapeChar_of_not_mem hc, foldl_replaceChar_of_not_mem hc]

theorem decodeRest_escape (text : List Char) :
    decodeRest (text.flatMap escapeChar ++ ['"']) = some text := by
  induction text with
  | nil => rfl
  | cons c text ih =>
    rw [flatMap_cons, append_assoc, decodeRest_escapeChar, ih]
    rfl

theorem literalBody_escape (text : List Char) : LiteralBody (text.flatMap escapeChar) := by
  induction text with
  | nil => exact .nil
  | cons c text ih => exact literalBody_escapeChar c ih

theorem toList_literal (text : String) :
    (literal text).toList = '"' :: (text.toList.flatMap escapeChar ++ ['"']) := by
  simp [literal, escape]

theorem decode_literal (text : String) : decode (literal text) = some text := by
  rw [decode, toList_literal]
  simp only [decodeRest_escape, Option.map_some, String.ofList_toList]

/-- **A literal has the text that it was made from.**  The literal of a text is in double quotes, no
other quote of it stands alone, no character of it ends a line or is lost in transit, and it decodes
to the text. -/
theorem literal_decodes (text : String) :
    (literal text).toList = '"' :: ((escape text).toList ++ ['"']) ∧
      LiteralBody (escape text).toList ∧
      (∀ c ∈ (literal text).toList, c ∉ lostChars) ∧ decode (literal text) = some text ∧
      (escape text).toList = escapedChars.foldl replaceChar text.toList := by
  have hbody : (escape text).toList = text.toList.flatMap escapeChar := String.toList_ofList
  refine ⟨by rw [toList_literal,
    hbody], by rw [hbody]; exact literalBody_escape _, fun c hc => ?_, decode_literal text,
    escape_eq_foldl text⟩
  have hquote : '"' ∉ lostChars := by decide
  rw [toList_literal, mem_cons, mem_append, mem_singleton] at hc
  rcases hc with rfl | hc | rfl
  · exact hquote
  · obtain ⟨d, -, hc⟩ := mem_flatMap.1 hc
    exact not_mem_lostChars hc
  · exact hquote

end BasicScript.Script
