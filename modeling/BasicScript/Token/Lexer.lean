import BasicScript.Diagnostic
import BasicScript.Fault
import BasicScript.Token
import BasicScript.Vocabulary.Keyword

/-!
# Reading source text as tokens

The source is cut into pieces, one after another, by looking only at the characters that are left
(`cut`).  The pieces concatenate to the source (`text_pieces`).  Each piece then either contributes
a token, or is passed over, and moves the position on.

The one piece that cannot be read is a hexadecimal number whose decimal form is too long: there the
reading ends with a fault, and the tokens before it stand.
-/

namespace BasicScript.Lexer

/-! ### Characters -/

/-- The plain character for a look-alike that text processors put in its place. -/
def plainChar (c : Char) : Char :=
  if c = '\uFF04' || c = '\uFE69' then '$'
  else if '\u201C' ≤ c && c ≤ '\u201F' then '"'
  else if '\u2018' ≤ c && c ≤ '\u201B' then '\''
  else c

def isDigit (c : Char) : Bool := '0' ≤ c && c ≤ '9'

def isHexDigit (c : Char) : Bool :=
  isDigit c || ('a' ≤ c && c ≤ 'f') || ('A' ≤ c && c ≤ 'F')

def isLetter (c : Char) : Bool :=
  ('a' ≤ c && c ≤ 'z') || ('A' ≤ c && c ≤ 'Z') || c = '_'

def isWordChar (c : Char) : Bool := isLetter c || isDigit c

/-- A character that separates tokens and is no line end. -/
def isBlank (c : Char) : Bool := c = ' ' || c = '\t' || c = '\r'

/-- A type suffix of a number. -/
def isNumberSuffix (c : Char) : Bool := c = '#' || c = '!' || c = '&' || c = '%'

/-- A type suffix of a word. -/
def isWordSuffix (c : Char) : Bool := c = '$' || c = '%' || c = '&' || c = '!' || c = '#'

def isMark (c : Char) : Bool :=
  c = '(' || c = ')' || c = ',' || c = ';' || c = ':' || c = '#' || c = '.'

/-- The first character of an operator. -/
def isOperator (c : Char) : Bool :=
  c = '+' || c = '-' || c = '*' || c = '/' || c = '^' || c = '=' || c = '<' || c = '>' || c = '\\'

/-! ### Pieces -/

/-- What a piece of source is. -/
inductive Shape where
  | newline
  | blank
  | comment
  | number
  | hexadecimal
  | string (closed : Bool)
  | word
  /-- The question mark, which is short for `PRINT`. -/
  | query
  | mark
  | operator
  /-- A character that begins no token. -/
  | stray
deriving Repr, DecidableEq

/-- A piece of source: what it is, and its characters. -/
structure Piece where
  shape : Shape
  text : List Char
deriving Repr, DecidableEq

/-- The longest front part whose characters pass a test, and the rest. -/
def split (test : Char → Bool) : List Char → List Char × List Char
  | [] => ([], [])
  | c :: rest =>
    if test c then (c :: (split test rest).1, (split test rest).2) else ([], c :: rest)

/-- One character in front, if it passes a test, and the rest. -/
def splitOne (test : Char → Bool) : List Char → List Char × List Char
  | c :: rest => if test c then ([c], rest) else ([], c :: rest)
  | [] => ([], [])

/-- Whether a remark begins: `REM` in any case, not as part of a longer word. -/
def startsRemark : List Char → Bool
  | r :: e :: m :: rest =>
    (r = 'R' || r = 'r') && (e = 'E' || e = 'e') && (m = 'M' || m = 'm') &&
      match rest with
      | [] => true
      | c :: _ => isBlank c || c = '\n'
  | _ => false

/-- Whether a number begins: a digit, or a point in front of one. -/
def startsNumber : List Char → Bool
  | c :: rest => isDigit c || (c = '.' && match rest with
    | [] => false
    | d :: _ => isDigit d)
  | [] => false

def startsHexadecimal : List Char → Bool
  | '&' :: c :: _ => c = 'H' || c = 'h'
  | _ => false

/-- A number: digits with at most one point, and at most one suffix. -/
def cutNumber (source : List Char) : Piece × List Char :=
  let (whole, rest) := split isDigit source
  let (point, rest) := splitOne (· = '.') rest
  let (fraction, rest) := if point.isEmpty then ([], rest) else split isDigit rest
  let (suffix, rest) := splitOne isNumberSuffix rest
  (⟨.number, whole ++ point ++ fraction ++ suffix⟩, rest)

/-- A hexadecimal number: its two-character mark and digits. -/
def cutHexadecimal (source : List Char) : Piece × List Char :=
  let (digits, rest) := split isHexDigit (source.drop 2)
  (⟨.hexadecimal, source.take 2 ++ digits⟩, rest)

/-- A string: up to and with the next quote, or up to the end of the line. -/
def cutString (source : List Char) : Piece × List Char :=
  let (inside, rest) := split (fun c => c ≠ '"' && c ≠ '\n') (source.drop 1)
  let (quote, rest) := splitOne (· = '"') rest
  (⟨.string (!quote.isEmpty), source.take 1 ++ inside ++ quote⟩, rest)

/-- A word: letters, digits and underscores, and at most one suffix. -/
def cutWord (source : List Char) : Piece × List Char :=
  let (body, rest) := split isWordChar source
  let (suffix, rest) := splitOne isWordSuffix rest
  (⟨.word, body ++ suffix⟩, rest)

/-- An operator: the two-character comparisons, or one character. -/
def cutOperator : List Char → Piece × List Char
  | '<' :: '=' :: rest => (⟨.operator, ['<', '=']⟩, rest)
  | '>' :: '=' :: rest => (⟨.operator, ['>', '=']⟩, rest)
  | '<' :: '>' :: rest => (⟨.operator, ['<', '>']⟩, rest)
  | source => (⟨.operator, source.take 1⟩, source.drop 1)

/-- The first piece of a non-empty source `c :: rest`, and what is left. -/
def cut (c : Char) (rest : List Char) : Piece × List Char :=
  let source := c :: rest
  if c = '\n' then (⟨.newline, [c]⟩, rest)
  else if isBlank c then (⟨.blank, [c]⟩, rest)
  else if c = '\'' || startsRemark source then
    let (remark, after) := split (· ≠ '\n') source
    (⟨.comment, remark⟩, after)
  else if startsNumber source then cutNumber source
  else if startsHexadecimal source then cutHexadecimal source
  else if c = '"' then cutString source
  else if isLetter c then cutWord source
  else if c = '?' then (⟨.query, [c]⟩, rest)
  else if isMark c then (⟨.mark, [c]⟩, rest)
  else if isOperator c then cutOperator source
  else (⟨.stray, [c]⟩, rest)

/-! ### Cutting loses nothing -/

theorem split_append (test : Char → Bool) (source : List Char) :
    (split test source).1 ++ (split test source).2 = source := by
  induction source with
  | nil => rfl
  | cons c rest ih =>
    simp only [split]
    split
    · simpa using ih
    · rfl

theorem splitOne_append (test : Char → Bool) (source : List Char) :
    (splitOne test source).1 ++ (splitOne test source).2 = source := by
  cases source with
  | nil => rfl
  | cons c rest => simp only [splitOne]; split <;> rfl

theorem split_pass {test : Char → Bool} {c : Char} {rest : List Char} (h : test c = true) :
    split test (c :: rest) = (c :: (split test rest).1, (split test rest).2) := by
  simp [split, h]

/-- A piece and what is left of a source: together the source, and the piece is not empty. -/
def Parts (result : Piece × List Char) (source : List Char) : Prop :=
  result.1.text ++ result.2 = source ∧ result.1.text ≠ []

theorem parts_single (shape : Shape) (c : Char) (rest : List Char) :
    Parts (⟨shape, [c]⟩, rest) (c :: rest) :=
  ⟨rfl, by simp⟩

theorem cutNumber_parts {c : Char} {rest : List Char} (h : startsNumber (c :: rest) = true) :
    Parts (cutNumber (c :: rest)) (c :: rest) := by
  have hw := split_append isDigit (c :: rest)
  have hp := splitOne_append (· = '.') (split isDigit (c :: rest)).2
  constructor
  · simp only [cutNumber]
    split
    · rw [List.append_assoc, List.append_assoc, splitOne_append]
      simpa [hp] using hw
    · rw [List.append_assoc, List.append_assoc, splitOne_append,
        List.append_assoc, split_append, hp, hw]
  · simp only [startsNumber, Bool.or_eq_true, Bool.and_eq_true, decide_eq_true_eq] at h
    simp only [cutNumber]
    rcases h with h | ⟨rfl, -⟩
    · simp [split_pass h]
    · have hd : isDigit '.' = false := by decide
      simp [split, hd, splitOne]

theorem cutHexadecimal_parts (c : Char) (rest : List Char) :
    Parts (cutHexadecimal (c :: rest)) (c :: rest) := by
  constructor
  · simp only [cutHexadecimal, List.append_assoc, split_append, List.take_append_drop]
  · simp [cutHexadecimal]

theorem cutString_parts (c : Char) (rest : List Char) :
    Parts (cutString (c :: rest)) (c :: rest) := by
  constructor
  · simp only [cutString, List.append_assoc, splitOne_append, split_append, List.take_append_drop]
  · simp [cutString]

theorem cutWord_parts {c : Char} {rest : List Char} (h : isLetter c = true) :
    Parts (cutWord (c :: rest)) (c :: rest) := by
  constructor
  · simp only [cutWord, List.append_assoc, splitOne_append, split_append]
  · have hc : isWordChar c = true := by simp [isWordChar, h]
    simp [cutWord, split_pass hc]

theorem cutOperator_parts (c : Char) (rest : List Char) :
    Parts (cutOperator (c :: rest)) (c :: rest) := by
  unfold cutOperator
  split <;> simp_all [Parts]

/-- The first piece and what is left are together the source. -/
theorem cut_parts (c : Char) (rest : List Char) : Parts (cut c rest) (c :: rest) := by
  fun_cases cut c rest with
  | case1 | case2 | case8 | case9 | case11 => exact parts_single _ _ _
  | case3 source hnewline _ _ remark after hsplit =>
    have happend := split_append (· ≠ '\n') (c :: rest)
    have hfirst : remark = c :: (split (· ≠ '\n') rest).1 :=
      (congrArg Prod.fst hsplit).symm.trans (by simp [source, split, hnewline])
    exact ⟨by rwa [hsplit] at happend, by simp [hfirst]⟩
  | case4 => exact cutNumber_parts ‹_›
  | case5 => exact cutHexadecimal_parts _ _
  | case6 => exact cutString_parts _ _
  | case7 => exact cutWord_parts ‹_›
  | case10 => exact cutOperator_parts _ _

theorem length_cut_lt (c : Char) (rest : List Char) :
    (cut c rest).2.length < (c :: rest).length := by
  obtain ⟨h, hne⟩ := cut_parts c rest
  have hpos : 0 < (cut c rest).1.text.length := List.length_pos_iff.2 hne
  rw [← h, List.length_append]
  omega

/-- The pieces of a source, from its front to its end. -/
def pieces (source : List Char) : List Piece :=
  match source with
  | [] => []
  | c :: rest => (cut c rest).1 :: pieces (cut c rest).2
termination_by source.length
decreasing_by exact length_cut_lt c rest

/-- The pieces of a source concatenate to it. -/
theorem text_pieces (source : List Char) : (pieces source).flatMap (·.text) = source := by
  fun_induction pieces source with
  | case1 => rfl
  | case2 c rest ih => rw [List.flatMap_cons, ih, (cut_parts c rest).1]

/-! ### Tokens -/

/-- A place in the source, lines and columns counted from one. -/
structure Place where
  line : Int := 1
  column : Int := 1
deriving Repr, DecidableEq

/-- The place behind a piece: a line end starts a new line, anything else lies in its line. -/
def Place.after (place : Place) (piece : Piece) : Place :=
  match piece.shape with
  | .newline => ⟨place.line + 1, 1⟩
  | _ => ⟨place.line, place.column + piece.text.length⟩

/-- The value of a hexadecimal digit. -/
def hexValue (c : Char) : Nat :=
  if isDigit c then c.toNat - '0'.toNat
  else if 'a' ≤ c then c.toNat - 'a'.toNat + 10
  else c.toNat - 'A'.toNat + 10

/-- The number that hexadecimal digits spell. -/
def ofHexDigits (digits : List Char) : Nat :=
  digits.foldl (fun value c => 16 * value + hexValue c) 0

/-- What a piece contributes. -/
inductive Reading where
  | nothing
  | token (kind : Kind) (text : String)
  | fault (fault : Fault)
deriving Repr, DecidableEq

/-- The reading of a word: a keyword in capitals, or a name as it is written. -/
def readWord (word : String) : Reading :=
  let capitals := Text.upper word
  if Vocabulary.keywords.contains capitals then .token .keyword capitals
  else .token .identifier word

/-- The reading of a hexadecimal number: its value in decimal. -/
def readHexadecimal (digits : List Char) : Reading :=
  let value := ofHexDigits digits
  if value < Nat.pow 10 digitLimit then .token .number (toString value) else .fault .valueTooLong

/-- The text between the quotes of a string, whose closing quote may be missing. -/
def insideQuotes (closed : Bool) (text : List Char) : List Char :=
  if closed then (text.drop 1).dropLast else text.drop 1

def Piece.reading (piece : Piece) : Reading :=
  match piece.shape with
  | .newline => .token .newline "\n"
  | .blank | .comment | .stray => .nothing
  | .number => .token .number (String.ofList piece.text)
  | .hexadecimal => readHexadecimal (piece.text.drop 2)
  | .string closed => .token .string (String.ofList (insideQuotes closed piece.text))
  | .word => readWord (String.ofList piece.text)
  | .query => .token .keyword "PRINT"
  | .mark => .token .punctuation (String.ofList piece.text)
  | .operator => .token .operator (String.ofList piece.text)

/-- The warnings of a piece: a string must be closed on its line. -/
def Piece.warnings (piece : Piece) (place : Place) : List Diagnostic :=
  match piece.shape with
  | .string false =>
    [{ severity := .warning, category := .syntactic, message := "Unterminated string literal",
       line := place.line, column := place.column, length := piece.text.length }]
  | _ => []

/-- The result of reading a source: the tokens and the warnings, up to a fault if there is one. -/
structure Scan where
  tokens : List Token
  warnings : List Diagnostic
  fault : Option Fault
deriving Repr

/-- The scan with warnings and tokens in front. -/
def Scan.before (warnings : List Diagnostic) (tokens : List Token) (scan : Scan) : Scan :=
  { scan with tokens := tokens ++ scan.tokens, warnings := warnings ++ scan.warnings }

/-- The scan of some pieces that begin at a place.  The end of the input is a token too. -/
def scanFrom (place : Place) : List Piece → Scan
  | [] => ⟨[⟨.endOfInput, "", place.line, place.column⟩], [], none⟩
  | piece :: rest =>
    match piece.reading with
    | .nothing => scanFrom (place.after piece) rest
    | .token kind text =>
      (scanFrom (place.after piece) rest).before (piece.warnings place)
        [⟨kind, text, place.line, place.column⟩]
    | .fault fault => ⟨[], [], some fault⟩

def scan (source : String) : Scan :=
  scanFrom {} (pieces (source.toList.map plainChar))

end BasicScript.Lexer
