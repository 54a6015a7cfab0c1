import BasicScript.Fault
import BasicScript.Number.Binary64
import BasicScript.Text.Blank
import BasicScript.Text.DecimalDigit

/-!
# Numbers read from text

A whole number is an optional sign and digits; a decimal number may have a point and an exponent.
Blanks around either are skipped, and a single underscore may stand between two digits.  The digits
may be those of any script, also mixed.
-/

namespace BasicScript.Number

def isDigit (c : Char) : Bool := (Text.digitValue? c).isSome

def digitValue (c : Char) : Nat := (Text.digitValue? c).getD 0

/-- The number that decimal digits spell. -/
def ofDigits (digits : List Char) : Nat :=
  digits.foldl (fun value c => 10 * value + digitValue c) 0

/-- The characters without blanks at either end. -/
def trimBlanks (chars : List Char) : List Char :=
  ((chars.dropWhile Text.isBlank).reverse.dropWhile Text.isBlank).reverse

/-- The characters without underscores, if each underscore stands between two digits; `before` says
whether a digit precedes. -/
def dropUnderscores (before : Bool) : List Char → Option (List Char)
  | [] => some []
  | '_' :: c :: rest =>
    if before && isDigit c then dropUnderscores true (c :: rest) else none
  | '_' :: [] => none
  | c :: rest => (dropUnderscores (isDigit c) rest).map (c :: ·)

/-- An optional sign, and what follows it. -/
def splitSign : List Char → Bool × List Char
  | '-' :: rest => (true, rest)
  | '+' :: rest => (false, rest)
  | rest => (false, rest)

/-- The digits and underscores in front of a text, and the rest. -/
def splitDigits (chars : List Char) : List Char × List Char :=
  chars.span fun c => isDigit c || c = '_'

/-- A whole number read from a text.  The digits in front are counted before the rest is looked at,
so a number that is too long is reported as such also if something else follows it. -/
def whole (text : String) : Except Fault Int :=
  let (negative, body) := splitSign (trimBlanks text.toList)
  let (front, rest) := splitDigits body
  match dropUnderscores false front with
  | none => .error (.wholeNumber text)
  | some digits =>
    if digitLimit < digits.length then .error (.tooManyDigits digits.length)
    else if digits.isEmpty || !rest.isEmpty then .error (.wholeNumber text)
    else
      let value : Int := ofDigits digits
      .ok (if negative then -value else value)

/-- A decimal number: its sign, its digits with the point taken out, and the power of ten of the
last digit. -/
structure Decimal where
  negative : Bool
  digits : Nat
  exponent : Int
deriving Repr, DecidableEq

/-- The exponent at the end of a decimal number, with its mark in front. -/
def exponent? : List Char → Option Int
  | [] => some 0
  | mark :: rest =>
    let (negative, digits) := splitSign rest
    if (mark = 'e' || mark = 'E') && !digits.isEmpty && digits.all isDigit then
      let value : Int := ofDigits digits
      some (if negative then -value else value)
    else none

/-- The fraction of a decimal number, with its point in front, and what follows it. -/
def splitFraction : List Char → List Char × List Char
  | '.' :: rest => rest.span isDigit
  | rest => ([], rest)

/-- The parts of a decimal number. -/
def decimal? (text : String) : Option Decimal := do
  let (negative, body) := splitSign (trimBlanks text.toList)
  let body ← dropUnderscores false body
  let (front, rest) := body.span isDigit
  let (fraction, rest) := splitFraction rest
  let exponent ← exponent? rest
  if front.isEmpty && fraction.isEmpty then none
  else some ⟨negative, ofDigits (front ++ fraction), exponent - fraction.length⟩

/-- The double nearest to a decimal number, with its sign. -/
def Decimal.toDouble (d : Decimal) : Bool × Binary64 :=
  (d.negative, .ofDecimal d.digits d.exponent)

/-- A decimal number read from a text. -/
def double (text : String) : Except Fault (Bool × Binary64) :=
  match decimal? text with
  | none => .error (.decimalNumber text)
  | some d => .ok d.toDouble

end BasicScript.Number
