import BasicScript.Text.Quoted

/-!
# Faults

A fault ends an operation without a result.  Each constructor is a cause; `Fault.message` is the one
place that words them.
-/

namespace BasicScript

/-- Longest decimal form of an integer, in digits. -/
def digitLimit : Nat := 4300

/-- Why an operation ended without a result. -/
inductive Fault where
  /-- A position outside a sequence of items. -/
  | position
  /-- A position outside a text. -/
  | textPosition
  /-- A token index at or beyond the tokens in use. -/
  | tokenIndex (index : Int)
  /-- The module scope is never closed. -/
  | moduleScope
  /-- A text that is not a whole number. -/
  | wholeNumber (text : String)
  /-- A text that is not a decimal number. -/
  | decimalNumber (text : String)
  /-- A whole number written with too many digits. -/
  | tooManyDigits (count : Nat)
  /-- A value whose decimal form has too many digits. -/
  | valueTooLong
  /-- A record type that was never declared. -/
  | recordType (name : String)
  /-- A target that does not exist. -/
  | target (name : String)
  /-- A cache that could hold nothing. -/
  | capacity
  /-- A file name that holds a NUL character. -/
  | nulInName
deriving Repr, DecidableEq

namespace Fault

/-- The wording of a fault.  The quoted form of a malformed whole number is cut at 200
characters. -/
def message : Fault → String
  | position => "list index out of range"
  | textPosition => "string index out of range"
  | tokenIndex index => "token index out of range: " ++ toString index
  | moduleScope => "cannot pop the global scope"
  | wholeNumber text =>
    "invalid literal for int() with base 10: " ++ String.ofList ((Text.quoted text).toList.take 200)
  | decimalNumber text => "could not convert string to float: " ++ Text.quoted text
  | tooManyDigits count =>
    "Exceeds the limit (" ++ toString digitLimit ++
      " digits) for integer string conversion: value has " ++ toString count ++
      " digits; use sys.set_int_max_str_digits() to increase the limit"
  | valueTooLong =>
    "Exceeds the limit (" ++ toString digitLimit ++
      " digits) for integer string conversion; use sys.set_int_max_str_digits() to increase the " ++
      "limit"
  | recordType name => Text.quoted name
  | target name => "unknown target '" ++ name ++ "'"
  | capacity => "capacity must be at least 1"
  | nulInName => "embedded null byte"

end Fault

end BasicScript
