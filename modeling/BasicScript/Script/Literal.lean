/-!
# String literals

A text as a JavaScript string literal in double quotes.  What would end the literal, end the line or
be lost in transit is written as an escape; every other character stands for itself.
-/

namespace BasicScript.Script

/-- The form of one character inside a string literal. -/
def escapeChar (c : Char) : List Char :=
  if c = '\\' then ['\\', '\\']
  else if c = '"' then ['\\', '"']
  else if c = '\n' then ['\\', 'n']
  else if c = '\t' then ['\\', 't']
  else if c = '\r' then ['\\', 'r']
  else if c = '\x00' then ['\\', 'x', '0', '0']
  else if c = '\u2028' then ['\\', 'u', '2', '0', '2', '8']
  else if c = '\u2029' then ['\\', 'u', '2', '0', '2', '9']
  else [c]

/-- A text as it stands between the quotes of a literal. -/
def escape (text : String) : String :=
  String.ofList (text.toList.flatMap escapeChar)

def literal (text : String) : String :=
  "\"" ++ escape text ++ "\""

end BasicScript.Script
