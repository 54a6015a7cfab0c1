import BasicScript.Text.Case
import BasicScript.Text.Quoted

/-!
# Tokens

A token is a word, number, string, sign or line end of the source, with the line and column of its
first character, both counted from one.
-/

namespace BasicScript

/-- What sort of token it is.  `other` is a sort that reading source text never gives. -/
inductive Kind where
  | keyword
  | identifier
  | number
  | string
  | operator
  | punctuation
  | newline
  | endOfInput
  | other (name : String)
deriving Repr, DecidableEq

namespace Kind

def name : Kind → String
  | keyword => "KEYWORD"
  | identifier => "IDENTIFIER"
  | number => "NUMBER"
  | string => "STRING"
  | operator => "OPERATOR"
  | punctuation => "PUNCTUATION"
  | newline => "NEWLINE"
  | endOfInput => "EOF"
  | other name => name

def ofName (name : String) : Kind :=
  if name = "KEYWORD" then keyword
  else if name = "IDENTIFIER" then identifier
  else if name = "NUMBER" then number
  else if name = "STRING" then string
  else if name = "OPERATOR" then operator
  else if name = "PUNCTUATION" then punctuation
  else if name = "NEWLINE" then newline
  else if name = "EOF" then endOfInput
  else other name

end Kind

/-- A token and where it begins. -/
structure Token where
  kind : Kind
  text : String
  line : Int
  column : Int
deriving Repr, DecidableEq

namespace Token

def isKeyword (token : Token) (word : String) : Bool :=
  token.kind = .keyword && token.text = word

def isOperator (token : Token) (sign : String) : Bool :=
  token.kind = .operator && token.text = sign

def isMark (token : Token) (mark : String) : Bool :=
  token.kind = .punctuation && token.text = mark

def isWord (token : Token) : Bool :=
  token.kind = .identifier || token.kind = .keyword

/-- Whether the token is a name or a number, and so may be a label. -/
def isLabel (token : Token) : Bool :=
  token.kind = .identifier || token.kind = .number

def endsLine (token : Token) : Bool :=
  token.kind = .newline || token.kind = .endOfInput

/-- Whether the token ends a statement: the end of a line, a colon, or the `ELSE` of a single-line
`IF`. -/
def endsStatement (token : Token) : Bool :=
  token.endsLine || token.isMark ":" || token.isKeyword "ELSE"

/-- The token in a message. -/
def describe (token : Token) : String :=
  match token.kind with
  | .endOfInput => "end of input"
  | .newline => "end of line"
  | .string => "\"" ++ token.text ++ "\""
  | _ => "'" ++ token.text ++ "'"

/-- The token with all its parts. -/
def display (token : Token) : String :=
  "Token(" ++ token.kind.name ++ ", " ++ Text.quoted token.text ++ ", " ++ toString token.line ++
    ", " ++ toString token.column ++ ")"

end Token

end BasicScript
