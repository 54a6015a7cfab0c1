import BasicScript.Text.CaseRuns
import BasicScript.Text.Cased

/-!
# Change of letter case

Names are compared without regard to case: two names are the same when their capital forms are
equal.  ASCII letters have one counterpart each; a letter beyond ASCII may have a longer one.  The
small form of sigma depends on its place: at the end of a word it has a form of its own.
-/

namespace BasicScript.Text

/-- The other-case form of a code point beyond ASCII, by the runs and expansions of one
direction. -/
def recase (runs : List CaseRun) (expansions : List (Nat × List Nat)) (c : Char) : List Char :=
  match expansions.lookup c.toNat with
  | some codes => codes.map Char.ofNat
  | none =>
    match runs.find? (·.holds c.toNat) with
    | some run => [Char.ofNat (c.toNat + run.offset).toNat]
    | none => [c]

def upperChar (c : Char) : List Char :=
  if c.toNat < 0x80 then [c.toUpper] else recase capitalRuns capitalExpansions c

/-- The small form of a character by itself. -/
def lowerChar (c : Char) : List Char :=
  if c.toNat < 0x80 then [c.toLower] else recase smallRuns smallExpansions c

def upper (text : String) : String :=
  String.ofList (text.toList.flatMap upperChar)

/-- Whether the first character that is not passed over has a letter case. -/
def meetsCased (chars : List Char) : Bool :=
  match chars.dropWhile isCaseIgnorable with
  | [] => false
  | c :: _ => isCased c

/-- The small form of the characters of a text; `before` are those in front, the nearest first.  A
sigma with a letter in front and none behind ends a word. -/
def lowerAfter (before : List Char) : List Char → List Char
  | [] => []
  | c :: rest =>
    let form :=
      if c = 'Σ' && meetsCased before && !meetsCased rest then ['ς'] else lowerChar c
    form ++ lowerAfter (c :: before) rest

def lower (text : String) : String :=
  String.ofList (lowerAfter [] text.toList)

end BasicScript.Text
