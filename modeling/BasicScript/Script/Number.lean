import BasicScript.Number.Numeral

/-!
# Number literals

A number of the source, written as a JavaScript literal: without its type suffix and without zeros
in front, which strict mode would refuse.  A number with a point is a double.
-/

namespace BasicScript.Script

/-- Type suffixes of a number. -/
def numberSuffixes : List Char := ['#', '!', '&', '%']

/-- A text without its type suffix, if it ends in one. -/
def dropNumberSuffix (text : String) : String :=
  match text.toList.reverse with
  | [] => text
  | last :: front => if numberSuffixes.contains last then String.ofList front.reverse else text

/-- Whole doubles are written out up to this power of ten. -/
def wholeLimit : Nat := Nat.pow 10 21

/-- An exponent with its sign and at least two digits. -/
def exponentText (exponent : Int) : String :=
  let digits := (toString exponent.natAbs).toList
  (if exponent < 0 then "-" else "+") ++
    String.ofList (List.replicate (2 - digits.length) '0' ++ digits)

/-- The digits of a positive double that is not written out, the point after `point` of them:
positional from `10 ^ -4` up to `10 ^ 16`, else with an exponent. -/
def pointed (digits : List Char) (point : Int) : String :=
  if -4 < point ∧ point ≤ 16 then
    if point ≤ 0 then
      "0." ++ String.ofList (List.replicate (-point).toNat '0' ++ digits)
    else
      let front := digits.take point.toNat ++ List.replicate (point.toNat - digits.length) '0'
      let fraction := digits.drop point.toNat
      String.ofList front ++ "." ++ if fraction.isEmpty then "0" else String.ofList fraction
  else
    let fraction := digits.drop 1
    String.ofList (digits.take 1) ++
      (if fraction.isEmpty then "" else "." ++ String.ofList fraction) ++
      "e" ++ exponentText (point - 1)

/-- A double with the fewest digits that read back. -/
def doubleText (negative : Bool) : Number.Binary64 → String
  | .infinite => if negative then "-inf" else "inf"
  | .finite mantissa exponent =>
    let (digits, unit) := Number.Binary64.shortest mantissa exponent
    let digits := (toString digits).toList
    (if negative then "-" else "") ++ pointed digits (digits.length + unit)

/-- The literal of a double: whole values below `10 ^ 21` in full. -/
def doubleLiteral (negative : Bool) (value : Number.Binary64) : String :=
  match value.toNat? with
  | some n =>
    if n < wholeLimit then toString (if negative then -(n : Int) else n)
    else doubleText negative value
  | none => doubleText negative value

/-- The literal of a number of the source. -/
def number (text : String) : Except Fault String :=
  let text := dropNumberSuffix text
  if text.toList.contains '.' then
    (Number.double text).map fun (negative, value) => doubleLiteral negative value
  else
    (Number.whole text).map toString

end BasicScript.Script
