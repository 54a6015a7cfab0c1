/-!
# Double precision, exactly

The values of double precision are `mantissa * 2 ^ exponent` with a mantissa below `2 ^ 53`, an
exponent from `-1074` to `971`, and an infinity above.  Everything here is exact arithmetic on
natural numbers: the double nearest to a quotient, the fewest digits that read back as a double, and
a double with a fixed number of decimals.  A half goes to the even neighbour.
-/

namespace BasicScript.Number

/-- A non-negative double: `mantissa * 2 ^ exponent`, or beyond the largest of them. -/
inductive Binary64 where
  | finite (mantissa : Nat) (exponent : Int)
  | infinite
deriving Repr, DecidableEq

/-- The quotient rounded to the nearest whole number, a half to the even one. -/
def roundDiv (num den : Nat) : Nat :=
  let whole := num / den
  let twice := 2 * (num % den)
  if den < twice then whole + 1
  else if twice = den then whole + whole % 2
  else whole

/-- The numerator and denominator of `num / den * 2 ^ exponent`. -/
def scaleTwo (num den : Nat) (exponent : Int) : Nat × Nat :=
  if 0 ≤ exponent then (num * Nat.pow 2 exponent.toNat, den)
  else (num, den * Nat.pow 2 (-exponent).toNat)

/-- The numerator and denominator of `num / den * 10 ^ exponent`. -/
def scaleTen (num den : Nat) (exponent : Int) : Nat × Nat :=
  if 0 ≤ exponent then (num * Nat.pow 10 exponent.toNat, den)
  else (num, den * Nat.pow 10 (-exponent).toNat)

namespace Binary64

def zero : Binary64 := finite 0 0

/-- The double nearest to `num / den`, for a positive `den`. -/
def ofRatio (num den : Nat) : Binary64 :=
  if num = 0 then zero else
  let rough : Int := (num.log2 : Int) - den.log2 - 53
  let (n, d) := scaleTwo num den (-rough)
  let exponent := max (if d * Nat.pow 2 53 ≤ n then rough + 1 else rough) (-1074)
  let (n, d) := scaleTwo num den (-exponent)
  let mantissa := roundDiv n d
  let (mantissa, exponent) :=
    if mantissa = Nat.pow 2 53 then (Nat.pow 2 52, exponent + 1) else (mantissa, exponent)
  if 971 < exponent then infinite else finite mantissa exponent

/-- The double nearest to `digits * 10 ^ exponent`.  An exponent beyond every double is not
multiplied out. -/
def ofDecimal (digits : Nat) (exponent : Int) : Binary64 :=
  if digits = 0 then zero
  else
    let bits : Int := digits.log2
    if 400 < bits * 3 / 10 + exponent then infinite
    else if (bits + 1) * 31 / 100 + 1 + exponent < -400 then zero
    else
      let (num, den) := scaleTen digits 1 exponent
      ofRatio num den

/-- The whole number that a double is, if it is one. -/
def toNat? : Binary64 → Option Nat
  | infinite => none
  | finite mantissa exponent =>
    let (num, den) := scaleTwo mantissa 1 exponent
    if num % den = 0 then some (num / den) else none

/-! ### The fewest digits that read back -/

/-- The reals that round to a positive double, as quarter steps of its last place: the lower end,
the value and the upper end, over one denominator.  The ends count iff the mantissa is even. -/
structure Interval where
  low : Nat
  value : Nat
  high : Nat
  den : Nat
  closed : Bool

/-- The interval of `mantissa * 2 ^ exponent`.  Below a power of two the doubles lie twice as
dense. -/
def interval (mantissa : Nat) (exponent : Int) : Interval :=
  let below := if mantissa = Nat.pow 2 52 ∧ -1074 < exponent then 1 else 2
  let (scale, den) := scaleTwo 1 4 exponent
  { low := (4 * mantissa - below) * scale
    value := 4 * mantissa * scale
    high := (4 * mantissa + 2) * scale
    den := den
    closed := mantissa % 2 == 0 }

/-- Whether `num / den'` lies in the interval, with everything over the interval's denominator. -/
def Interval.holds (i : Interval) (num den' : Nat) : Bool :=
  if i.closed then i.low * den' ≤ num * i.den && num * i.den ≤ i.high * den'
  else i.low * den' < num * i.den && num * i.den < i.high * den'

/-- The multiple of `10 ^ unit` in the interval that is nearest to the value, if there is one: of
the two neighbours of the value, those that lie in the interval. -/
def Interval.nearest? (i : Interval) (unit : Int) : Option Nat :=
  let (num, den) := scaleTen i.value i.den (-unit)
  let below := num / den
  let (stepNum, stepDen) := scaleTen 1 1 unit
  let inside (k : Nat) : Bool := i.holds (k * stepNum) stepDen
  match inside below, inside (below + 1) with
  | true, true => some (roundDiv num den)
  | true, false => some below
  | false, true => some (below + 1)
  | false, false => none

/-- Digits without their trailing zeros, and the power of ten that those were worth. -/
def trimZeros : Nat → Nat → Int → Nat × Int
  | 0, digits, exponent => (digits, exponent)
  | fuel + 1, digits, exponent =>
    if digits % 10 = 0 then trimZeros fuel (digits / 10) (exponent + 1) else (digits, exponent)

/-- The first grid, from `unit` downwards, with a point in the interval. -/
def firstGrid (i : Interval) : Nat → Int → Nat × Int
  | 0,
    unit => (roundDiv (scaleTen i.value i.den (-unit)).1 (scaleTen i.value i.den (-unit)).2, unit)
  | fuel + 1, unit =>
    match i.nearest? unit with
    | some digits => trimZeros 20 digits unit
    | none => firstGrid i fuel (unit - 1)

/-- The largest `k` with `10 ^ k ≤ num / den`, from a start at or above it. -/
def decimalExponent (num den : Nat) : Nat → Int → Int
  | 0, k => k
  | fuel + 1, k =>
    let (stepNum, stepDen) := scaleTen 1 1 k
    if stepNum * den ≤ num * stepDen then k else decimalExponent num den fuel (k - 1)

/-- The fewest digits that read back as a positive `mantissa * 2 ^ exponent`, and the power of ten
of the last of them. -/
def shortest (mantissa : Nat) (exponent : Int) : Nat × Int :=
  let i := interval mantissa exponent
  let bits : Int := mantissa.log2 + exponent
  let start := bits * 30103 / 100000 + 1
  firstGrid i 17 (decimalExponent i.value i.den 4 start)

/-- A whole number of decimals of a double. -/
def fixed (places : Nat) : Binary64 → String
  | infinite => "inf"
  | finite mantissa exponent =>
    let (num, den) := scaleTwo mantissa 1 exponent
    let digits := roundDiv (num * Nat.pow 10 places) den
    let fraction := (toString (digits % Nat.pow 10 places)).toList
    toString (digits / Nat.pow 10 places) ++ "." ++
      String.ofList (List.replicate (places - fraction.length) '0' ++ fraction)

/-- A double times a small whole number, rounded. -/
def times (factor : Nat) : Binary64 → Binary64
  | infinite => infinite
  | finite mantissa exponent =>
    let (num, den) := scaleTwo (mantissa * factor) 1 exponent
    ofRatio num den

end Binary64

end BasicScript.Number
