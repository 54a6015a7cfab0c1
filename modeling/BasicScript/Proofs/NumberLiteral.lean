import BasicScript.Proofs.Operand

/-!
# Numbers in strict mode

Strict mode refuses a number with zeros in front of its digits (`StrictNumber`).  The numbers of a
source may have them.

`number_strict_iff`: a number of a source is written as one of strict mode, and a whole number keeps
its value.  Only a number with a point that is too large for a double is not: it becomes the name
`inf`.
-/

namespace BasicScript.Script

open List
open Lexer (isDigit)

open Number (roundDiv scaleTwo scaleTen)

open Number.Binary64

variable {c : Char} {rest : List Char} {i : Interval} {mantissa : Nat} {exponent : Int}

/-! ### Digits -/

/-- Text that does not begin with a zero in front of another digit. -/
def Unpadded (cs : List Char) : Prop := ∀ c rest, cs = '0' :: c :: rest → isDigit c = false

/-- A number of strict mode. -/
structure StrictNumber (text : String) : Prop extends NumberLiteral text where
  unpadded : Unpadded text.toList

theorem Unpadded.of_head_ne (h : c ≠ '0') : Unpadded (c :: rest) := by
  rintro d back heq
  exact absurd (List.cons.inj heq).1 h

theorem Unpadded.of_second {d : Char} (h : isDigit d = false) : Unpadded (c :: d :: rest) := by
  rintro e back heq
  obtain ⟨rfl, -⟩ := List.cons.inj (List.cons.inj heq).2
  exact h

theorem toList_toString (n : Nat) : (toString n).toList = Nat.toDigits 10 n := by
  rw [Nat.toString_eq_repr, Nat.toList_repr]

/-- The digits of a number begin with a zero only if it is zero. -/
theorem toDigits_cases (n : Nat) :
    n = 0 ∧ Nat.toDigits 10 n = ['0'] ∨ ∃ first rest, Nat.toDigits 10 n = first :: rest ∧
      first ≠ '0' := by
  induction n using Nat.strongRecOn with
  | ind n ih =>
    rcases Nat.lt_or_ge n 10 with hlt | hge
    · rw [Nat.toDigits_of_lt_base hlt]
      rcases Nat.eq_zero_or_pos n with rfl | hpos
      · exact .inl ⟨rfl, rfl⟩
      · exact .inr ⟨_, _, rfl, fun hzero => Nat.ne_of_gt hpos (Nat.digitChar_eq_zero.1 hzero)⟩
    · -- the first digit is that of the tens, and they are not zero
      obtain ⟨hzero, -⟩ | ⟨first, rest, htens, hfirst⟩ := ih (n / 10) (by omega)
      · omega
      · exact .inr ⟨first, rest ++ [(n % 10).digitChar],
          by rw [Nat.toDigits_of_base_le (by decide) hge, htens]; rfl, hfirst⟩

theorem unpadded_toDigits (n : Nat) : Unpadded (Nat.toDigits 10 n) := by
  obtain ⟨-, hzero⟩ | ⟨first, rest, hdigits, hfirst⟩ := toDigits_cases n
  · rw [hzero]
    exact fun _ _ heq => nomatch heq
  · rw [hdigits]
    exact .of_head_ne hfirst

/-- **Digits with a point** have no zeros in front, unless they are a zero that zeros have to
follow. -/
theorem unpadded_pointed (n : Nat) (point : Int) (hzero : n = 0 → point ≤ 1 ∨ 16 < point) :
    Unpadded (pointed (toString n).toList point).toList := by
  rw [toList_toString]
  unfold pointed
  split
  · split
    · simp only [String.toList_append]
      exact .of_second rfl
    · obtain ⟨k, hk⟩ : ∃ k, point.toNat = k + 1 := ⟨point.toNat - 1, by omega⟩
      obtain ⟨hn, hdigits⟩ | ⟨first, rest, hdigits, hfirst⟩ := toDigits_cases n
      · obtain rfl : k = 0 := by have := hzero hn; omega
        rw [hk, hdigits]
        exact .of_second rfl
      · simp only [hdigits, hk, take_succ_cons, String.toList_append,
          String.toList_ofList, cons_append]
        exact .of_head_ne hfirst
  · -- behind the first digit stands the point or the mark of the exponent
    obtain ⟨first, rest, hdigits⟩ := exists_cons_of_ne_nil (Nat.toDigits_ne_nil (b := 10) (n := n))
    cases rest with
    | nil =>
      simp only [hdigits, String.toList_append, String.toList_ofList]
      exact .of_second (d := 'e') rfl
    | cons second rest =>
      simp only [hdigits, drop_succ_cons, drop_zero, isEmpty_cons, Bool.false_eq_true, if_false,
        String.toList_append, String.toList_ofList]
      exact .of_second (d := '.') rfl

/-! ### The digits of a double -/

theorem le_roundDiv (num den : Nat) : num / den ≤ roundDiv num den := by
  unfold roundDiv
  extract_lets whole twice
  split
  · exact Nat.le_succ _
  split
  · exact Nat.le_add_right _ _
  · exact Nat.le_refl _

theorem two_mul_le_of_roundDiv {num den : Nat} (hden : 0 < den) (h : roundDiv num den = 0) :
    2 * num ≤ den := by
  have hwhole : num / den = 0 := Nat.le_zero.1 (h ▸ le_roundDiv num den)
  have hrest : num % den = num := Nat.mod_eq_of_lt ((Nat.div_eq_zero_iff_lt hden).1 hwhole)
  unfold roundDiv at h
  simp only [hwhole, hrest] at h
  split at h
  · cases h
  · omega

theorem scaleTen_one_pos (unit : Int) : 0 < (scaleTen 1 1 unit).2 := by
  unfold scaleTen
  split
  · exact Nat.one_pos
  · rw [Nat.one_mul]
    exact Nat.pow_pos (by decide)

/-- Zero is not in the interval of a positive double. -/
theorem pos_of_nearest? {unit : Int} {n : Nat} (hlow : 0 < i.low) (h : i.nearest? unit = some n) :
    0 < n := by
  have hzero {k : Nat} (hk : i.holds (k * (scaleTen 1 1 unit).1) (scaleTen 1 1 unit).2 = true) :
      0 < k := by
    refine Nat.pos_of_ne_zero ?_
    rintro rfl
    have hpos := Nat.mul_pos hlow (scaleTen_one_pos unit)
    unfold Interval.holds at hk
    split at hk
    · simp only [Nat.zero_mul, Bool.and_eq_true, decide_eq_true_eq] at hk
      omega
    · simp only [Nat.zero_mul, Bool.and_eq_true, decide_eq_true_eq] at hk
      omega
  unfold Interval.nearest? at h
  split at h
  split at h
  rename_i hstep
  rw [hstep] at hzero
  simp only at h
  split at h
  · cases h
    exact Nat.lt_of_lt_of_le (hzero ‹_›) (le_roundDiv _ _)
  · cases h
    exact hzero ‹_›
  · cases h
    exact Nat.succ_pos _
  · cases h

theorem trimZeros_pos {digits : Nat} (h : 0 < digits) (fuel : Nat) (exponent : Int) :
    0 < (trimZeros fuel digits exponent).1 := by
  induction fuel generalizing digits exponent with
  | zero => exact h
  | succ fuel ih =>
    unfold trimZeros
    split
    · exact ih (by omega) _
    · exact h

/-- The digits are not zero, or no grid was found. -/
theorem firstGrid_cases (hlow : 0 < i.low) (fuel : Nat) (unit : Int) :
    0 < (firstGrid i fuel unit).1 ∨ firstGrid i fuel unit = firstGrid i 0 (unit - fuel) := by
  induction fuel generalizing unit with
  | zero => simp
  | succ fuel ih =>
    unfold firstGrid
    split
    · exact .inl (trimZeros_pos (pos_of_nearest? hlow ‹_›) _ _)
    · rw [show unit - ((fuel + 1 : Nat) : Int) = unit - 1 - fuel by omega]
      exact ih (unit - 1)

theorem decimalExponent_bounds (num den fuel : Nat) (k : Int) :
    k - fuel ≤ decimalExponent num den fuel k ∧ decimalExponent num den fuel k ≤ k := by
  induction fuel generalizing k with
  | zero => simp [decimalExponent]
  | succ fuel ih =>
    have hnext := ih (k - 1)
    unfold decimalExponent
    split
    split <;> omega

/-- A positive double is at least the power of two that its logarithm says. -/
theorem two_pow_le_of_interval {bound : Nat} (hpos : 0 < mantissa)
    (hbits : 0 ≤ mantissa.log2 + exponent)
    (h : 2 * (interval mantissa exponent).value ≤ (interval mantissa exponent).den * bound) :
    2 * Nat.pow 2 (mantissa.log2 + exponent).toNat ≤ bound := by
  have hlog : 2 ^ mantissa.log2 ≤ mantissa := Nat.log2_self_le (Nat.ne_of_gt hpos)
  simp only [interval, scaleTwo] at h
  simp only [Nat.pow_eq] at h ⊢
  by_cases hsign : 0 ≤ exponent
  · rw [if_pos hsign] at h
    have hsum : (mantissa.log2 + exponent).toNat = mantissa.log2 + exponent.toNat := by omega
    have hmul : 2 ^ mantissa.log2 * 2 ^ exponent.toNat ≤ mantissa * 2 ^ exponent.toNat :=
      Nat.mul_le_mul_right _ hlog
    rw [hsum, Nat.pow_add]
    simp only [Nat.one_mul, Nat.mul_assoc] at h
    omega
  · rw [if_neg hsign] at h
    have hsum : mantissa.log2 = (mantissa.log2 + exponent).toNat + (-exponent).toNat := by omega
    rw [hsum, Nat.pow_add, Nat.mul_comm] at hlog
    have hmul : 2 ^ (-exponent).toNat * (2 * 2 ^ (mantissa.log2 + exponent).toNat) ≤
        2 ^ (-exponent).toNat * bound := by
      rw [Nat.mul_left_comm]
      simp only [Nat.mul_one, Nat.mul_assoc] at h
      omega
    exact Nat.le_of_mul_le_mul_left hmul (Nat.two_pow_pos _)

/-- The powers of ten that the logarithm of a double is taken for are not far beyond it. -/
theorem ten_pow_lt :
    ∀ bits < 121, Nat.pow 10 (bits * 30103 / 100000) < Nat.pow 2 bits * Nat.pow 10 16 := by
  decide +kernel

/-- Where no grid was found, the digits that are taken are not zero either if they end in front of
the point. -/
theorem firstGrid_zero_pos (exponent unit : Int) (hpos : 0 < mantissa) (hunit : 0 < unit)
    (hbits : unit + 16 ≤ (mantissa.log2 + exponent) * 30103 / 100000)
    (hfew : mantissa.log2 + exponent < 121) :
    0 < (firstGrid (interval mantissa exponent) 0 unit).1 := by
  refine Nat.pos_of_ne_zero fun hzero => ?_
  have hden : 0 < (interval mantissa exponent).den := by
    simp only [interval, scaleTwo]
    split
    · exact Nat.succ_pos 3
    · exact Nat.mul_pos (Nat.succ_pos 3) (Nat.two_pow_pos _)
  have hscale :
      scaleTen (interval mantissa exponent).value (interval mantissa exponent).den (-unit) =
      ((interval mantissa exponent).value,
        (interval mantissa exponent).den * Nat.pow 10 unit.toNat) := by
    rw [scaleTen, if_neg (by omega), Int.neg_neg]
  simp only [firstGrid, hscale] at hzero
  have htwice := two_mul_le_of_roundDiv (Nat.mul_pos hden (Nat.pow_pos (by decide))) hzero
  obtain ⟨bits, hbitsEq⟩ : ∃ bits : Nat, mantissa.log2 + exponent = bits :=
    ⟨(mantissa.log2 + exponent).toNat, by omega⟩
  have hlarge := two_pow_le_of_interval hpos (by omega) htwice
  rw [hbitsEq] at hbits hfew hlarge
  have hsmall := ten_pow_lt bits (by omega)
  have hsplit : unit.toNat + 16 ≤ bits * 30103 / 100000 := by omega
  have hpow : Nat.pow 10 unit.toNat * Nat.pow 10 16 ≤ Nat.pow 10 (bits * 30103 / 100000) := by
    simp only [Nat.pow_eq, ← Nat.pow_add]
    exact Nat.pow_le_pow_right (by decide) hsplit
  have hless := Nat.lt_of_mul_lt_mul_right (Nat.lt_of_le_of_lt hpow hsmall)
  simp only [Int.toNat_natCast, Nat.pow_eq] at hlarge hless
  omega

/-- **The digits of a double** are not zero, at least not where they end in front of the point. -/
theorem shortest_zero (hpos : 0 < mantissa) (hzero : (shortest mantissa exponent).1 = 0) :
    (shortest mantissa exponent).2 ≤ 0 ∨ 15 < (shortest mantissa exponent).2 := by
  have hlow : 0 < (interval mantissa exponent).low := by
    simp only [interval, scaleTwo]
    refine Nat.mul_pos (by split <;> omega) ?_
    split
    · rw [Nat.one_mul]
      exact Nat.two_pow_pos _
    · exact Nat.one_pos
  have hbounds := decimalExponent_bounds (interval mantissa exponent).value
    (interval mantissa exponent).den 4
    ((mantissa.log2 + exponent) * 30103 / 100000 + 1)
  simp only [shortest] at hzero ⊢
  rcases firstGrid_cases hlow 17
    (decimalExponent (interval mantissa exponent).value (interval mantissa exponent).den 4
    ((mantissa.log2 + exponent) * 30103 / 100000 + 1)) with h | h
  · omega
  · rw [h] at hzero ⊢
    simp only [firstGrid] at hzero ⊢
    by_contra hunit
    have := firstGrid_zero_pos exponent (decimalExponent (interval mantissa exponent).value
      (interval mantissa exponent).den 4 ((mantissa.log2 + exponent) * 30103 / 100000 + 1) -
      (17 : Nat)) hpos
      (by omega) (by omega) (by omega)
    simp only [firstGrid] at this
    omega

/-! ### Literals -/

theorem toNat?_zero (exponent : Int) : toNat? (.finite 0 exponent) = some 0 := by
  simp only [toNat?, scaleTwo]
  split <;> simp

theorem unpadded_doubleLiteral {value : Number.Binary64} (h : value ≠ .infinite) :
    Unpadded (doubleLiteral false value).toList := by
  have hwhole (n : Nat) : Unpadded (toString (n : Int)).toList :=
    (toList_toString n).symm ▸ unpadded_toDigits n
  cases value with
  | infinite => exact absurd rfl h
  | finite mantissa exponent =>
    unfold doubleLiteral
    rcases Nat.eq_zero_or_pos mantissa with rfl | hpos
    · rw [toNat?_zero]
      exact hwhole 0
    have hpointed := unpadded_pointed (shortest mantissa exponent).1
      ((toString (shortest mantissa exponent).1).toList.length +
        (shortest mantissa exponent).2) fun hzero => by
        have hunit := shortest_zero hpos hzero
        have hone : (toString (shortest mantissa exponent).1).toList.length = 1 :=
          by rw [hzero]; rfl
        omega
    have htext : Unpadded (doubleText false (.finite mantissa exponent)).toList := by
      simpa [doubleText] using hpointed
    split
    · split
      · exact hwhole _
      · exact htext
    · exact htext

theorem not_strictNumber_inf : ¬StrictNumber "inf" := by
  rintro ⟨⟨whole, fraction, exponent, htext, ⟨hne, hdigits⟩, -⟩, -⟩
  obtain ⟨first, rest, rfl⟩ := exists_cons_of_ne_nil hne
  have hfirst := hdigits first (.head _)
  obtain ⟨rfl, -⟩ :=
    List.cons.inj (show 'i' :: ['n', 'f'] = first :: (rest ++ fraction ++ exponent) from htext)
  cases hfirst

theorem strictNumber_doubleLiteral_iff (value : Number.Binary64) :
    StrictNumber (doubleLiteral false value) ↔ value ≠ .infinite := by
  rcases doubleLiteral_cases value with hliteral | ⟨rfl, hinf⟩
  · refine ⟨?_, fun h => ⟨hliteral, unpadded_doubleLiteral h⟩⟩
    rintro h rfl
    exact not_strictNumber_inf h
  · rw [hinf]
    exact iff_of_false not_strictNumber_inf fun h => h rfl

theorem digitValue_of_isDigit (h : isDigit c = true) :
    Number.digitValue c = c.toNat - '0'.toNat := by
  simp only [isDigit, Bool.and_eq_true, decide_eq_true_eq] at h
  have hall : ∀ n < 58, 48 ≤ n →
      Number.digitValue (Char.ofNat n) = (Char.ofNat n).toNat - '0'.toNat := by decide +kernel
  have hc := hall c.toNat (Nat.lt_succ_of_le h.2) h.1
  rwa [Char.ofNat_toNat] at hc

theorem ofDigits_eq {digits : List Char} (h : ∀ c ∈ digits, isDigit c = true) :
    Number.ofDigits digits = Nat.ofDigitChars 10 digits 0 := by
  rw [Number.ofDigits, Nat.ofDigitChars_eq_foldl]
  refine foldl_ext _ _ _ fun value c hc => ?_
  rw [digitValue_of_isDigit (h c hc)]

/-- **Numbers in strict mode.**  A number of a source, of at most `digitLimit` digits or with a
point, has a literal.  One without a point has a number of strict mode with the same digits, up to
zeros in front; one with a point has a number of strict mode if and only if it is not beyond the
doubles. -/
theorem number_strict_iff (source : String)
    (hread : (Lexer.scan source).fault = none) (token : Token)
    (hmem : token ∈ (Lexer.scan source).tokens) (hkind : token.kind = .number)
    (hfew : '.' ∉ token.text.toList → (token.text.toList.filter isDigit).length ≤ digitLimit) :
    ∃ literal, number token.text = .ok literal ∧
      ('.' ∉ token.text.toList → (∀ c ∈ literal.toList, isDigit c = true) ∧
        Nat.ofDigitChars 10 literal.toList 0 = Nat.ofDigitChars 10
        (token.text.toList.filter isDigit) 0) ∧
      (StrictNumber literal ↔
        ¬('.' ∈ token.text.toList ∧ Number.double (dropNumberSuffix token.text) =
          .ok (false, .infinite))) := by
  have hnumeral := ((Tape.ofSource source hread).fits token (mem_toArray.2 hmem)).numeral hkind
  rcases number_of_numeral hnumeral with ⟨hpoint, hnumber⟩ | ⟨hpoint, value, hdouble, hnumber⟩
  · rw [if_neg (Nat.not_lt_of_le (hfew hpoint))] at hnumber
    have hdigits := digits_natToString (Number.ofDigits (token.text.toList.filter isDigit))
    refine ⟨_, hnumber, fun _ => ⟨hdigits.2, ?_⟩,
      iff_of_true ⟨hdigits.numberLiteral, ?_⟩ fun hpoint' => hpoint hpoint'.1⟩
    · rw [toList_toString, Nat.ofDigitChars_ten_toDigits,
        ofDigits_eq fun c hc => (mem_filter.1 hc).2]
    · rw [toList_toString]
      exact unpadded_toDigits _
  · refine ⟨_, hnumber, fun hno => absurd hpoint hno,
      (strictNumber_doubleLiteral_iff value).trans (not_congr ?_)⟩
    simp [hpoint, hdouble]

/-- Zeros in front and a suffix are dropped. -/
theorem padded_number_strict :
    ∃ literal, number "0070%" = .ok literal ∧ StrictNumber literal ∧
      Nat.ofDigitChars 10 literal.toList 0 = 70 := by
  have hread : (Lexer.scan "x = 0070%").fault = none := by decide +kernel
  have hmem : (⟨.number, "0070%", 1, 5⟩ : Token) ∈ (Lexer.scan "x = 0070%").tokens := by
    decide +kernel
  have hpoint : '.' ∉ "0070%".toList := by decide
  obtain ⟨literal, hliteral, hvalue, hstrict⟩ :=
    number_strict_iff _ hread _ hmem rfl fun _ => by decide
  exact ⟨literal, hliteral, hstrict.2 fun h => hpoint h.1, (hvalue hpoint).2.trans (by decide)⟩

/-- A number that is beyond the doubles is written as a name. -/
theorem number_of_infinite {whole fraction : List Char} (hwhole : ∀ c ∈ whole, isDigit c = true)
    (hfraction : Digits fraction)
    (h : ofDecimal (Number.ofDigits (whole ++ fraction)) (0 - fraction.length) = .infinite) :
    Numeral (whole ++ '.' :: fraction) ∧
      number (String.ofList (whole ++ '.' :: fraction)) = .ok "inf" := by
  have hnumeral : Numeral (whole ++ '.' :: fraction) :=
    ⟨whole, ['.'], fraction, [], by simp, hwhole, hfraction.2, .inr rfl, .inr hfraction.1, .inl rfl⟩
  have hbody : ∀ c ∈ whole ++ '.' :: fraction, isNumeralChar c = true :=
    forall_mem_append.2 ⟨fun c hc => by simp [isNumeralChar, hwhole c hc],
      forall_mem_cons.2 ⟨rfl, fun c hc => by simp [isNumeralChar, hfraction.2 c hc]⟩⟩
  have hdrop := dropNumberSuffix_body hbody (.inl (rfl : [] = []))
  rw [append_nil] at hdrop
  refine ⟨hnumeral, ?_⟩
  rw [number, hdrop, double_eq hwhole hfraction.2 (.inr hfraction.1), h, String.toList_ofList,
    if_pos (by simp)]
  rfl

/-- The digits of a number that is beyond the doubles. -/
def nines : List Char := List.replicate 309 '9'

/-- **Beyond the doubles** a number is no number of JavaScript. -/
theorem nines_is_name :
    Numeral (nines ++ ['.', '5']) ∧ number (String.ofList (nines ++ ['.', '5'])) = .ok "inf" ∧
      ¬StrictNumber "inf" := by
  have hnines : ∀ c ∈ nines, isDigit c = true := fun c hc => by rw [eq_of_mem_replicate hc]; rfl
  have hnumber := number_of_infinite hnines (⟨nofun, forall_mem_singleton.2 rfl⟩ : Digits ['5'])
    (by decide +kernel)
  exact ⟨hnumber.1, hnumber.2, not_strictNumber_inf⟩

end BasicScript.Script
