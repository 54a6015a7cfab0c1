import BasicScript.Proofs.Extent
import BasicScript.Proofs.Spelling
import Mathlib.Data.Nat.Digits.Lemmas

/-!
# Sources that cannot be read

Reading goes from piece to piece, and strings and comments are pieces like others, so a place that
it comes to (`Reaches`) lies in none of them.  A hexadecimal number whose decimal form is too long
(`StartsLong`) is the one thing that it cannot read.

* `scan_faults_iff`: a source has a fault if and only if reading comes to such a number; any other
  source is read to its end, and the end of the input is the last token and no other.
-/

namespace BasicScript.Lexer

/-- Reading comes to stand in front of some characters of a source, behind whole pieces. -/
inductive Reaches (target : List Char) : List Char → Prop where
  | here : Reaches target target
  | behind {c : Char} {rest : List Char} (h : Reaches target (cut c rest).2) :
      Reaches target (c :: rest)

/-- A hexadecimal number stands in front, with all its digits, and its value has too many decimal
digits. -/
def StartsLong (source : List Char) : Prop :=
  ∃ mark digits after, source = '&' :: mark :: (digits ++ after) ∧ (mark = 'H' ∨ mark = 'h') ∧
    (∀ c ∈ digits, isHexDigit c = true) ∧ (∀ c ∈ after.head?, isHexDigit c = false) ∧
    digitLimit < (Nat.digits 10 (Nat.ofDigits 16 (digits.map hexValue).reverse)).length

theorem cut_hexadecimal {mark : Char} (hmark : mark = 'H' ∨ mark = 'h') (rest : List Char) :
    cut '&' (mark :: rest) = cutHexadecimal ('&' :: mark :: rest) := by
  have hremark : startsRemark ('&' :: mark :: rest) = false :=
    startsRemark_of_first (by decide) (by decide)
  have hhex : startsHexadecimal ('&' :: mark :: rest) = true := by
    simpa [startsHexadecimal] using hmark
  simp [cut, isBlank, hremark, startsNumber, isDigit, hhex]

theorem readHexadecimal_eq_fault_iff (digits : List Char) (fault : Fault) :
    readHexadecimal digits = .fault fault ↔ fault = .valueTooLong ∧
      digitLimit < (Nat.digits 10 (Nat.ofDigits 16 (digits.map hexValue).reverse)).length := by
  have hlong : digitLimit < (Nat.digits 10 (ofHexDigits digits)).length ↔
      ¬ofHexDigits digits < 10 ^ digitLimit := by
    rw [← not_le, Nat.digits_length_le_iff (by decide)]
  simp only [← ofHexDigits_eq, hlong, readHexadecimal, Nat.pow_eq]
  split <;> simp [*, eq_comm]

/-- The first piece cannot be read if and only if it is a number that is too long. -/
theorem reading_cut_eq_fault_iff (c : Char) (rest : List Char) (fault : Fault) :
    (cut c rest).1.reading = .fault fault ↔ fault = .valueTooLong ∧ StartsLong (c :: rest) := by
  have hread {mark : Char} (hmark : mark = 'H' ∨ mark = 'h') (rest : List Char) :
      (cut '&' (mark :: rest)).1.reading = readHexadecimal (split isHexDigit rest).1 := by
    rw [cut_hexadecimal hmark]
    rfl
  constructor
  · intro h
    have hparts := cut_parts c rest
    have hcut := cut_cut c rest
    cases hshape : (cut c rest).1.shape with
    | hexadecimal =>
      rw [Piece.Cut, hshape] at hcut
      obtain ⟨mark, digits, htext, hmark, -⟩ := hcut
      obtain ⟨rfl, after, rfl⟩ : c = '&' ∧ ∃ after, rest = mark :: after := by
        rw [Parts, htext] at hparts
        exact ⟨(List.cons.inj hparts.1).1.symm, _, (List.cons.inj hparts.1).2.symm⟩
      rw [hread hmark, readHexadecimal_eq_fault_iff] at h
      exact ⟨h.1, mark, _, _, by rw [split_append], hmark, split_all _ _, split_snd_head _ _, h.2⟩
    | word =>
      rw [Piece.reading, hshape] at h
      simp only [readWord] at h
      split at h <;> cases h
    | _ =>
      rw [Piece.reading, hshape] at h
      cases h
  · rintro ⟨rfl, mark, digits, after, hsource, hmark, hdigits, hafter, hlong⟩
    obtain ⟨rfl, rfl⟩ := List.cons.inj hsource
    have hsplit : split isHexDigit (digits ++ after) = (digits, after) :=
      split_of_forall hdigits hafter
    rw [hread hmark, hsplit, readHexadecimal_eq_fault_iff]
    exact ⟨rfl, hlong⟩

theorem reaches_cons_iff {target : List Char} {c : Char} {rest : List Char} :
    Reaches target (c :: rest) ↔ target = c :: rest ∨ Reaches target (cut c rest).2 := by
  constructor
  · rintro (_ | h)
    · exact .inl rfl
    · exact .inr h
  · rintro (rfl | h)
    · exact .here
    · exact .behind h

/-- Reading fails with one fault only, and exactly if it comes to a number that is too long. -/
theorem scanFrom_faults_iff (source : List Char) (place : Place) (fault : Fault) :
    (scanFrom place (pieces source)).fault = some fault ↔
      fault = .valueTooLong ∧ ∃ target, Reaches target source ∧ StartsLong target := by
  fun_induction pieces source generalizing place with
  | case1 =>
    constructor
    · intro h
      cases h
    · rintro ⟨-, target, ⟨⟩, mark, digits, after, ⟨⟩, -⟩
  | case2 c rest ih =>
    have hfirst := reading_cut_eq_fault_iff c rest
    simp only [reaches_cons_iff, or_and_right, exists_or, exists_eq_left, scanFrom]
    cases hreading : (cut c rest).1.reading with
    | fault other =>
      obtain ⟨rfl, hlong⟩ := (hfirst other).1 hreading
      simp [hlong, eq_comm]
    | _ =>
      have hshort : ¬StartsLong (c :: rest) :=
        fun hlong => by simpa [hreading] using (hfirst _).2 ⟨rfl, hlong⟩
      simpa [hshort, Scan.before] using ih _

/-- **When a source cannot be read**: exactly if reading comes to a hexadecimal number whose value
has too many decimal digits.  Any other source is read to its end, and of its tokens the last one
and no other is the end of the input. -/
theorem scan_faults_iff (source : String) :
    ((∃ fault, (scan source).fault = some fault) ↔
      ∃ target, Reaches target (source.toList.map plainChar) ∧ StartsLong target) ∧
    ((scan source).fault = some .valueTooLong ∨ (scan source).fault = none ∧
      ∃ front last, (scan source).tokens = front ++ [last] ∧ last.kind = .endOfInput ∧
        ∀ token ∈ front, token.kind ≠ .endOfInput) := by
  have hiff := scanFrom_faults_iff (source.toList.map plainChar) {}
  constructor
  · simp only [scan, hiff, exists_and_right, exists_eq, true_and]
  · cases hfault : (scan source).fault with
    | some fault => exact .inl (congrArg some ((hiff fault).1 hfault).1)
    | none =>
      obtain ⟨front, last, htokens, hlast, -, hfront⟩ := scanFrom_tokens (pieces_fit _) hfault
      exact .inr ⟨rfl, front, last, htokens, hlast, fun token htoken => (hfront token htoken).1⟩

end BasicScript.Lexer
