import BasicScript.Emit.Expression
import BasicScript.Proofs.Reading

/-!
# Names and numbers are words

The JavaScript name of a word is a word (`Wordy.mangle`); so is every number that is written
(`wordy_of_number`).  So names and numbers fit wherever code is read.
-/

namespace BasicScript.Script

open List

variable {cs : List Char} {c : Char} {name text : String}

theorem Plain.take (h : Plain cs) (n : Nat) : Plain (cs.take n) :=
  fun c hc => h c (mem_of_mem_take hc)

theorem Plain.drop (h : Plain cs) (n : Nat) : Plain (cs.drop n) :=
  fun c hc => h c (mem_of_mem_drop hc)

theorem plain_replicate (n : Nat) : Plain (List.replicate n '0') := by
  intro c hc
  rw [eq_of_mem_replicate hc]
  rfl

theorem wordy_ofList (hne : cs ≠ []) (h : Plain cs) : Wordy (String.ofList cs) := by
  refine ⟨fun he => hne ?_, by rwa [String.toList_ofList]⟩
  rw [← String.toList_ofList (l := cs), he, String.toList_empty]

/-! ### Names -/

theorem plain_suffixTail {tail : String} (h : suffixTail? c = some tail) : Wordy tail := by
  simp only [suffixTail?] at h
  repeat' split at h
  all_goals first
    | (cases h; exact ⟨by decide, by decide⟩)
    | cases h

theorem Wordy.safeName (h : Wordy name) : Wordy (safeName name) := by
  unfold Script.safeName
  split
  · exact h.append (by decide)
  · exact h

/-- The JavaScript name of a word is a word. -/
theorem Wordy.mangle (h : Wordy name) : Wordy (mangle name) := by
  unfold Script.mangle
  split
  · exact h.safeName
  · rename_i last front hname
    split
    · rename_i tail htail
      have ht := plain_suffixTail htail
      refine ⟨by simp [ht.1], ?_⟩
      intro c hc
      rw [String.toList_append, String.toList_ofList, mem_append, mem_reverse] at hc
      rcases hc with hc | hc
      · refine h.2 c ?_
        rw [← mem_reverse, hname]
        exact mem_cons_of_mem _ hc
      · exact ht.2 c hc
    · exact h.safeName

theorem ascii_forall {P : Char → Prop} (h : ∀ n < 0x80, P (Char.ofNat n)) (hc : c.toNat < 0x80) :
    P c :=
  c.ofNat_toNat ▸ h c.toNat hc

theorem toNat_lt_of_isPrinted (h : isPrinted c = true) : c.toNat < 0x80 := by
  simp only [isPrinted, Bool.and_eq_true, decide_eq_true_eq] at h
  exact Nat.lt_of_le_of_lt (show c.toNat ≤ '~'.toNat from h.2) (by decide)

theorem isPrinted_of_isPlain (h : isPlain c = true) : isPrinted c = true := by
  simp only [isPlain, Bool.and_eq_true] at h
  exact h.1.1.1.1.1.1

theorem plain_toUpper (h : isPlain c = true) : c.toNat < 0x80 ∧ isPlain c.toUpper = true := by
  have hlt := toNat_lt_of_isPrinted (isPrinted_of_isPlain h)
  exact ⟨hlt, ascii_forall (P := fun c => isPlain c = true → isPlain c.toUpper = true)
    (by decide +kernel) hlt h⟩

theorem Wordy.upper (h : Wordy text) : Wordy (Text.upper text) := by
  have hform : ∀ c ∈ text.toList, Text.upperChar c = [c.toUpper] := fun c hc => by
    rw [Text.upperChar, if_pos (plain_toUpper (h.2 c hc)).1]
  refine wordy_ofList ?_ ?_
  · intro hnil
    obtain ⟨c, hc⟩ := exists_mem_of_ne_nil text.toList (by simpa using h.1)
    have := flatMap_eq_nil_iff.1 hnil c hc
    simp [hform c hc] at this
  · intro d hd
    obtain ⟨c, hc, hd⟩ := mem_flatMap.1 hd
    rw [hform c hc, mem_singleton] at hd
    exact hd ▸ (plain_toUpper (h.2 c hc)).2

/-! ### Numbers -/

theorem plain_of_isDigit (h : c.isDigit = true) : isPlain c = true := by
  simp only [Char.isDigit, Bool.and_eq_true, decide_eq_true_eq] at h
  have hall : ∀ n < 58, 48 ≤ n → isPlain (Char.ofNat n) = true := by decide +kernel
  have hc := hall c.toNat (by have := h.2; exact Nat.lt_succ_of_le this) h.1
  rwa [Char.ofNat_toNat] at hc

theorem wordy_natToString (n : Nat) : Wordy (toString n) := by
  rw [Nat.toString_eq_repr, Nat.repr_eq_ofList_toDigits]
  exact wordy_ofList Nat.toDigits_ne_nil fun c hc =>
    plain_of_isDigit (Nat.isDigit_of_mem_toDigits (by decide) (by decide) hc)

theorem wordy_intToString (n : Int) : Wordy (toString n) := by
  have hminus : Wordy "-" := ⟨by decide, by decide⟩
  cases n with
  | ofNat m => exact wordy_natToString m
  | negSucc m => exact hminus.append (wordy_natToString m.succ).2

theorem plain_digits (n : Nat) : Plain (toString n).toList := (wordy_natToString n).2

theorem plain_exponentText (e : Int) : Plain (exponentText e).toList := by
  simp only [exponentText, String.toList_append, String.toList_ofList]
  refine .append ?_ ((plain_replicate _).append (plain_digits _))
  split <;> decide

theorem wordy_pointed {digits : List Char} (h : Plain digits) (point : Int) :
    Wordy (pointed digits point) := by
  have hzero : Wordy "0." := ⟨by decide, by decide⟩
  have hdot : Plain ".".toList := by decide
  unfold pointed
  split
  · split
    · exact hzero.append (by rw [String.toList_ofList]; exact (plain_replicate _).append h)
    · have hfront := (h.take point.toNat).append (plain_replicate (point.toNat - digits.length))
      refine ⟨by simp, ?_⟩
      simp only [String.toList_append, String.toList_ofList]
      refine (hfront.append hdot).append ?_
      split
      · decide
      · rw [String.toList_ofList]
        exact h.drop _
  · refine ⟨by simp, ?_⟩
    simp only [String.toList_append, String.toList_ofList]
    refine (((h.take 1).append ?_).append (by decide)).append (plain_exponentText _)
    split
    · decide
    · rw [String.toList_append]
      exact hdot.append (by rw [String.toList_ofList]; exact h.drop 1)

theorem wordy_doubleText (negative : Bool) (value : Number.Binary64) :
    Wordy (doubleText negative value) := by
  cases value with
  | infinite => cases negative <;> exact ⟨by decide, by decide⟩
  | finite mantissa exponent =>
    have h := wordy_pointed (plain_digits (Number.Binary64.shortest mantissa exponent).1)
      ((toString (Number.Binary64.shortest mantissa exponent).1).toList.length +
        (Number.Binary64.shortest mantissa exponent).2)
    have hminus : Wordy "-" := ⟨by decide, by decide⟩
    cases negative with
    | true => exact hminus.append h.2
    | false => simpa [doubleText] using h

theorem wordy_doubleLiteral (negative : Bool) (value : Number.Binary64) :
    Wordy (doubleLiteral negative value) := by
  unfold doubleLiteral
  split
  · split
    · exact wordy_intToString _
    · exact wordy_doubleText _ _
  · exact wordy_doubleText _ _

/-- **A number is a word**, with or without a point. -/
theorem wordy_of_number {literal : String} (h : number text = .ok literal) : Wordy literal := by
  simp only [number] at h
  split at h
  · cases hd : Number.double (dropNumberSuffix text) with
    | error fault => simp [hd, Except.map] at h
    | ok value =>
      rw [hd] at h
      cases h
      exact wordy_doubleLiteral _ _
  · cases hw : Number.whole (dropNumberSuffix text) with
    | error fault => simp [hw, Except.map] at h
    | ok value =>
      rw [hw] at h
      cases h
      exact wordy_intToString _

end BasicScript.Script
