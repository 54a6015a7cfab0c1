import BasicScript.Script.Name
import Mathlib.Data.List.Basic

/-!
# When two names are one in JavaScript

A word keeps its spelling in JavaScript, or it is replaced (`Replaced`): a numeric suffix becomes a
tail, and a reserved word gets an underscore.  What replaces a word is a name that keeps its own
spelling (`Settled`).  So two words have one JavaScript name exactly if they are equal or one of
them replaces the other (`mangle_eq_mangle_iff`), and a JavaScript name is never reserved.
-/

namespace BasicScript.Script

open List

variable {word x y : String} {c : Char} {front tail : String}

/-! ### Tails -/

/-- The numeric suffixes with their tails. -/
def tails : List (Char × String) := [('%', "_int"), ('&', "_lng"), ('!', "_sng"), ('#', "_dbl")]

theorem suffixTail?_eq_some_iff : suffixTail? c = some tail ↔ (c, tail) ∈ tails := by
  unfold suffixTail? tails
  constructor
  · intro h
    repeat' split at h
    all_goals first
      | (cases h; simp [*])
      | cases h
  · intro h
    simp only [mem_cons, Prod.mk.injEq, not_mem_nil, or_false] at h
    rcases h with ⟨rfl, rfl⟩ | ⟨rfl, rfl⟩ | ⟨rfl, rfl⟩ | ⟨rfl, rfl⟩ <;> rfl

/-- Tails are of one length, end like no reserved word and with no suffix, and tell the suffix. -/
theorem tails_facts : ∀ p ∈ tails, p.2.toList.length = 4 ∧
    p.2.toList.getLast?.bind suffixTail? = none ∧ p.2.toList.getLast? ≠ some '_' ∧
    (∀ w ∈ reserved, p.2.toList.isSuffixOf w.toList = false) ∧ ∀ q ∈ tails, q.2 = p.2 → q = p := by
  decide +kernel

theorem reserved_facts :
    ∀ w ∈ reserved, w.toList.getLast? ≠ some '_' ∧ w.toList.getLast?.bind suffixTail? = none := by
  decide +kernel

/-! ### Words and what replaces them -/

/-- The name that stands for a word that does not keep its spelling. -/
inductive Replaced : String → String → Prop where
  | suffix {front tail : String} {c : Char} (h : suffixTail? c = some tail) :
      Replaced (front.push c) (front ++ tail)
  | reserved {word : String} (h : word ∈ reserved) : Replaced word (word ++ "_")

/-- A word that keeps its spelling. -/
structure Settled (word : String) : Prop where
  unreserved : word ∉ reserved
  last : ∀ c ∈ word.toList.getLast?, suffixTail? c = none

theorem mangle_of_last (h : ∀ c ∈ word.toList.getLast?, suffixTail? c = none) :
    mangle word = safeName word := by
  unfold mangle
  split
  · rfl
  · rename_i last front hreverse
    have hlast : word.toList.getLast? = some last := by
      rw [getLast?_eq_head?_reverse, hreverse]
      rfl
    rw [h last hlast]

theorem Settled.mangle (h : Settled word) : mangle word = word := by
  rw [mangle_of_last h.last, safeName, if_neg]
  simpa using h.unreserved

theorem Replaced.mangle (h : Replaced word x) : mangle word = x := by
  cases h with
  | suffix htail =>
    unfold Script.mangle
    simp [htail]
  | reserved hword =>
    rw [mangle_of_last (Option.bind_eq_none_iff.1 (reserved_facts word hword).2), safeName, if_pos]
    simpa using hword

theorem settled_or_replaced (word : String) : Settled word ∨ ∃ x, Replaced word x := by
  by_cases hreserved : word ∈ reserved
  · exact .inr ⟨_, .reserved hreserved⟩
  rcases eq_nil_or_concat' word.toList with hnil | ⟨front, c, hconcat⟩
  · exact .inl ⟨hreserved, by simp [hnil]⟩
  cases htail : suffixTail? c with
  | none => exact .inl ⟨hreserved, by simpa [hconcat] using htail⟩
  | some tail =>
    obtain rfl : word = (String.ofList front).push c := by
      rw [← String.toList_inj, hconcat]
      simp
    exact .inr ⟨_, .suffix htail⟩

/-- What replaces a word keeps its spelling. -/
theorem Replaced.settled (h : Replaced word x) : Settled x := by
  cases h with
  | @suffix front tail c htail =>
    obtain ⟨hlength, hlast, -, hreserved, -⟩ := tails_facts _ (suffixTail?_eq_some_iff.1 htail)
    have hne : tail.toList ≠ [] := ne_nil_of_length_pos (by simp [hlength])
    refine ⟨fun hmem => ?_, ?_⟩
    · have hends : tail.toList.isSuffixOf (front ++ tail).toList = true := by simp
      rw [hreserved _ hmem] at hends
      cases hends
    · rw [String.toList_append, getLast?_append_of_ne_nil _ hne]
      exact Option.bind_eq_none_iff.1 hlast
  | reserved hword =>
    refine ⟨fun hmem => (reserved_facts _ hmem).1 (by simp), ?_⟩
    rw [String.toList_append, getLast?_append_of_ne_nil _ (by decide)]
    exact Option.bind_eq_none_iff.1 (by decide)

/-- A name replaces one word at most. -/
theorem Replaced.word_eq (hx : Replaced word x) (hy : Replaced y x) : word = y := by
  -- A tail ends in a letter, so it is not taken for the underscore behind a reserved word.
  have hapart {front tail w : String} {c : Char} (htail : suffixTail? c = some tail)
      (heq : front ++ tail = w ++ "_") : False := by
    obtain ⟨hlength, -, hlast, -⟩ := tails_facts _ (suffixTail?_eq_some_iff.1 htail)
    have hne : tail.toList ≠ [] := ne_nil_of_length_pos (by simp [hlength])
    have hends := congrArg (fun s : String => s.toList.getLast?) heq
    simp only [String.toList_append, getLast?_append_of_ne_nil _ hne] at hends
    exact hlast (hends.trans (by simp))
  generalize hname : x = name at hy
  cases hx with
  | @suffix front tail c htail =>
    cases hy with
    | @suffix front' tail' c' htail' =>
      obtain ⟨hlength, -, -, -, hinjective⟩ := tails_facts _ (suffixTail?_eq_some_iff.1 htail)
      obtain ⟨hlength', -⟩ := tails_facts _ (suffixTail?_eq_some_iff.1 htail')
      have hlists := congrArg String.toList hname
      rw [String.toList_append, String.toList_append] at hlists
      obtain ⟨hfront, htails⟩ := append_inj' hlists (hlength.trans hlength'.symm)
      obtain rfl := String.toList_inj.1 hfront
      obtain rfl := String.toList_inj.1 htails
      cases hinjective _ (suffixTail?_eq_some_iff.1 htail') rfl
      rfl
    | reserved hword => exact (hapart htail hname).elim
  | reserved hword =>
    cases hy with
    | suffix htail => exact (hapart htail hname.symm).elim
    | reserved hword' => exact String.append_left_inj _ |>.1 hname

/-! ### JavaScript names -/

/-- A JavaScript name keeps its spelling. -/
theorem settled_mangle (word : String) : Settled (mangle word) := by
  rcases settled_or_replaced word with h | ⟨x, h⟩
  · rwa [h.mangle]
  · rw [h.mangle]
    exact h.settled

/-- The words with a JavaScript name: the name itself, if it keeps its spelling, and the word that
it replaces. -/
theorem mangle_eq_iff : mangle word = x ↔ Replaced word x ∨ word = x ∧ Settled x := by
  constructor
  · rintro rfl
    rcases settled_or_replaced word with h | ⟨x, h⟩
    · exact .inr ⟨h.mangle.symm, settled_mangle word⟩
    · exact .inl (h.mangle.symm ▸ h)
  · rintro (h | ⟨rfl, h⟩)
    · exact h.mangle
    · exact h.mangle

/-- **Two words have one JavaScript name** if and only if they are equal or one of them replaces the
other. -/
theorem mangle_eq_mangle_iff (a b : String) :
    mangle a = mangle b ↔ a = b ∨ Replaced a b ∨ Replaced b a := by
  constructor
  · intro h
    rcases mangle_eq_iff.1 h with ha | ⟨ha, -⟩ <;>
      rcases mangle_eq_iff.1 (rfl : mangle b = mangle b) with hb | ⟨hb, -⟩
    · exact .inl (ha.word_eq hb)
    · exact .inr (.inl (hb ▸ ha))
    · exact .inr (.inr (ha ▸ hb))
    · exact .inl (ha.trans hb.symm)
  · rintro (rfl | h | h)
    · rfl
    · rw [h.mangle, h.settled.mangle]
    · rw [h.mangle, h.settled.mangle]

end BasicScript.Script
