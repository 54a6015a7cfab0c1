import BasicScript.Proofs.Operand

/-!
# Calls of builtins

A builtin is called by its name, with members, or by a script in parentheses.  Every script closes
what it opens and every name is one of JavaScript (`template_facts`), so a call of a builtin is a
reference (`reference_of_builtin?`).
-/

namespace BasicScript

open Script List

/-- The characters of a text. -/
def Spelt (text : String) (chars : List Char) : Prop := text.toList = chars

namespace Spelt

theorem lit (chars : List Char) : Spelt (String.ofList chars) chars := String.toList_ofList

theorem append {front back : String} {chars chars' : List Char} (h : Spelt front chars)
    (h' : Spelt back chars') : Spelt (front ++ back) (chars ++ chars') := by
  rw [Spelt, String.toList_append, h, h']

end Spelt

/-! ### Names with members -/

/-- Whether characters are names with points between them; `fresh` says that a name must begin. -/
def isPath (fresh : Bool) : List Char → Bool
  | [] => !fresh
  | c :: rest =>
    if fresh then isNameStart c && isPath false rest
    else if c = '.' then isPath true rest
    else isNameChar c && isPath false rest

/-- What can stand behind `pre` are names, with their members. -/
theorem reference_of_isPath {Name : String → Prop} {fresh : Bool}
    {rest : List Char} (pre head : List Char) (h : isPath fresh rest = true)
    (hpre : ∀ x : List Char, isIdentifier (String.ofList x) = true →
      Reference Name (String.ofList (pre ++ x)))
    (hhead : if fresh then head = [] else isIdentifier (String.ofList head) = true) :
    Reference Name (String.ofList (pre ++ head ++ rest)) := by
  induction rest generalizing fresh pre head with
  | nil =>
    cases fresh with
    | true => cases h
    | false => simpa using hpre head hhead
  | cons c rest ih =>
    unfold isPath at h
    cases fresh with
    | true =>
      simp only [if_true, Bool.and_eq_true] at h hhead
      subst hhead
      have hnext := ih pre [c] h.2 hpre (by simp [isIdentifier, h.1])
      simpa using hnext
    | false =>
      simp only [Bool.false_eq_true, if_false] at h hhead
      split at h
      · rename_i hpoint
        subst hpoint
        have hnext := ih (pre ++ head ++ ['.']) [] h (fun x hx => ?_) rfl
        · simpa using hnext
        · have hmember := Reference.member (hpre head hhead) hx
          rwa [show "." = String.ofList ['.'] from rfl, ← String.ofList_append,
            ← String.ofList_append] at hmember
      · rw [Bool.and_eq_true] at h
        have hnext := ih pre (head ++ [c]) h.2 hpre ?_
        · simpa using hnext
        · cases head with
          | nil => cases hhead
          | cons first more =>
            rw [isIdentifier_ofList, Bool.and_eq_true] at hhead
            simp [isIdentifier, hhead, h.1]

/-! ### Templates -/

/-- What a template looks like: it closes what it opens, and if it is plain it is a name with its
members. -/
def fitsTemplate (chars : List Char) : Bool :=
  Reader.loosely.read chars = some .loosely && !chars.isEmpty &&
    (isPath true chars || !chars.all fun c => Text.isAlphanumeric c || c =
      '_' || c = '.' || c = '$')

theorem Spelt.fitsTemplate {text : String} {chars : List Char} (h : Spelt text chars)
    (hfits : fitsTemplate chars = true) : BasicScript.fitsTemplate text.toList = true := by
  rwa [h]

theorem template_facts :
    ∀ row ∈ Vocabulary.builtinRows, fitsTemplate row.template.toList = true := by
  unfold Vocabulary.builtinRows
  repeat' refine forall_mem_append.2 ⟨?_, ?_⟩
  all_goals
    repeat' first
      | exact forall_mem_nil _
      | refine forall_mem_cons.2 ⟨?_, ?_⟩
  -- a script is one text, or some texts one after another
  all_goals
    apply Spelt.fitsTemplate
    · with_reducible
        repeat' first
          | exact Spelt.lit _
          | apply Spelt.append
          | unfold Vocabulary.roundHalfEven
          | unfold Vocabulary.secondsOfDay
    · decide +kernel

/-- A builtin is called by a name, or by its script in parentheses. -/
theorem reference_callee {Name : String → Prop}
    (hname : ∀ x, isIdentifier x = true → Name x) {row : Builtin}
    (h : row ∈ Vocabulary.builtinRows) : Reference Name row.callee := by
  have hfits := template_facts row h
  simp only [fitsTemplate, Bool.and_eq_true, Bool.not_eq_true', Bool.or_eq_true,
    decide_eq_true_eq] at hfits
  obtain ⟨⟨hread, hne⟩, hpath⟩ := hfits
  unfold Builtin.callee
  split
  · rename_i hplain
    rw [Builtin.isPlainCallee, Bool.and_eq_true] at hplain
    have hpath : isPath true row.template.toList = true := hpath.resolve_right (by simp [hplain.1])
    have hreference := reference_of_isPath [] [] hpath (fun x hx => .identifier hx hname) rfl
    simpa using hreference
  · exact .group hread (by simpa using hne)

theorem reference_of_builtin? {Name : String → Prop}
    (hname : ∀ x, isIdentifier x = true → Name x) {name : String} {b : Builtin}
    (h : Vocabulary.builtin? name = some b) : Reference Name b.callee := by
  obtain ⟨front, back, hrows, -⟩ := lookup_eq_some_iff.1 h
  have hmem : (Text.upper name, b) ∈ Vocabulary.builtins := by simp [hrows]
  obtain ⟨row, hrow, he⟩ := mem_map.1 hmem
  obtain ⟨-, rfl⟩ := Prod.mk.inj he
  exact reference_callee hname hrow

end BasicScript
