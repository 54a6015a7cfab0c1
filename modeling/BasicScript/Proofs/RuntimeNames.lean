import BasicScript.Proofs.NameClash
import BasicScript.Proofs.ValidNames

/-!
# Names that programs have for themselves

The lines in front of a body declare what the body calls; operators, statements and builtin
functions call globals of JavaScript; and statements count temporary names.  A variable of the
source that has one of these names hides it.  Reserved words are kept out, and so are the names that
are keywords in capital letters, but those are only some of them.

* `Target.fixedNames`: the names that programs for a target have for themselves.
* `Script.OwnSpelling`: a name that a source can declare in one way only, by spelling it.
* `fixed_name_declared_iff`: a fixed or temporary name is declared, by a source that nothing is
  reported of, exactly if it is free.
-/

namespace BasicScript

open Emit List

open Lexer (isLetter isWordChar isWordSuffix isDigit scan)

variable {tape : Tape} {key w x : String} {text : List Char} {target : Target}

/-! ### Needed names -/

namespace Script

/-- The name at the front of a text. -/
def leadingName (text : List Char) : List Char := text.takeWhile isNameChar

/-- What stands in front of the one name that a line declares. -/
def declarators : List String := ["const ", "function ", "async function "]

/-- The names that a line declares outside of all braces, by its characters. -/
def namesAt (text : List Char) : List (List Char) :=
  if "let ".toList.isPrefixOf text then
    ((text.drop 4).splitOn ',').map fun part => leadingName (part.dropWhile (· = ' '))
  else
    (declarators.filter fun d => d.toList.isPrefixOf text).map fun d =>
      leadingName (text.drop d.toList.length)

/-- The names that a line of a program declares outside of all braces. -/
def topLevelNames (line : String) : List String := (namesAt line.toList).map String.ofList

/-- The globals of JavaScript that operators and statements call. -/
def calledGlobals : List String := ["Boolean", "Error", "Math", "Number", "String", "undefined"]

/-- The names that an expression calls, by its characters: of what stands in front of a parenthesis,
or at the end, the part in front of the first point. -/
def callsIn (text : List Char) : List (List Char) :=
  let callees := (text.splitOn '(').map fun part =>
    (part.reverse.takeWhile fun c => isNameChar c || c = '.').reverse
  (callees.map leadingName).filter fun name => name.head?.any isNameStart

/-- The names that the builtin functions call. -/
def builtinNames : List String :=
  (Vocabulary.builtinRows.map (·.template)).flatMap fun template =>
    (callsIn template.toList).map String.ofList

/-- The stems of temporary names. -/
def temporaryStems : List String := ["_select_", "_fields_", "_on_"]

/-- A temporary name that a statement gets in some state. -/
def IsTemporary (x : String) : Prop :=
  ∃ stem ∈ temporaryStems, ∃ tokens s s', Gives tokens s (temporary stem) x s'

/-- A name that is neither reserved nor, in capital letters, a keyword. -/
def isFree (x : String) : Bool :=
  !reserved.contains x && !Vocabulary.keywords.contains (Text.upper x)

end Script

open Script

namespace Target

/-- The names that the lines in front of a body declare. -/
def runtimeNames (target : Target) (values : List String) : List String :=
  (target.preamble values).flatMap topLevelNames

/-- The names that programs for a target have for themselves, however their sources are written. -/
def fixedNames (target : Target) (values : List String) : List String :=
  target.runtimeNames values ++ (reserved ++ (calledGlobals ++ builtinNames))

end Target

/-! ### Names with one spelling -/

/-- The ends of names that replace words. -/
def Script.replacementEnds : List String := "_" :: tails.map (·.2)

/-- A name that no other word gives, and that a source can spell if it is free.  If it is a keyword,
then its shape shows that no other words give it either. -/
structure Script.OwnSpelling (x : String) : Prop where
  ends : ∀ e ∈ replacementEnds, ¬e.toList <:+ x.toList
  last : ∀ c ∈ x.toList.getLast?, suffixTail? c = none
  keyword : Vocabulary.keywords.contains (Text.upper x) = true →
    '_' ∉ x.toList.tail ∧ "FN".toList.isPrefixOf x.toList = false
  ordinary : isFree x = true → (Token.named x).Ordinary

theorem Script.isFree_iff :
    isFree x = true ↔ x ∉ reserved ∧ Vocabulary.keywords.contains (Text.upper x) = false := by
  simp [isFree]

theorem Script.Replaced.ends (h : Replaced w x) : ∃ e ∈ replacementEnds, e.toList <:+ x.toList := by
  cases h with
  | suffix htail =>
    refine ⟨_, .tail _ (mem_map_of_mem (suffixTail?_eq_some_iff.1 htail)), ?_⟩
    rw [String.toList_append]
    exact suffix_append ..
  | reserved hword => exact ⟨_, .head _, by rw [String.toList_append]; exact suffix_append ..⟩

/-- What is declared under a name with one spelling is spelled so, and the name is free. -/
theorem Tape.Words.free (h : tape.Words key w) (hx : mangle w = x) (hown : OwnSpelling x) :
    isFree x = true ∧ w = x := by
  constructor
  · rw [isFree_iff, ← Bool.not_eq_true]
    refine ⟨hx ▸ (settled_mangle w).unreserved, fun hkeyword => ?_⟩
    obtain ⟨hinside, hfunction⟩ := hown.keyword hkeyword
    obtain ⟨token, htoken, htext⟩ := h.spelled hx hinside hfunction
    rw [← htext, htoken.unknown] at hkeyword
    cases hkeyword
  · rcases mangle_eq_iff.1 hx with hreplaced | ⟨rfl, -⟩
    · obtain ⟨e, he, hends⟩ := hreplaced.ends
      exact (hown.ends e he hends).elim
    · rfl

theorem Scopes.Gives.mem_declaredNames {s : State} (h : s.scopes.Gives key x) :
    x ∈ s.declaredNames := by
  have hcell {ref : Ref} {v : Variable} (hv : s.scopes.cell? ref = some v) :
      v.name ∈ s.declaredNames :=
    mem_append_left _ (mem_map_of_mem (Array.mem_toList_iff.2 (Array.mem_of_getElem? hv)))
  cases h with
  | visible h =>
    obtain ⟨ref, -, hv⟩ := Option.bind_eq_some_iff.1 h
    exact hcell hv
  | bound _ _ hv => exact hcell hv
  | declaration hds hd =>
    refine mem_append_right _ (mem_append_left _ (mem_map_of_mem ?_))
    exact mem_map_of_mem (mem_flatten.2 ⟨_, hds, hd⟩)

/-- A free name with one spelling is declared by a source that nothing is reported of. -/
theorem Script.OwnSpelling.exists_declares (hown : OwnSpelling x) (hfree : isFree x = true) :
    ∃ source s, (scan source).fault = none ∧ pass (scan source).tokens.toArray {} = .ok () s ∧
      ¬HasError s.collector.toList ∧ x ∈ s.declaredNames := by
  obtain ⟨source, s, hread, hpass, hcollector, hgives⟩ :=
    exists_pass_of_words [x] (by simpa using hown.ordinary hfree) (by simp)
  have hgiven := (hgives x (by simp)).mem_declaredNames
  rw [Settled.mangle ⟨(isFree_iff.1 hfree).1, hown.last⟩] at hgiven
  exact ⟨source, s, hread, hpass, by simp [hcollector, HasError], hgiven⟩

theorem Script.isFree_ofList : isFree (String.ofList text) = true ↔
    text ∉ reservedLetters.1 ∧ Vocabulary.capital text ∉ Vocabulary.keywordLetters.1 := by
  rw [isFree_iff, reservedLetters.mem_iff, ← Bool.not_eq_true, Vocabulary.contains_upper_ofList]

/-- A name of word characters without the end of a replacement has one spelling, unless it could be
a keyword with points in it or a builtin function. -/
theorem Script.ownSpelling_ofList (hfirst : text.head?.any isLetter = true)
    (hrest : ∀ c ∈ text.tail, isWordChar c = true)
    (hends : ∀ e ∈ replacementEnds, ¬e.toList <:+ text)
    (hkeyword : Vocabulary.capital text ∈ Vocabulary.keywordLetters.1 →
      '_' ∉ text.tail ∧ "FN".toList.isPrefixOf text = false)
    (hbuiltin : Vocabulary.capital text ∈ Vocabulary.builtinLetters.1 →
      Vocabulary.capital text ∈ Vocabulary.keywordLetters.1 ∨ text ∈ reservedLetters.1) :
    OwnSpelling (String.ofList text) := by
  obtain _ | ⟨first, body⟩ := text
  · cases hfirst
  · have hchars : ∀ c ∈ first :: body, suffixTail? c = none :=
      forall_mem_cons.2 ⟨(letter_facts hfirst).2,
        fun c hc => suffixTail?_of_isWordChar (hrest c hc)⟩
    refine ⟨?_, ?_, ?_, fun hfree => ?_⟩
    · rwa [String.toList_ofList]
    · rw [String.toList_ofList]
      exact fun c hc => hchars c (mem_of_getLast? hc)
    · rwa [Vocabulary.contains_upper_ofList, String.toList_ofList]
    · have hword : Word (String.ofList (first :: body)).toList :=
        ⟨first, body, [], by simp, hfirst, hrest, .inl rfl⟩
      obtain ⟨hunreserved, hunknown⟩ := isFree_ofList.1 hfree
      have hnone := Vocabulary.builtin?_ofList fun h => (hbuiltin h).elim hunknown hunreserved
      exact ⟨⟨hword, (isFree_iff.1 hfree).2⟩, ⟨fun _ => hnone, nofun⟩⟩

/-! ### Temporary names -/

/-- No keyword and no builtin function begins like a temporary name in capital letters. -/
theorem Script.not_stem_prefix : ∀ stem ∈ temporaryStems,
    ∀ text ∈ Vocabulary.keywordLetters.1 ++ Vocabulary.builtinLetters.1,
      ¬Vocabulary.capital stem.toList <+: text := by
  decide +kernel

theorem Script.IsTemporary.exists_number (h : IsTemporary x) :
    ∃ stem ∈ temporaryStems, ∃ n : Nat, x = stem ++ toString n := by
  obtain ⟨stem, hstem, tokens, s, s', hgives⟩ := h
  cases hgives
  exact ⟨stem, hstem, _, rfl⟩

theorem Script.IsTemporary.ownSpelling (h : IsTemporary x) : OwnSpelling x := by
  obtain ⟨stem, hstem, n, rfl⟩ := h.exists_number
  have hstems : ∀ stem ∈ temporaryStems, stem.toList.head?.any isLetter = true ∧
      stem.toList.tail.all isWordChar = true := by decide
  obtain ⟨hfirst, hrest⟩ := hstems stem hstem
  have hdigits := Lexer.isDigit_natToString n
  have htext : (stem ++ toString n).toList = stem.toList ++ (toString n).toList :=
    String.toList_append
  have hunknown : Vocabulary.capital (stem ++ toString n).toList ∉
      Vocabulary.keywordLetters.1 ++ Vocabulary.builtinLetters.1 := by
    refine fun hmem => not_stem_prefix stem hstem _ hmem ?_
    rw [htext, Vocabulary.capital, Vocabulary.capital, flatMap_append]
    exact prefix_append ..
  have hne : stem.toList ≠ [] := by
    rintro hnil
    rw [hnil] at hfirst
    cases hfirst
  rw [← String.ofList_toList (s := stem ++ toString n)]
  refine ownSpelling_ofList ?_ ?_ ?_ ?_ ?_
  · rwa [htext, head?_append_of_ne_nil _ hne]
  · rw [htext, tail_append_of_ne_nil hne]
    refine forall_mem_append.2 ⟨all_eq_true.1 hrest, fun c hc => ?_⟩
    simp [isWordChar, hdigits c hc]
  · -- The name ends with a digit, a replacement with an underscore or a letter.
    have hall : ∀ e ∈ replacementEnds, e.toList.getLast?.any (! isDigit ·) = true := by decide
    rintro e he ⟨front, hfront⟩
    obtain ⟨c, hlast, hletter⟩ := (Option.any_eq_true _ _).1 (hall e he)
    have hc : c ∈ (toString n).toList.getLast? := by
      rw [← getLast?_append_of_ne_nil stem.toList (by simp), ← htext, ← hfront]
      exact mem_getLast?_append_of_mem_getLast? hlast
    rw [hdigits c (mem_of_getLast? hc)] at hletter
    cases hletter
  · exact fun hmem => (hunknown (mem_append_left _ hmem)).elim
  · exact fun hmem => (hunknown (mem_append_right _ hmem)).elim

/-! ### Fixed names -/

namespace Script

/-- A check by the characters that a name has one spelling. -/
def looksOwn (text : List Char) : Bool :=
  text.head?.any isLetter && text.tail.all isWordChar &&
    (replacementEnds.all fun e => !e.toList.isSuffixOf text) &&
    (!text.tail.contains '_' && !"FN".toList.isPrefixOf text ||
      !Vocabulary.keywordLetters.1.contains (Vocabulary.capital text)) &&
    (!Vocabulary.builtinLetters.1.contains (Vocabulary.capital text) ||
      (Vocabulary.keywordLetters.1.contains (Vocabulary.capital text) ||
        reservedLetters.1.contains text))

theorem ownSpelling_of_looks (h : looksOwn text = true) : OwnSpelling (String.ofList text) := by
  simp only [looksOwn, Bool.and_eq_true, Bool.or_eq_true, Bool.not_eq_true',
    all_eq_true, contains_eq_mem, decide_eq_true_eq, decide_eq_false_iff_not] at h
  obtain ⟨⟨⟨⟨hfirst, hrest⟩, hends⟩, hkeyword⟩, hbuiltin⟩ := h
  refine ownSpelling_ofList hfirst hrest (fun e he hsuffix => ?_)
    (fun h => hkeyword.resolve_right (not_not_intro h))
    fun h => hbuiltin.resolve_left (not_not_intro h)
  rw [← isSuffixOf_iff_suffix, hends e he] at hsuffix
  cases hsuffix

def nodeLetters : Letters nodeLines := by
  apply Subtype.mk
  case property =>
    unfold nodeLines
    repeat' first | apply letters_cons | apply letters_join
    all_goals first | exact map_nil.symm | exact rfl

def webLetters : Letters webLines := by
  apply Subtype.mk
  case property =>
    unfold webLines
    repeat' first | apply letters_cons | apply letters_join
    all_goals first | exact map_nil.symm | exact rfl

def commonLetters : Letters commonLines := by
  apply Subtype.mk
  case property =>
    unfold commonLines
    repeat' first | apply letters_cons | apply letters_join
    all_goals first | exact map_nil.symm | exact rfl

end Script

namespace Target

def runtimeLetters : (target : Target) → Letters target.runtimeLines
  | node => nodeLetters
  | web => webLetters

theorem topLevelNames_data (rest : String) :
    topLevelNames ("const _DATA = [" ++ rest) = ["_DATA"] := by
  unfold topLevelNames
  rewrite [String.toList_append]
  rfl

theorem topLevelNames_dataLine (values : List String) :
    topLevelNames (dataLine values) = ["_DATA"] := by
  unfold dataLine
  rewrite [String.append_assoc]
  exact topLevelNames_data _

/-- The names in the lines of a preamble, where the first and the last lines have none. -/
theorem flatMap_framed {names : String → List String} {header runtime common opening : List String}
    {data pointer : String} (hheader : header.flatMap names = [])
    (hopening : opening.flatMap names = []) (hblank : names "" = []) :
    (header ++ [""] ++ runtime ++ [""] ++ [data, pointer, ""] ++ common ++ [""] ++ opening).flatMap
        names =
      runtime.flatMap names ++ (names data ++ (names pointer ++ common.flatMap names)) := by
  simp [hheader, hopening, hblank]

/-- The data of a program do not show in the names. -/
theorem runtimeNames_eq (target : Target) (values : List String) :
    target.runtimeNames values = target.runtimeLines.flatMap topLevelNames ++
      (["_DATA"] ++ (["_DATA_PTR"] ++ commonLines.flatMap topLevelNames)) := by
  have hheader : headerLines.flatMap topLevelNames = [] := by decide +kernel
  have hopening : bodyOpening.flatMap topLevelNames = [] := by decide +kernel
  have hblank : topLevelNames "" = [] := by decide +kernel
  have hpointer : topLevelNames "let _DATA_PTR = 0;" = ["_DATA_PTR"] := by decide +kernel
  rw [← topLevelNames_dataLine values, ← hpointer]
  exact flatMap_framed hheader hopening hblank

theorem mem_runtimeNames (values : List String)
    (h : text ∈ (target.runtimeLetters.flatMap namesAt).1) :
    String.ofList text ∈ target.runtimeNames values := by
  rw [runtimeNames_eq]
  exact mem_append_left _ ((target.runtimeLetters.flatMap namesAt).mem_iff.2 h)

end Target

theorem Letters.ownSpelling {words : List String} (letters : Letters words)
    (h : letters.1.all looksOwn = true) : ∀ x ∈ words, OwnSpelling x :=
  letters.forall_mem fun text htext => ownSpelling_of_looks (all_eq_true.1 h text htext)

/-- Every name in the texts of programs looks as if it had one spelling.  Most templates call the
same few names. -/
theorem Script.all_looksOwn : (Target.node.runtimeLetters.flatMap namesAt).1.all looksOwn = true ∧
    (Target.web.runtimeLetters.flatMap namesAt).1.all looksOwn = true ∧
    (commonLetters.flatMap namesAt).1.all looksOwn = true ∧
    (Vocabulary.templateLetters.flatMap callsIn).1.eraseDups.all looksOwn = true ∧
    ∀ x ∈ ["_DATA"] ++ (["_DATA_PTR"] ++ calledGlobals), looksOwn x.toList = true := by
  decide +kernel

theorem Target.ownSpelling_of_runtimeLines (h : x ∈ target.runtimeLines.flatMap topLevelNames) :
    OwnSpelling x := by
  obtain ⟨hnode, hweb, -⟩ := all_looksOwn
  have hlooks : (target.runtimeLetters.flatMap namesAt).1.all looksOwn = true := by
    cases target with
    | node => exact hnode
    | web => exact hweb
  exact (target.runtimeLetters.flatMap namesAt).ownSpelling hlooks x h

theorem Script.ownSpelling_of_commonLines (h : x ∈ commonLines.flatMap topLevelNames) :
    OwnSpelling x := by
  obtain ⟨-, -, hlooks, -⟩ := all_looksOwn
  exact (commonLetters.flatMap namesAt).ownSpelling hlooks x h

theorem Script.ownSpelling_of_builtinNames (h : x ∈ builtinNames) : OwnSpelling x := by
  obtain ⟨-, -, -, hlooks, -⟩ := all_looksOwn
  refine (Vocabulary.templateLetters.flatMap callsIn).forall_mem
    (fun text htext => ownSpelling_of_looks ?_) x h
  exact all_eq_true.1 hlooks text (mem_eraseDups.2 htext)

/-- The names that programs have for themselves are reserved or have one spelling. -/
theorem Target.reserved_or_ownSpelling {values : List String} (h : x ∈ target.fixedNames values) :
    x ∈ reserved ∨ OwnSpelling x := by
  have hown (hx : x ∈ ["_DATA"] ++ (["_DATA_PTR"] ++ calledGlobals)) : OwnSpelling x := by
    obtain ⟨-, -, -, -, hlooks⟩ := all_looksOwn
    rw [← String.ofList_toList (s := x)]
    exact ownSpelling_of_looks (hlooks x hx)
  rw [fixedNames, runtimeNames_eq] at h
  simp only [mem_append] at h hown
  rcases h with (h | h | h | h) | h | h | h
  · exact .inr (ownSpelling_of_runtimeLines h)
  · exact .inr (hown (.inl h))
  · exact .inr (hown (.inr (.inl h)))
  · exact .inr (ownSpelling_of_commonLines h)
  · exact .inl h
  · exact .inr (hown (.inr (.inr h)))
  · exact .inr (ownSpelling_of_builtinNames h)

/-! ### Which fixed names are declared -/

/-- **Fixed names.**  Wherever a statement of a source can begin, and at the end of the pass, a
declared name that programs have for themselves, or that is a temporary name of any number, is
spelled like this in the source, and it is free.  Each free one of these names is declared by a
source that nothing is reported of. -/
theorem fixed_name_declared_iff (target : Target) (values : List String) (x : String)
    (hx : x ∈ target.fixedNames values ∨ IsTemporary x) :
    (∀ source (hread : (scan source).fault = none) collector s,
      Observed (scan source).tokens.toArray collector s → x ∈ s.declaredNames →
        isFree x = true ∧ ∃ key, (Tape.ofSource source hread).Words key x) ∧
    (isFree x = true → ∃ source s, (scan source).fault = none ∧
      pass (scan source).tokens.toArray {} = .ok () s ∧
      ¬HasError s.collector.toList ∧ x ∈ s.declaredNames) := by
  have hspelling : x ∈ reserved ∨ OwnSpelling x :=
    hx.elim Target.reserved_or_ownSpelling fun h => .inr h.ownSpelling
  constructor
  · intro source hread collector s hobserved hmem
    obtain ⟨s₀, page, hvisited, rfl⟩ := hobserved.exists_visited hread
    obtain ⟨key, word, hword, hname⟩ := hvisited.calls hmem
    rcases hspelling with hreserved | hown
    · exact ((settled_mangle word).unreserved (hname ▸ hreserved)).elim
    · obtain ⟨hfree, rfl⟩ := hword.free hname.symm hown
      exact ⟨hfree, key, hword⟩
  · intro hfree
    rcases hspelling with hreserved | hown
    · exact ((isFree_iff.1 hfree).1 hreserved).elim
    · exact hown.exists_declares hfree

/-- The function that prints and a temporary name can be declared by sources, the function that
waits cannot. -/
theorem print_declared_limit_kept :
    "_print" ∈ Target.node.fixedNames [] ∧ IsTemporary "_select_1" ∧
      "_limit" ∈ Target.node.fixedNames [] ∧
    (∃ source s, (scan source).fault = none ∧ pass (scan source).tokens.toArray {} = .ok () s ∧
      ¬HasError s.collector.toList ∧ "_print" ∈ s.declaredNames) ∧
    (∃ source s, (scan source).fault = none ∧ pass (scan source).tokens.toArray {} = .ok () s ∧
      ¬HasError s.collector.toList ∧ "_select_1" ∈ s.declaredNames) ∧
    ∀ source, (scan source).fault = none → ∀ collector s,
      Observed (scan source).tokens.toArray collector s → "_limit" ∉ s.declaredNames := by
  have hprint : "_print" ∈ Target.node.fixedNames [] :=
    mem_append_left _ (Target.mem_runtimeNames [] (by decide +kernel))
  have hlimit : "_limit" ∈ Target.node.fixedNames [] :=
    mem_append_left _ (Target.mem_runtimeNames [] (by decide +kernel))
  have htemporary : IsTemporary "_select_1" := ⟨"_select_", .head _, #[], {}, _, rfl⟩
  have hfree : isFree "_print" = true ∧ isFree "_select_1" = true ∧ isFree "_limit" = false := by
    decide +kernel
  refine ⟨hprint, htemporary, hlimit,
    (fixed_name_declared_iff .node [] "_print" (.inl hprint)).2 hfree.1,
    (fixed_name_declared_iff .node [] "_select_1" (.inr htemporary)).2 hfree.2.1, ?_⟩
  intro source hread collector s hobserved hmem
  have hdeclared := (fixed_name_declared_iff .node [] "_limit" (.inl hlimit)).1 source hread
    collector s hobserved hmem
  rw [hfree.2.2] at hdeclared
  cases hdeclared.1

/-- A variable that is called like the function that prints it. -/
def printVariable : String := "_print = 1\nPRINT _print"

/-- Without any report, a variable hides the function that prints it. -/
theorem variable_hides_print :
    ∃ s, (scan printVariable).fault = none ∧
      pass (scan printVariable).tokens.toArray {} = .ok () s ∧
      ¬HasError s.collector.toList ∧ "_print" ∈ s.declaredNames ∧
      (∀ target : Target, "_print" ∈ target.runtimeNames []) ∧
      s.page.render indentUnit = ["  let _print = 1;", "  _print(_print, true);"] := by
  have hdeclares : ending? printVariable State.declares =
      some (["_print", "_print"], [], ["  let _print = 1;", "  _print(_print, true);"], true) :=
        by decide +kernel
  obtain ⟨s, hread, hpass, hs⟩ := pass_of_ending? hdeclares
  simp only [State.declares, Prod.mk.injEq, decide_eq_true_eq] at hs
  obtain ⟨hnames, -, hlines, herrors⟩ := hs
  refine ⟨s, hread, hpass, herrors, by simp [hnames], fun target => ?_, hlines⟩
  cases target with
  | node => exact Target.mem_runtimeNames [] (by decide +kernel)
  | web => exact Target.mem_runtimeNames [] (by decide +kernel)

end BasicScript
