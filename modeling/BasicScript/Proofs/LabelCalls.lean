import BasicScript.Proofs.LineReading
import BasicScript.Proofs.Target

/-!
# Calls of one label among several

`ON` with a value and `GOSUB` calls one of the labels that follow, the one whose number the value
is.  The emitted line has an array of functions and tests the value against the number of labels.  A
label that is a line number has no function, so it is left out of the array, but it is counted in
the test: all functions behind it are one place too early.

* `choices_aligned_iff`: the line for any list of labels; each label has its function in its own
  place of the array, as many as the test lets pass, if and only if no label is a line number.
* `choice_of_next_label`: a line number in front of a name.
-/

namespace BasicScript

open Emit List

variable {tokens : Array Token} {s s₁ : State} {label next : Token} {rest labels : List Token}

/-! ### Lists of labels -/

/-- Labels with commas between them. -/
def listed : List Token → List Token
  | [] => []
  | [label] => [label]
  | label :: rest => label :: .mark "," :: listed rest

theorem length_le_listed : ∀ labels : List Token, labels.length ≤ (listed labels).length
  | [] | [_] => Nat.le_refl _
  | label :: other :: rest => by
    have ih := length_le_listed (other :: rest)
    simp only [listed, length_cons] at ih ⊢
    omega

theorem mem_listed : ∀ {labels : List Token}, label ∈ labels → label ∈ listed labels
  | [_], h => h
  | _ :: _ :: _, h => by
    rcases mem_cons.1 h with rfl | h
    · exact mem_cons_self
    · exact mem_cons_of_mem _ (mem_cons_of_mem _ (mem_listed h))

/-- The function of a label.  A line number has none. -/
def labelFunction? (label : Token) : Option String :=
  if label.kind = .identifier then some (Script.mangle label.text) else none

theorem labelFunctions_eq_filterMap (labels : List Token) :
    labelFunctions labels = labels.filterMap labelFunction? := by
  induction labels with
  | nil => rfl
  | cons label rest ih =>
    rw [labelFunctions] at ih
    by_cases hkind : label.kind = .identifier <;> simp [labelFunctions, labelFunction?, hkind, ih]

theorem labelFunctions_bare (labels : List Token) :
    labelFunctions (labels.map Token.bare) = labelFunctions labels := by
  rw [labelFunctions_eq_filterMap, labelFunctions_eq_filterMap, filterMap_map]
  rfl

/-- **Each label has its function in its place** if and only if all of them are names. -/
theorem labelFunctions_aligned_iff (labels : List Token) :
    ((labelFunctions labels).length = labels.length ∧
        ∀ (k : Nat) (label : Token), labels[k]? = some label →
        (labelFunctions labels)[k]? = labelFunction? label) ↔
      ∀ label ∈ labels, label.kind = .identifier := by
  constructor
  · rintro ⟨hlength, -⟩ label hlabel
    rw [labelFunctions, length_map, length_filter_eq_length_iff] at hlength
    simpa using hlength label hlabel
  · intro hall
    have hfilter : labels.filter (·.kind = .identifier) = labels :=
      filter_eq_self.2 fun label hlabel => decide_eq_true (hall label hlabel)
    rw [labelFunctions, hfilter]
    refine ⟨length_map _, fun k label hlabel => ?_⟩
    rw [getElem?_map, hlabel, Option.map_some, labelFunction?,
      if_pos (hall label (mem_of_getElem? hlabel))]

/-! ### Reading the labels -/

theorem labelAfter_gives (keyword : String)
    (hahead : Ahead tokens s.position (label :: rest)) (hlabel : label.isLabel = true) :
    ∃ t, t.bare = label ∧ Gives tokens s (labelAfter keyword) t (s.moved 1) := by
  have hkind : label.kind ≠ .endOfInput := by
    intro hkind
    simp [Token.isLabel, hkind] at hlabel
  have htest : Gives tokens s atLabel label.isLabel s := test_gives hahead (·.isLabel) fun _ => rfl
  obtain ⟨t, ht, -, hadvance⟩ := advance_gives hahead hkind
  rw [hlabel] at htest
  exact ⟨t, ht, htest.bind hadvance⟩

/-- Labels are read one by one, up to a token that is no comma. -/
theorem labels_loops (keyword : String) (hne : labels ≠ [])
    (hlabels : ∀ label ∈ labels, label.isLabel = true)
    (hahead : Ahead tokens s.position (listed labels ++ [next])) (hnext : next.isMark "," = false)
    (front : List Token) : ∃ read, read.map Token.bare = labels ∧ Loops tokens (fun front => do
        let front := front ++ [← labelAfter keyword]
        if ← takeMark "," then return .again front
        return .done front) labels.length front s (front ++ read)
          (s.moved (listed labels).length) := by
  induction labels generalizing s front with
  | nil => exact absurd rfl hne
  | cons label rest ih =>
    obtain ⟨hlabel, hrest⟩ := forall_mem_cons.1 hlabels
    cases rest with
    | nil =>
      obtain ⟨t, rfl, hread⟩ := labelAfter_gives keyword hahead hlabel
      have hlast : Ahead tokens (s.moved 1).position [next] := hahead.tail
      exact ⟨[t], rfl, .done (hread.bind ((takeMark_not hlast hnext).bind .pure))⟩
    | cons other rest =>
      obtain ⟨t, rfl, hread⟩ := labelAfter_gives keyword hahead hlabel
      have hcomma :
          Ahead tokens (s.moved 1).position (.mark "," :: (listed (other :: rest) ++ [next])) :=
            hahead.tail
      have htake : Gives tokens (s.moved 1) (takeMark ",") true ((s.moved 1).moved 1) :=
        take_gives hcomma (·.isMark ",") (fun _ => rfl) rfl nofun
      have hothers :
          Ahead tokens ((s.moved 1).moved 1).position (listed (other :: rest) ++ [next]) :=
            hcomma.tail
      obtain ⟨read, hbare, hloops⟩ := ih (cons_ne_nil _ _) hrest hothers (front ++ [t])
      refine ⟨t :: read, by rw [map_cons, hbare], ?_⟩
      have hmoved : ((s.moved 1).moved 1).moved (listed (other :: rest)).length =
          s.moved (listed (t.bare :: other :: rest)).length := by
        rw [State.moved_moved, State.moved_moved, ← Nat.add_assoc, Nat.add_comm]
        rfl
      rw [append_assoc, singleton_append, hmoved] at hloops
      exact .again (hread.bind (htake.bind .pure)) hloops

/-! ### The line -/

/-- The line that calls one of some functions: the one whose number a value is, if there are as
many. -/
def choiceLine (choice selector : String) (bound : Nat) (functions : List String) : String :=
  "\x7b const " ++ choice ++ " = " ++ selector ++ "; if (" ++ choice ++
    " >= 1 && " ++ choice ++ " <= " ++ toString bound ++ ") \x7b await [" ++
      Text.commas functions ++ "][" ++ choice ++ " - 1](); \x7d \x7d"

/-- A choice among labels is reported and emitted. -/
theorem choice_gives (tokens : Array Token) (s : State) (token : Token)
    (selector : String) (labels : List Token) : ∃ s', Gives tokens s (do
        warnAt token "ON...GOSUB labels are called as functions"
        let choice ← temporary "_on_"
        line (choiceLine choice selector labels.length (labelFunctions labels))) () s' ∧
      s'.position = s.position ∧ s'.page = s.page.line
        (choiceLine ("_on_" ++ toString (s.temporaries + 1)) selector labels.length
          (labelFunctions labels)) :=
  ⟨_, rfl, rfl, rfl⟩

theorem onStatement_gives {selector : String} {first : Token} (token : Token)
    (hahead : Ahead tokens s.position (first :: rest)) (herror : first.isKeyword "ERROR" = false)
    (hevent : trappedEvents.contains (Text.upper first.text) = false)
    (hselector : Gives tokens s expression selector s₁) (hne : labels ≠ [])
    (hlabels : ∀ label ∈ labels, label.isLabel = true)
    (hlist : Ahead tokens s₁.position (.word "GOSUB" :: (listed labels ++ [next])))
    (hnext : next.isMark "," = false) :
    ∃ s', Gives tokens s (onStatement token) () s' ∧ s'.position = s₁.position + 1 +
      (listed labels).length ∧ s'.page = s₁.page.line
        (choiceLine ("_on_" ++ toString (s₁.temporaries + 1)) selector labels.length
          (labelFunctions labels)) := by
  obtain ⟨event, hevent', hcurrent⟩ := current_gives hahead
  have htrapped : trappedEvents.contains (Text.upper event.text) = false := by
    rw [← Token.text_bare, hevent']
    exact hevent
  have hbehind : Ahead tokens (s₁.moved 1).position (listed labels ++ [next]) := hlist.tail
  obtain ⟨read, hbare, hloops⟩ := labels_loops "GOSUB" hne hlabels hbehind hnext []
  have hlength : read.length = labels.length := by rw [← hbare, length_map]
  have hfunctions : labelFunctions read = labelFunctions labels := by
    rw [← hbare, labelFunctions_bare]
  have hturns : labels.length ≤ tokens.size + 1 := by
    have hsize := hlist.length_le
    have hlisted := length_le_listed labels
    simp only [length_cons, length_append] at hsize
    omega
  have hread : Gives tokens (s₁.moved 1) (commaList (labelAfter "GOSUB")) read
      ((s₁.moved 1).moved (listed labels).length) := hloops.gives hturns
  obtain ⟨s', hchoice, hposition, hpage⟩ :=
    choice_gives tokens ((s₁.moved 1).moved (listed labels).length) token selector read
  refine ⟨s', (takeKeyword_not hahead herror).bind (hcurrent.bind ?_), hposition, ?_⟩
  · rw [if_neg (by rw [htrapped]; exact Bool.false_ne_true)]
    exact hselector.bind ((takeKeyword_not hlist rfl).bind
      ((takeKeyword_gives hlist).bind (hread.bind hchoice)))
  · rw [← hlength, ← hfunctions]
    exact hpage

/-- The functions of labels of a source are words, so each of them is one element of the array. -/
theorem wordy_labelFunction (tape : Tape) {position : Int}
    (hahead : Ahead tape.tokens position (listed labels ++ [next])) :
    ∀ function ∈ labels.filterMap labelFunction?, Script.Wordy function := by
  intro function hfunction
  obtain ⟨label, hlabel, heq⟩ := mem_filterMap.1 hfunction
  rw [labelFunction?] at heq
  split at heq
  case isTrue hkind =>
    obtain ⟨t, ht, rfl⟩ := hahead.left.exists_mem (mem_listed hlabel)
    cases heq
    exact ((tape.fits t ht).wordy (.inl hkind)).mangle
  case isFalse => cases heq

/-- **One label among several is called**: at every place of every source, `ON` with a value and
`GOSUB` gives one line, with the number of labels as the bound and an array of the functions that
the labels have.  There are as many functions as the bound says, each in the place of its label, if
and only if every label is a name. -/
theorem choices_aligned_iff (tape : Tape) (inner : Emit Bool) (s s₁ : State) (selector : String)
    (first next : Token) (rest labels : List Token)
    (hahead : Ahead tape.tokens s.position (.word "ON" :: first :: rest))
    (herror : first.isKeyword "ERROR" = false)
    (hevent : trappedEvents.contains (Text.upper first.text) = false)
    (hselector : expression tape.tokens (s.moved 1) = .ok selector s₁) (hne : labels ≠ [])
    (hlabels : ∀ label ∈ labels, label.isLabel = true)
    (hlist : Ahead tape.tokens s₁.position (.word "GOSUB" :: (listed labels ++ [next])))
    (hnext : next.isMark "," = false) : ∃ s', statementOver inner tape.tokens s = .ok true s' ∧
      s'.position = s₁.position + 1 + (listed labels).length ∧
      s'.page =
        s₁.page.line (choiceLine ("_on_" ++ toString (s₁.temporaries + 1)) selector labels.length
        (labels.filterMap labelFunction?)) ∧
      (∀ function ∈ labels.filterMap labelFunction?, Script.Wordy function) ∧
      (((labels.filterMap labelFunction?).length = labels.length ∧ ∀ (k : Nat) (label : Token),
          labels[k]? = some label → (labels.filterMap labelFunction?)[k]? = labelFunction? label) ↔
        ∀ label ∈ labels, label.kind = .identifier) := by
  have hverb : Verb.ofWord? "ON" = some .on := by decide +kernel
  obtain ⟨token, hstatement⟩ := statementOver_word inner hahead hverb
  have hfirst : Ahead tape.tokens (s.moved 1).position (first :: rest) := hahead.tail
  obtain ⟨s', hgives, hposition, hpage⟩ :=
    onStatement_gives token hfirst herror hevent hselector hne hlabels hlist hnext
  rw [labelFunctions_eq_filterMap] at hpage
  refine ⟨s', hstatement s' hgives, hposition, hpage, wordy_labelFunction tape hlist.tail, ?_⟩
  rw [← labelFunctions_eq_filterMap]
  exact labelFunctions_aligned_iff labels

/-- Three labels, one of them a line number. -/
def mixedLabels : String := "ON 2 GOSUB a, 100, b"

/-- The value 2 calls the third label. -/
theorem mixedLabels_misaligned :
    ∃ (hread : (Lexer.scan mixedLabels).fault = none) (s₁ s' : State),
      expression (Tape.ofSource mixedLabels hread).tokens ((firstState mixedLabels).moved 1) =
        .ok "2" s₁ ∧
      statementOver statement (Tape.ofSource mixedLabels hread).tokens
        (firstState mixedLabels) = .ok true s' ∧
      s'.page = s₁.page.line (choiceLine "_on_1" "2" 3 ["a", "b"]) ∧
      ¬ ((["a", "b"] : List String).length = 3 ∧ ∀ (k : Nat) (label : Token),
        [Token.named "a", .numeral "100", .named "b"][k]? = some label →
          ["a", "b"][k]? = labelFunction? label) := by
  have hread : (Lexer.scan mixedLabels).fault = none := by decide +kernel
  let tape := Tape.ofSource mixedLabels hread
  have hfront : .word "ON" :: .numeral "2" :: .word "GOSUB" ::
      (listed [.named "a", .numeral "100", .named "b"] ++ [Token.inputEnd]) <+:
        ((Lexer.scan mixedLabels).tokens.drop 0).map Token.bare := by decide +kernel
  have hahead : Ahead tape.tokens 0 (.word "ON" :: .numeral "2" :: .word "GOSUB" ::
      (listed [.named "a", .numeral "100", .named "b"] ++ [Token.inputEnd])) := ⟨0, rfl, hfront⟩
  have hdigits : Writable "2" := writable_digits (all_eq_true.1 (by decide)) (by decide) (by decide)
  have hselector := explicit_spelling_read tape.tokens ((firstState mixedLabels).moved 1)
    (.number "2") (.word "GOSUB")
    hahead.tail.left rfl nofun (fun text htext => mem_singleton.1 htext ▸ hdigits)
  have haligned := choices_aligned_iff tape statement (firstState mixedLabels) _ _
    (.numeral "2") .inputEnd _
    [.named "a", .numeral "100", .named "b"] hahead rfl (by decide +kernel)
    hselector nofun (by decide) hahead.tail.tail rfl
  obtain ⟨s', hgives, -, hpage, -, hiff⟩ := haligned
  have hfunctions : [Token.named "a", .numeral "100", .named "b"].filterMap labelFunction? =
      ["a", "b"] := by
    decide +kernel
  rw [hfunctions] at hiff hpage
  exact ⟨hread, _, s', hselector, hgives, hpage, fun h => absurd (hiff.1 h) (by decide)⟩

/-- With a line number in front of a name, the value 1 calls the function of the second label, and
the value 2 none. -/
theorem choice_of_next_label :
    (lastState "ON n GOSUB 100, foo").page.lines.toList.map (·.text) =
      ["let n = 0;", choiceLine "_on_1" "n" 2 ["foo"]] ∧
    ["foo"][0]? ≠ labelFunction? (.numeral "100") ∧
    ["foo"][1]? ≠ labelFunction? (.named "foo") := by
  decide +kernel

end BasicScript
