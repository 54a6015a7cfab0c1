import BasicScript.Proofs.NamesInScope
import BasicScript.Proofs.StructuredProgram

/-!
# Variables with one JavaScript name

Suffixes and capital forms tell variables apart, but their JavaScript names need not: `a%` is
written as `a_int`, which is a name too, `class` as `class_`, and `a.b` as `a_b`.  So two variables
of one scope can end up as one.

* `Scopes.Gives`: the JavaScript names of variables and declarations, by their keys.
* `names_meet_iff`: wherever a statement can begin, and at the end, two such names are equal exactly
  if their words are, or one of the words replaces the other; and every such pair of words meets in
  some program.
-/

namespace BasicScript

open Emit Lexer Text List

open Script (mangle Replaced)

variable {tape : Tape} {sc : Scopes} {key name x : String}

/-! ### Names by their keys -/

/-- A JavaScript name that is given for a key: to the variable that a name refers to in the current
scope, to a variable of some open scope, or by a declaration. -/
inductive Scopes.Gives (sc : Scopes) : (key x : String) → Prop where
  | visible {name : String} {v : Variable} (h : sc.find? name = some v) :
      sc.Gives (upper name) v.name
  | bound {scope : Scope} {key : String} {ref : Ref} {v : Variable}
      (hscope : scope ∈ sc.root :: sc.inner) (hget : scope.names.get? key = some ref)
      (hcell : sc.cell? ref = some v) : sc.Gives key v.name
  | declaration {ds : List Declaration} {d : Declaration}
      (hds : ds ∈ sc.declarations) (hd : d ∈ ds) : sc.Gives d.key (declaredName d.text)

/-- Names are given as the source calls them. -/
theorem Scopes.Gives.called (h : sc.Gives key x) (hnamed : sc.Named tape)
    (hkeys : sc.DeclaresKeys tape) : tape.Called key x := by
  cases h with
  | visible h => exact hnamed.find h
  | bound hscope hget hcell =>
    obtain ⟨v, hcell', hcalled⟩ := hnamed.names _ hscope _ _ hget
    cases hcell'.symm.trans hcell
    exact hcalled
  | declaration hds hd => exact hkeys _ hds _ hd

theorem Scopes.gives_of_find? (h : (sc.find? name).map (·.name) = some x) :
    sc.Gives (upper name) x := by
  obtain ⟨v, hv, rfl⟩ := Option.map_eq_some_iff.1 h
  exact .visible hv

/-! ### Programs of assignments -/

/-- A program that assigns to names, one after another. -/
def assignments : List String → Body
  | [] => .done
  | name :: rest => .next (.line (.assign name (.number "1"))) (assignments rest)

theorem ordinary_assignments {names : List String}
    (h : ∀ name ∈ names, (Token.named name).Ordinary) :
    ∀ t ∈ (assignments names).spelling, t.Ordinary := by
  have hfixed : ∀ t ∈ [Token.sign "=", Token.numeral "1", Token.lineEnd], t.Ordinary := by
    have hlooks : ∀ t ∈ [Token.sign "=", Token.numeral "1", Token.lineEnd],
        t.looksOrdinary = true := by decide
    exact fun t ht => Token.ordinary_of_looks (hlooks t ht)
  induction names with
  | nil => simp [assignments, Body.spelling]
  | cons name rest ih =>
    intro t ht
    have hsplit : t = .named name ∨ t ∈ [Token.sign "=", Token.numeral "1", Token.lineEnd] ∨
        t ∈ (assignments rest).spelling := by
      simpa [assignments, Body.spelling, Stmt.spelling, Inline.spelling, Expr.written,
        Expr.explicit, Expr.spelling, or_assoc] using ht
    rcases hsplit with rfl | ht | ht
    · exact h name (by simp)
    · exact hfixed t ht
    · exact ih (fun n hn => h n (by simp [hn])) t ht

theorem ledger_assignments_cons (name : String) (rest : List String) (l : Ledger) :
    (assignments (name :: rest)).ledger topDepth l = (assignments rest).ledger topDepth
    ((l.meet name).assign false name) :=
  rfl

theorem get?_assignments_of_some {names : List String} {l : Ledger}
    (h : l.declared.get? key = some x) :
    ((assignments names).ledger topDepth l).declared.get? key = some x := by
  induction names generalizing l with
  | nil => exact h
  | cons name rest ih =>
    rw [ledger_assignments_cons]
    exact ih (Ledger.get?_assign_of_some (by rwa [Ledger.declared_meet]))

/-- Names with different capital forms are declared each by its own word. -/
theorem get?_assignments {names : List String} {l : Ledger} (hnodup : (names.map upper).Nodup)
    (hnew : ∀ name ∈ names, l.declared.get? (upper name) = none) :
    ∀ name ∈ names, ((assignments names).ledger topDepth l).declared.get? (upper name) =
      some (Script.identifier name) := by
  induction names generalizing l with
  | nil => simp
  | cons first rest ih =>
    obtain ⟨hfirst, hrest⟩ := nodup_cons.1 hnodup
    have hstep : ∀ key, ((l.meet first).assign false first).declared.get? key =
        if key = upper first then some (Script.identifier first) else l.declared.get? key := by
      intro key
      have hdeclares : (l.meet first).declares first = false := by
        simp [Ledger.declares, Table.holds, hnew first (by simp)]
      rw [Ledger.assign, hdeclares, if_neg Bool.false_ne_true,
        Table.get?_insert, Ledger.declared_meet]
    rw [ledger_assignments_cons]
    refine forall_mem_cons.2 ⟨get?_assignments_of_some ?_, ih hrest fun name hname => ?_⟩
    · exact (hstep _).trans (if_pos rfl)
    · refine (hstep _).trans ((if_neg ?_).trans (hnew name (by simp [hname])))
      exact fun heq => hfirst (heq ▸ mem_map_of_mem hname)

/-- **Words are declared.**  Ordinary words with different capital forms are variables of a program
that nothing is reported of, each under its own JavaScript name. -/
theorem exists_pass_of_words (names : List String)
    (hordinary : ∀ name ∈ names, (Token.named name).Ordinary) (hnodup : (names.map upper).Nodup) :
    ∃ source s, (scan source).fault = none ∧ pass (scan source).tokens.toArray {} = .ok () s ∧
      s.collector.toList = [] ∧ ∀ name ∈ names, s.scopes.Gives (upper name) (mangle name) := by
  have hwritten := ordinary_assignments hordinary
  obtain ⟨hspelled, -⟩ := (assignments names).spells_text fun t ht => (hwritten t ht).lexical
  obtain ⟨written, hspelling, htokens⟩ := hspelled.tokens
  obtain ⟨s, hpass, hcollector, -, hfound⟩ := pass_tracks
    (hspelled.plain fun t ht => (hwritten t ht).plain) hspelling htokens {}
  refine ⟨_, s, hspelled.fault, hpass,
    by rw [hcollector]; rfl, fun name hname => Scopes.gives_of_find? ?_⟩
  have hword : Word name.toList := (hordinary name hname).lexical.1
  rw [hfound, ← Script.identifier_of_lettered hword.lettered]
  exact get?_assignments hnodup (fun _ _ => rfl) name hname

/-! ### When names meet -/

/-- **Names that meet.**  Wherever a statement of a source can begin, and at the end of the pass, a
name that is given for a key is made from a word that the source has for the key.  Two such names
are equal exactly if the words are equal or one of them replaces the other.  Any two ordinary words
with different capital forms are variables of one program without a report, also where one replaces
the other. -/
theorem names_meet_iff (source : String) :
    (∀ (hread : (scan source).fault = none) collector s,
      Observed (scan source).tokens.toArray collector s →
      ∀ a b x y, s.scopes.Gives a x → s.scopes.Gives b y →
        ∃ v w, (Tape.ofSource source hread).Words a v ∧ (Tape.ofSource source hread).Words b w ∧
          x = mangle v ∧ y = mangle w ∧ (x = y ↔ v = w ∨ Replaced v w ∨ Replaced w v)) ∧
    ∀ v w, (Token.named v).Ordinary → (Token.named w).Ordinary → upper v ≠ upper w →
      ∃ other s, (scan other).fault = none ∧ pass (scan other).tokens.toArray {} = .ok () s ∧
        ¬HasError s.collector.toList ∧ s.scopes.Gives (upper v) (mangle v) ∧
        s.scopes.Gives (upper w) (mangle w) := by
  constructor
  · intro hread collector s hobserved a b x y ha hb
    obtain ⟨s₀, page, hvisited, rfl⟩ := hobserved.exists_visited hread
    obtain ⟨v, hv, rfl⟩ := ha.called hvisited.named hvisited.declaresKeys
    obtain ⟨w, hw, rfl⟩ := hb.called hvisited.named hvisited.declaresKeys
    exact ⟨v, w, hv, hw, rfl, rfl, Script.mangle_eq_mangle_iff v w⟩
  · intro v w hv hw hne
    obtain ⟨other, s, hread, hpass, hcollector, hgives⟩ :=
      exists_pass_of_words [v, w] (by simp [hv, hw]) (by simpa using hne)
    exact ⟨other, s, hread, hpass,
      by simp [hcollector, HasError], hgives v (by simp), hgives w (by simp)⟩

/-- The JavaScript names of variables that names refer to, the lines of the page, and whether there
is no error. -/
def State.gives (names : List String) (s : State) : List (Option String) × List String × Bool :=
  (names.map fun name => (s.scopes.find? name).map (·.name), s.page.render Script.indentUnit,
    decide (¬HasError s.collector.toList))

/-- Two suffixes, and a word that JavaScript reserves beside the name that replaces it. -/
def fourNames : String := "a% = 1\na& = 2\nclass = 3\nclass_ = 4"

/-- The suffixes stay apart, the other two meet. -/
theorem class_meets_its_replacement :
    (∃ s hread, pass (scan fourNames).tokens.toArray {} = .ok () s ∧
      s.scopes.Gives "A%" "a_int" ∧ s.scopes.Gives "A&" "a_lng" ∧
      (∃ v w, (Tape.ofSource fourNames hread).Words "A%" v ∧
        (Tape.ofSource fourNames hread).Words "A&" w ∧ ¬(v = w ∨ Replaced v w ∨ Replaced w v)) ∧
      s.scopes.Gives "CLASS" "class_" ∧ s.scopes.Gives "CLASS_" "class_" ∧
      ∃ v w, (Tape.ofSource fourNames hread).Words "CLASS" v ∧
      (Tape.ofSource fourNames hread).Words "CLASS_" w ∧
        (v = w ∨ Replaced v w ∨ Replaced w v)) ∧
    ∃ source s, (scan source).fault = none ∧ pass (scan source).tokens.toArray {} = .ok () s ∧
      ¬HasError s.collector.toList ∧ s.scopes.Gives (upper "yield") (mangle "yield") ∧
      s.scopes.Gives (upper "yield_") (mangle "yield_") := by
  have hgiven : ending? fourNames (State.gives ["A%", "A&", "CLASS", "CLASS_"]) =
      some ([some "a_int", some "a_lng",
      some "class_", some "class_"],
      ["  let a_int = 1;", "  let a_lng = 2;", "  let class_ = 3;", "  let class_ = 4;"],
      true) := by
    decide +kernel
  obtain ⟨s, hread, hpass, hfound⟩ := pass_of_ending? hgiven
  simp only [State.gives, map_cons, map_nil, Prod.mk.injEq, List.cons.injEq, and_true] at hfound
  obtain ⟨⟨hint, hlng, hclass, hclass'⟩, -⟩ := hfound
  have hint := Scopes.gives_of_find? hint
  have hlng := Scopes.gives_of_find? hlng
  have hclass := Scopes.gives_of_find? hclass
  have hclass' := Scopes.gives_of_find? hclass'
  obtain ⟨hmeet, hall⟩ := names_meet_iff fourNames
  refine ⟨⟨s, hread, hpass, hint, hlng, ?_, hclass, hclass', ?_⟩, ?_⟩
  · obtain ⟨v, w, hv, hw, -, -, hiff⟩ := hmeet hread {} s (.finished hpass) _ _ _ _ hint hlng
    exact ⟨v, w, hv, hw, (not_congr hiff).1 (by decide)⟩
  · obtain ⟨v, w, hv, hw, -, -, hiff⟩ := hmeet hread {} s (.finished hpass) _ _ _ _ hclass hclass'
    exact ⟨v, w, hv, hw, hiff.1 rfl⟩
  · have hlooks : (Token.named "yield").looksOrdinary = true ∧
        (Token.named "yield_").looksOrdinary = true := by
      decide +kernel
    exact hall "yield" "yield_" (Token.ordinary_of_looks hlooks.1)
      (Token.ordinary_of_looks hlooks.2) (by decide +kernel)

/-- A variable with a suffix, and another one that is called like its JavaScript name. -/
def suffixAndTail : String := "a% = 1\na_int = 2"

/-- Without any report, two variables of the module are declared under one name. -/
theorem suffix_and_tail_meet :
    ∃ s, (scan suffixAndTail).fault = none ∧
      pass (scan suffixAndTail).tokens.toArray {} = .ok () s ∧ ¬HasError s.collector.toList ∧
      upper "a%" ≠ upper "a_int" ∧ s.scopes.Gives (upper "a%") "a_int" ∧
      s.scopes.Gives (upper "a_int") "a_int" ∧
      s.page.render Script.indentUnit = ["  let a_int = 1;", "  let a_int = 2;"] := by
  have hgiven : ending? suffixAndTail (State.gives ["a%", "a_int"]) =
      some ([some "a_int", some "a_int"],
      ["  let a_int = 1;", "  let a_int = 2;"], true) := by decide +kernel
  obtain ⟨s, hread, hpass, hfound⟩ := pass_of_ending? hgiven
  simp only [State.gives, map_cons, map_nil, Prod.mk.injEq, List.cons.injEq, and_true,
    decide_eq_true_eq] at hfound
  obtain ⟨⟨hint, htail⟩, hlines, herrors⟩ := hfound
  exact ⟨s, hread, hpass, herrors,
    by decide +kernel, Scopes.gives_of_find? hint, Scopes.gives_of_find? htail, hlines⟩

end BasicScript
