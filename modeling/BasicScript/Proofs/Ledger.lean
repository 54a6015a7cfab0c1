import BasicScript.Proofs.ExpressionReading
import BasicScript.Proofs.ProgramTree

/-!
# States and ledgers

What the emitter leaves behind when it reads a part of a program tree: the names of its scopes are
those of a ledger (`Tracks`), rows are appended to its page and everything else is as it was
(`Went`).  An expression appends nothing (`expression_reached`).
-/

namespace BasicScript

open Emit Text Script List

variable {tokens : Array Token} {s s₁ s' : State} {l : Ledger} {front rest : List Token} {e : Expr}

/-! ### Scopes and ledgers -/

/-- The scopes of a state outside procedures hold the names of a ledger. -/
structure Tracks (s : State) (l : Ledger) : Prop where
  inner : s.scopes.inner = []
  base : s.scopes.root.base = 0
  mark : s.scopes.root.mark = 0
  indent : s.scopes.root.indent = topDepth
  hoisted : s.scopes.root.hoisted = l.hoisted.map fun n => (Variable.implicit n).declaration
  found : ∀ n, (s.scopes.find? n).map (·.name) = l.declared.get? (upper n)
  free : ∀ n, s.scopes.Free n
  procedures : s.procedures = []
  functions : s.functions = []

namespace Scopes

variable {sc : Scopes} {name other : String}

theorem lookup?_of_inner (h : sc.inner = []) : sc.lookup? name = sc.local? name := by
  unfold lookup? isModule
  split
  · exact Eq.symm ‹_›
  · simp_all

/-- Outside procedures a name declared anew is the only one that changes. -/
theorem find?_declare (h : sc.inner = []) (hfree : ∀ n, sc.Free n) (hnone : sc.find? name = none)
    (v : Variable) (other : String) :
    (sc.declare name v).2.find? other =
      if upper other = upper name then some v else sc.find? other := by
  have hlocal := hfree name hnone
  split
  · exact find?_declare_self hlocal ‹_›
  · rename_i hne
    cases hother : sc.find? other with
    | some w => exact find?_declare_of_some hlocal hnone hother
    | none =>
      have hlookup : sc.lookup? other = none := by rw [lookup?_of_inner h, hfree other hother]
      rw [find?, lookup?_declare hlocal, if_neg hne, hlookup]
      rfl

theorem free_declare (h : sc.inner = []) (hfree : ∀ n, sc.Free n) (hnone : sc.find? name = none)
    (v : Variable) : (sc.declare name v).2.Free other := by
  intro hother
  rw [find?_declare h hfree hnone] at hother
  split at hother
  · cases hother
  · rw [local?_declare (hfree name hnone), if_neg ‹_›, hfree other hother]

end Scopes

namespace Tracks

variable {name : String}

variable (h : Tracks s l)

include h

/-- Only the scopes and the tables of procedures matter. -/
theorem congr (hscopes : s'.scopes = s.scopes) (hprocedures : s'.procedures = s.procedures)
    (hfunctions : s'.functions = s.functions) : Tracks s' l := by
  constructor
  all_goals first | rw [hscopes] | skip
  · exact h.inner
  · exact h.base
  · exact h.mark
  · exact h.indent
  · exact h.hoisted
  · exact h.found
  · exact h.free
  · exact hprocedures.trans h.procedures
  · exact hfunctions.trans h.functions

theorem moved (count : Nat) : Tracks (s.moved count) l := h.congr rfl rfl rfl

theorem meet (name : String) : Tracks s (l.meet name) := by
  unfold Ledger.meet
  split
  · exact h
  · exact ⟨h.inner, h.base, h.mark, h.indent, h.hoisted, h.found, h.free, h.procedures, h.functions⟩

theorem declares_eq (name : String) : l.declares name = (s.scopes.find? name).isSome := by
  rw [Ledger.declares, Table.holds, ← h.found, Option.isSome_map]

theorem scriptName (name : String) : s.scopes.scriptName name = l.nameOf name := by
  rw [Scopes.scriptName, h.found, Ledger.nameOf]

/-- The scope of the module gets other names and declarations. -/
theorem of_root {sc : Scopes} {names : Table Ref} {declared : List Declaration}
    {hoisted : List String}
    (hsc : sc.inner = [] ∧ sc.root = { s.scopes.root with names, declared, hoisted }) {l' : Ledger}
    (hhoisted : hoisted = l'.hoisted.map fun n => (Variable.implicit n).declaration)
    (hfound : ∀ n, (sc.find? n).map (·.name) = l'.declared.get? (upper n))
    (hfree : ∀ n, sc.Free n) : Tracks { s with scopes := sc } l' := by
  obtain ⟨hinner, hroot⟩ := hsc
  constructor
  case inner => exact hinner
  case base => rw [hroot]; exact h.base
  case mark => rw [hroot]; exact h.mark
  case indent => rw [hroot]; exact h.indent
  case hoisted => rw [hroot]; exact hhoisted
  case found => exact hfound
  case free => exact hfree
  case procedures => exact h.procedures
  case functions => exact h.functions

/-- A new name, with or without a declaration at the top. -/
theorem declare (hnone : s.scopes.find? name = none) :
    Tracks { s with scopes := (s.scopes.declare name (.implicit name)).2 }
      (l.assign false name) := by
  have hundeclared : l.declares name = false := by rw [h.declares_eq, hnone]; rfl
  have hsc : (s.scopes.declare name (.implicit name)).2.inner = [] ∧
      (s.scopes.declare name (.implicit name)).2.root =
      { s.scopes.root with
        names := s.scopes.root.names.insert (upper name) s.scopes.cells.size } := by
    rw [Scopes.declare_of_local? (h.free name hnone), Scopes.bind, Scopes.mapCurrent, h.inner]
    exact ⟨rfl, rfl⟩
  rw [Ledger.assign, hundeclared, if_neg Bool.false_ne_true]
  refine h.of_root hsc h.hoisted (fun n => ?_) fun n => Scopes.free_declare h.inner h.free hnone _
  rw [Scopes.find?_declare h.inner h.free hnone, Table.get?_insert]
  split
  · rfl
  · exact h.found n

/-- What is noted of declarations does not matter. -/
theorem note (d : Declaration) : Tracks { s with scopes := s.scopes.note d } l := by
  have hsc : (s.scopes.note d).inner = [] ∧
      (s.scopes.note d).root =
        { s.scopes.root with declared := s.scopes.root.declared ++ [d] } := by
    simp [Scopes.note, Scopes.mapCurrent, h.inner]
  refine h.of_root hsc h.hoisted (fun n => ?_) fun n hnone => ?_
  · rw [Scopes.find?_note, h.found]
  · rw [Scopes.find?_note] at hnone
    rw [Scopes.local?_note, h.free n hnone]

theorem hoist (name : String) :
    Tracks { s with scopes := s.scopes.hoist (Variable.implicit name).declaration }
      { l with hoisted := l.hoisted ++ [name] } := by
  have hsc : (s.scopes.hoist (Variable.implicit name).declaration).inner = [] ∧
      (s.scopes.hoist (Variable.implicit name).declaration).root =
        { s.scopes.root with
          hoisted := s.scopes.root.hoisted ++ [(Variable.implicit name).declaration] } := by
    simp [Scopes.hoist, Scopes.mapCurrent, h.inner]
  refine h.of_root hsc (by simp [h.hoisted]) (fun n => ?_) fun n hnone => ?_
  · rw [Scopes.find?_hoist, h.found]
  · rw [Scopes.find?_hoist] at hnone
    rw [Scopes.local?_hoist, h.free n hnone]

theorem declareTop (hnone : s.scopes.find? name = none) :
    Tracks { s with scopes := s.scopes.declareTop name } (l.assign true name) := by
  have hundeclared : l.declares name = false := by rw [h.declares_eq, hnone]; rfl
  have htracks := ((h.declare hnone).note (.implicit name)).hoist name
  rw [Ledger.assign, hundeclared, if_neg Bool.false_ne_true] at htracks ⊢
  exact htracks

theorem assign_of_some {v : Variable} (hsome : s.scopes.find? name = some v) (atTop : Bool) :
    l.assign atTop name = l := by
  rw [Ledger.assign, h.declares_eq, hsome]
  rfl

theorem use (name : String) : Tracks { s with scopes := s.scopes.use name } (l.use name) := by
  cases hfind : s.scopes.find? name with
  | some v =>
    rw [Ledger.use, (h.meet name).assign_of_some hfind, Scopes.use_of_some hfind]
    exact h.meet name
  | none =>
    rw [Scopes.use_of_none hfind]
    exact (h.meet name).declareTop hfind

theorem useAll (names : List String) :
    Tracks { s with scopes := s.scopes.useAll names } (l.useAll names) := by
  induction names generalizing s l with
  | nil => exact h
  | cons name names ih => exact ih (h.use name)

end Tracks

/-! ### What a statement does -/

/-- From one state to another: how far the cursor moved, the rows that were appended, how far the
indentation moved, and how many temporary names were made.  The single-line `IF`s and the
diagnostics stay. -/
structure Went (s s' : State) (count : Nat) (rows : List Row) (shift : Int) (made : Nat) :
    Prop where
  position : s'.position = s.position + count
  lines : s'.page.lines.toList = s.page.lines.toList ++ rows.map Row.line
  indent : s'.page.indent = s.page.indent + shift
  floors : s'.floors = s.floors
  collector : s'.collector = s.collector
  temporaries : s'.temporaries = s.temporaries + made

namespace Went

variable {s₂ : State} {a b m n : Nat} {x y : List Row} {i j : Int}

theorem refl (s : State) : Went s s 0 [] 0 0 := by
  constructor <;> simp

theorem trans (h : Went s s₁ a x i m) (h' : Went s₁ s₂ b y j n) :
    Went s s₂ (a + b) (x ++ y) (i + j) (m + n) where
  position := by rw [h'.position, h.position]; omega
  lines := by rw [h'.lines, h.lines, map_append, append_assoc]
  indent := by rw [h'.indent, h.indent, Int.add_assoc]
  floors := h'.floors.trans h.floors
  collector := h'.collector.trans h.collector
  temporaries := by rw [h'.temporaries, h.temporaries, Nat.add_assoc]

theorem moved (s : State) (count : Nat) : Went s (s.moved count) count [] 0 0 := by
  constructor <;> simp [State.moved]

/-- Rows matter for their lines only. -/
theorem ofLines (h : Went s s' a x i m) (hlines : x.map Row.line = y.map Row.line) :
    Went s s' a y i m :=
  ⟨h.position, hlines ▸ h.lines, h.indent, h.floors, h.collector, h.temporaries⟩

theorem ofScopes {scopes : Scopes} (h : Went { s with scopes } s' a x i m) : Went s s' a x i m :=
  ⟨h.position, h.lines, h.indent, h.floors, h.collector, h.temporaries⟩

/-- A part between which and the rest a single-line `IF` lies. -/
theorem inside (floors : List Nat) (h : Went { s with floors } s' a x i m) :
    Went s { s' with floors := s.floors } a x i m :=
  ⟨h.position, h.lines, h.indent, rfl, h.collector, h.temporaries⟩

theorem indentBy (h : Went s s' a x i m) (levels : Int) :
    Went s { s' with page := s'.page.indentBy levels } a x (i + levels) m :=
  ⟨h.position, h.lines,
    by simp [Page.indentBy, h.indent, Int.add_assoc], h.floors, h.collector, h.temporaries⟩

theorem indent_eq {depth : Int} (h : Went s s' a x 0 m) (hindent : s.page.indent = depth) :
    s'.page.indent = depth := by
  rw [h.indent, Int.add_zero, hindent]

/-- The tokens behind those that the cursor passed. -/
theorem behind (h : Went s s' front.length x i m)
    (hahead : Ahead tokens s.position (front ++ rest)) : Ahead tokens s'.position rest :=
  h.position ▸ hahead.right

end Went

/-! ### Lines -/

theorem isEmpty_append_of_right {front back : String} (h : back.isEmpty = false) :
    (front ++ back).isEmpty = false := by
  simp_all

section Lines

variable {depth : Nat} {text : String} (htext : text.isEmpty = false)

include htext

theorem went_line (h : s.page.indent = depth) :
    Went s { s with page := s.page.line text } 0 [⟨depth, text, false⟩] 0 0 := by
  constructor <;> simp [Page.line, Row.line, htext, h]

theorem went_openLine (h : s.page.indent = depth) :
    Went s { s with page := (s.page.line text).indentBy 1 } 0 [⟨depth, text, false⟩] 1 0 :=
  (went_line htext h).indentBy 1

theorem went_closeLine (h : s.page.indent = (depth : Int) + 1) :
    Went s { s with page := s.page.dedent.line text } 0 [⟨depth, text, false⟩] (-1) 0 := by
  have hpos : 0 < s.page.indent := by omega
  have hindent : s.page.indent - 1 = depth := by omega
  constructor <;> simp [Page.line, Page.dedent, Row.line, htext, hpos, hindent]
  omega

theorem went_turnLine (h : s.page.indent = (depth : Int) + 1) :
    Went s { s with page := (s.page.dedent.line text).indentBy 1 } 0 [⟨depth, text, false⟩] 0 0 :=
  (went_closeLine htext h).indentBy 1

end Lines

/-- Where a statement leads: the blocks are as they were, and the names are in the ledger. -/
structure Reached (s s' : State) (count : Nat) (rows : List Row) (made : Nat) (l : Ledger) :
    Prop where
  went : Went s s' count rows 0 made
  blocks : s'.blocks = s.blocks
  tracks : Tracks s' l

namespace Reached

variable {s₂ : State} {a b m n : Nat} {x y : List Row} {l' : Ledger}

theorem trans (h : Reached s s₁ a x m l) (h' : Reached s₁ s₂ b y n l') :
    Reached s s₂ (a + b) (x ++ y) (m + n) l' :=
  ⟨h.went.trans h'.went, h'.blocks.trans h.blocks, h'.tracks⟩

theorem of_eq (h : Reached s s' a x m l) (hcount : a = b) (hrows : x = y)
    (hmade : m = n) (hl : l = l') : Reached s s' b y n l' := by
  subst hcount hrows hmade hl
  exact h

theorem moved (h : Tracks s l) (count : Nat) : Reached s (s.moved count) count [] 0 l :=
  ⟨.moved s count, rfl, h.moved count⟩

end Reached

theorem line_reached (tokens : Array Token) (text : String) (h : Tracks s l) {depth : Nat}
    (hindent : s.page.indent = depth) (htext : text.isEmpty = false) :
    ∃ s', Gives tokens s (line text) () s' ∧ Reached s s' 0 [⟨depth, text, false⟩] 0 l :=
  ⟨_, rfl, went_line htext hindent, rfl, h.congr rfl rfl rfl⟩

/-! ### Expressions -/

/-- A token that can begin an expression. -/
inductive Token.Opens : Token → Prop where
  | number (text : String) : Opens (.numeral text)
  | string (text : String) : Opens (.quotation text)
  | name (text : String) : Opens (.named text)
  | parenthesis : Opens (.mark "(")
  | sign (sign : Sign) : Opens sign.token

namespace Token.Opens

variable {token : Token} {text : String}

theorem isMark (h : token.Opens) (hne : text ≠ "(") : token.isMark text = false := by
  cases h with
  | parenthesis => exact decide_eq_false hne.symm
  | sign sign => cases sign <;> rfl
  | _ => rfl

theorem isKeyword (h : token.Opens) (hne : text ≠ "NOT") : token.isKeyword text = false := by
  cases h with
  | sign sign =>
    cases sign with
    | not => exact decide_eq_false hne.symm
    | _ => rfl
  | _ => rfl

theorem endsLine (h : token.Opens) : token.endsLine = false := by
  cases h with
  | sign sign => cases sign <;> rfl
  | _ => rfl

theorem endsStatement (h : token.Opens) : token.endsStatement = false := by
  rw [Token.endsStatement, h.endsLine, h.isMark (by decide), h.isKeyword (by decide)]
  rfl

end Token.Opens

theorem Expr.first_opens (e : Expr) : e.first.Opens := by
  induction e with
  | number text => exact .number text
  | string text => exact .string text
  | name text => exact .name text
  | parens => exact .parenthesis
  | signed sign => exact .sign sign
  | binary o left right ihl => exact ihl

theorem Expr.exists_written (e : Expr) : ∃ first rest, e.written = first :: rest ∧ first.Opens := by
  obtain ⟨rest, hrest⟩ := e.explicit.exists_spelling
  exact ⟨_, rest, hrest, e.explicit.first_opens⟩

/-- A name that is no builtin, or a number that can be written, if it is a name or a number. -/
structure Token.Plain (token : Token) : Prop where
  builtin : token.kind = .identifier → Vocabulary.builtin? token.text = none
  number : token.kind = .number → Writable token.text

theorem Ahead.exists_mem {position : Int} {token : Token}
    (h : Ahead tokens position front) (hmem : token ∈ front) : ∃ t ∈ tokens, t.bare = token := by
  obtain ⟨n, -, hfront⟩ := h
  obtain ⟨t, ht, rfl⟩ := mem_map.1 (hfront.subset hmem)
  exact ⟨t, Array.mem_toList_iff.1 (mem_of_mem_drop ht), rfl⟩

theorem Expr.mem_spelling :
    (∀ n ∈ e.names, Token.named n ∈ e.spelling) ∧ ∀ t ∈ e.numbers,
      Token.numeral t ∈ e.spelling := by
  induction e with
  | number | string | name => simp [names, numbers, spelling]
  | parens inner ih | signed sign inner ih =>
    exact ⟨fun n hn => by simp [spelling, ih.1 n hn], fun t ht => by simp [spelling, ih.2 t ht]⟩
  | binary o left right ihl ihr =>
    constructor <;> intro text htext <;> rcases mem_append.1 htext with h | h
    · simp [spelling, ihl.1 text h]
    · simp [spelling, ihr.1 text h]
    · simp [spelling, ihl.2 text h]
    · simp [spelling, ihr.2 text h]

section Run

variable (hplain : ∀ t ∈ tokens, t.Plain)

include hplain

theorem expression_reached (h : Tracks s l) {next : Token}
    (hahead : Ahead tokens s.position (e.written ++ next :: rest)) (hstops : Stops 0 next)
    {js : String → String} (hjs : ∀ n ∈ e.names, js n = (l.useAll e.names).nameOf n) :
    ∃ s', Gives tokens s expression (e.rendered js) s' ∧
      Reached s s' e.written.length [] 0 (l.useAll e.names) := by
  have htracks : Tracks (s.past e.explicit) (l.useAll e.names) := by
    refine (h.useAll e.names).congr ?_ rfl rfl
    rw [State.past, e.names_explicit]
  have hfront : Ahead tokens s.position (e.explicit.spelling ++ [next]) := by
    rw [Expr.written, append_cons] at hahead
    exact hahead.left
  have hlegible : Legible js s e.explicit.names e.explicit.numbers := by
    constructor
    case procedure => exact fun n _ => by rw [h.procedures]; rfl
    case function => exact fun n _ => by rw [h.functions]; rfl
    case free => exact fun n _ => h.free n
    case builtin =>
      intro n hn _
      obtain ⟨t, ht, hbare⟩ := hfront.left.exists_mem (Expr.mem_spelling.1 _ hn)
      have htext : t.text = n := congrArg Token.text hbare
      exact htext ▸ (hplain t ht).builtin (congrArg Token.kind hbare)
    case named =>
      intro n hn
      rw [e.names_explicit] at hn ⊢
      rw [hjs n hn]
      exact (h.useAll e.names).scriptName n
    case number =>
      intro x hx
      obtain ⟨t, ht, hbare⟩ := hfront.left.exists_mem (Expr.mem_spelling.2 _ hx)
      have htext : t.text = x := congrArg Token.text hbare
      exact (htext ▸ (hplain t ht).number (congrArg Token.kind hbare)).exists_number
  refine ⟨_, expression_gives e.proper_explicit hfront hstops hlegible, ?_, rfl, htracks⟩
  constructor <;> simp [State.past, Expr.written]

end Run

end BasicScript
