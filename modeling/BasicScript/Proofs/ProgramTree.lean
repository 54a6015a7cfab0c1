import BasicScript.Proofs.ExpressionTree
import BasicScript.Proofs.Use

/-!
# Program trees

A structured program as a tree, how it is spelled with one statement on each line, and how it is
translated: each construct becomes lines with the lines of its parts between them, one level further
in.

A translation takes the JavaScript name of a variable from a ledger of the names met so far
(`Ledger`).  The names that must be declared at the top of the program are in the ledger too, and a
row says whether it declares the variable to which it assigns.
-/

namespace BasicScript

open Script Text

namespace Expr

/-- The tokens of an expression, with the parentheses that it needs. -/
def written (e : Expr) : List Token := e.explicit.spelling

/-- The expression in JavaScript, with the parentheses that its tokens have. -/
def rendered (js : String → String) (e : Expr) : String := e.explicit.script js

end Expr

/-! ### Trees -/

/-- A statement on one line.  `Inline true` are those that an `ELSE` can follow: each `IF` in them
has an `ELSE` of its own, so it belongs to an `IF` around them. -/
inductive Inline : Bool → Type where
  | print {closed : Bool} (e : Expr) : Inline closed
  | assign {closed : Bool} (name : String) (e : Expr) : Inline closed
  | ifThen (condition : Expr) (body : Inline false) : Inline false
  | ifElse {closed : Bool} (condition : Expr) (body : Inline true) (other : Inline closed) :
      Inline closed

/-- The test of a `DO` loop. -/
structure LoopTest where
  isUntil : Bool
  condition : Expr

/-- The end of a `DO` loop at which its test stands, if it has one. -/
inductive LoopEnds where
  | endless
  | front (test : LoopTest)
  | back (test : LoopTest)

/-- A test of a `CASE`.  The word `IS` in front of a comparison may be left out. -/
inductive CaseTest where
  | value (e : Expr)
  | range (low high : Expr)
  | compare (hasIs : Bool) (c : Comparison) (e : Expr)

mutual

/-- A statement. -/
inductive Stmt where
  | line (s : Inline false)
  | condition (c : Expr) (body : Body) (rest : Branches)
  | counting (name : String) (start stop : Expr) (step : Option Expr) (body : Body)
      (closer : Option { other : String // upper other = upper name })
  | whileLoop (c : Expr) (body : Body)
  | doLoop (ends : LoopEnds) (body : Body)
  | selection (e : Expr) (cases : Cases)

/-- Statements one after another. -/
inductive Body where
  | done
  | next (s : Stmt) (rest : Body)

/-- The branches of a block `IF` behind its first one. -/
inductive Branches where
  | done
  | elseIf (c : Expr) (body : Body) (rest : Branches)
  | otherwise (body : Body)

/-- The cases of a selection. -/
inductive Cases where
  | done
  | case (first : CaseTest) (more : List CaseTest) (body : Body) (rest : Cases)
  | otherwise (body : Body)

end

/-! ### Spelling -/

/-- The tokens of a statement on one line. -/
def Inline.spelling {closed : Bool} : Inline closed → List Token
  | print e => .word "PRINT" :: e.written
  | assign name e => .named name :: .sign "=" :: e.written
  | ifThen c body => .word "IF" :: (c.written ++ .word "THEN" :: body.spelling)
  | ifElse c body other =>
    .word "IF" :: (c.written ++ .word "THEN" :: (body.spelling ++ .word "ELSE" :: other.spelling))

/-- The tokens of a loop's test. -/
def LoopTest.spelling (test : LoopTest) : List Token :=
  .word (if test.isUntil then "UNTIL" else "WHILE") :: test.condition.written

/-- The tokens of a test in front of a loop's body. -/
def LoopEnds.frontSpelling : LoopEnds → List Token
  | front test => test.spelling
  | _ => []

/-- The tokens of a test behind a loop's body. -/
def LoopEnds.backSpelling : LoopEnds → List Token
  | back test => test.spelling
  | _ => []

/-- The tokens of the step of a `FOR`, if it has one. -/
def stepSpelling : Option Expr → List Token
  | none => []
  | some e => .word "STEP" :: e.written

/-- The name behind `NEXT`, if there is one. -/
def closerSpelling {name : String} :
    Option { other : String // upper other = upper name } → List Token
  | none => []
  | some other => [.named other.1]

/-- Whether a loop is one whose test, if it has one, stands behind its body. -/
def LoopEnds.testsBehind : LoopEnds → Bool
  | front _ => false
  | _ => true

/-- The tokens of a case's test. -/
def CaseTest.spelling : CaseTest → List Token
  | value e => e.written
  | range low high => low.written ++ .word "TO" :: high.written
  | compare hasIs c e => (if hasIs then [.word "IS"] else []) ++ .sign c.sign :: e.written

/-- Tests with commas between them. -/
def CaseTest.listSpelling (first : CaseTest) : List CaseTest → List Token
  | [] => first.spelling
  | second :: more => first.spelling ++ .mark "," :: listSpelling second more

mutual

/-- The tokens of a statement, without the end of its last line. -/
def Stmt.spelling : Stmt → List Token
  | .line s => s.spelling
  | .condition c body rest =>
    .word "IF" :: (c.written ++ .word "THEN" :: .lineEnd :: (body.spelling ++ (rest.spelling ++
      [.word "END", .word "IF"])))
  | .counting name start stop step body closer =>
    .word "FOR" :: .named name :: .sign "=" :: (start.written ++ .word "TO" :: (stop.written ++
      (stepSpelling step ++ .lineEnd :: (body.spelling ++ .word "NEXT" :: closerSpelling closer))))
  | .whileLoop c body =>
    .word "WHILE" :: (c.written ++ .lineEnd :: (body.spelling ++ [.word "WEND"]))
  | .doLoop ends body =>
    .word "DO" :: (ends.frontSpelling ++ .lineEnd ::
      (body.spelling ++ .word "LOOP" :: ends.backSpelling))
  | .selection e cases =>
    .word "SELECT" :: .word "CASE" ::
      (e.written ++ .lineEnd :: (cases.spelling ++ [.word "END", .word "SELECT"]))

/-- The tokens of statements, each with the end of its line. -/
def Body.spelling : Body → List Token
  | .done => []
  | .next s rest => s.spelling ++ .lineEnd :: rest.spelling

/-- The tokens of further branches. -/
def Branches.spelling : Branches → List Token
  | .done => []
  | .elseIf c body rest =>
    .word "ELSEIF" :: (c.written ++ .word "THEN" :: .lineEnd :: (body.spelling ++ rest.spelling))
  | .otherwise body => .word "ELSE" :: .lineEnd :: body.spelling

/-- The tokens of cases. -/
def Cases.spelling : Cases → List Token
  | .done => []
  | .case first more body rest =>
    .word "CASE" :: (CaseTest.listSpelling first more ++ .lineEnd ::
      (body.spelling ++ rest.spelling))
  | .otherwise body => .word "CASE" :: .word "ELSE" :: .lineEnd :: body.spelling

end

/-! ### Names -/

/-- The names met so far, by their capital forms: the JavaScript name for the first spelling that
was met, and the JavaScript name that was declared.  `hoisted` are the names to be declared at the
top, as they were spelled where that turned out. -/
structure Ledger where
  met : Table String := []
  declared : Table String := []
  hoisted : List String := []

namespace Ledger

/-- The ledger after a name was met. -/
def meet (l : Ledger) (name : String) : Ledger :=
  match l.met.get? (upper name) with
  | some _ => l
  | none => { l with met := l.met.insert (upper name) (identifier name) }

/-- Whether a name is declared. -/
def declares (l : Ledger) (name : String) : Bool := l.declared.holds (upper name)

/-- The ledger with a name declared by an assignment to it, at the top if the assignment cannot
declare it itself. -/
def assign (l : Ledger) (atTop : Bool) (name : String) : Ledger :=
  if l.declares name then l
  else
    { l with
      declared := l.declared.insert (upper name) (identifier name)
      hoisted := if atTop then l.hoisted ++ [name] else l.hoisted }

/-- The ledger after a name was met in an expression, which declares it at the top. -/
def use (l : Ledger) (name : String) : Ledger := (l.meet name).assign true name

/-- The ledger after names were met in an expression. -/
def useAll (l : Ledger) (names : List String) : Ledger := names.foldl use l

/-- The JavaScript name that was declared for a name. -/
def nameOf (l : Ledger) (name : String) : String :=
  (l.declared.get? (upper name)).getD (identifier name)

/-- The JavaScript name for the first spelling of a name. -/
def firstName (l : Ledger) (name : String) : String :=
  (l.met.get? (upper name)).getD (identifier name)

@[simp] theorem declared_meet (l : Ledger) (name : String) :
    (l.meet name).declared = l.declared := by
  unfold meet
  split <;> rfl

@[simp] theorem hoisted_meet (l : Ledger) (name : String) : (l.meet name).hoisted = l.hoisted := by
  unfold meet
  split <;> rfl

@[simp] theorem useAll_nil (l : Ledger) : l.useAll [] = l := rfl

theorem useAll_cons (l : Ledger) (name : String) (names : List String) :
    l.useAll (name :: names) = (l.use name).useAll names :=
  rfl

theorem useAll_append (l : Ledger) (a b : List String) :
    l.useAll (a ++ b) = (l.useAll a).useAll b :=
  List.foldl_append ..

section Declared

variable {l : Ledger} {name key js : String} {atTop : Bool} {names : List String}

theorem get?_assign_of_some (h : l.declared.get? key = some js) :
    (l.assign atTop name).declared.get? key = some js := by
  unfold assign
  split
  · exact h
  · rename_i hnot
    rw [Table.get?_insert, if_neg]
    · exact h
    · rintro rfl
      simp [declares, Table.holds, h] at hnot

theorem get?_useAll_of_some (h : l.declared.get? key = some js) :
    (l.useAll names).declared.get? key = some js := by
  induction names generalizing l with
  | nil => exact h
  | cons name names ih => exact ih (get?_assign_of_some (by rwa [declared_meet]))

theorem exists_get?_assign : ∃ js, (l.assign atTop name).declared.get? (upper name) = some js := by
  unfold assign
  split
  · exact Option.isSome_iff_exists.1 ‹_›
  · exact ⟨_, by rw [Table.get?_insert, if_pos rfl]⟩

theorem exists_get?_useAll (hmem : name ∈ names) :
    ∃ js, (l.useAll names).declared.get? (upper name) = some js := by
  induction names generalizing l with
  | nil => cases hmem
  | cons first names ih =>
    rcases List.mem_cons.1 hmem with rfl | hmem
    · obtain ⟨js, hjs⟩ : ∃ js, (l.use name).declared.get? (upper name) = some js :=
        exists_get?_assign
      rw [useAll_cons]
      exact ⟨js, get?_useAll_of_some hjs⟩
    · exact ih hmem

theorem nameOf_of_not_declares (h : l.declares name = false) : l.nameOf name = identifier name := by
  rw [declares, Table.holds, Option.isSome_eq_false_iff, Option.isNone_iff_eq_none] at h
  rw [nameOf, h]
  rfl

/-- Further names do not change what a name is called. -/
theorem nameOf_useAll (h : l.declares name = true) :
    (l.useAll names).nameOf name = l.nameOf name := by
  obtain ⟨js, hjs⟩ := Option.isSome_iff_exists.1 h
  rw [nameOf, nameOf, get?_useAll_of_some hjs, hjs]

theorem declares_useAll_of_declares (h : l.declares name = true) :
    (l.useAll names).declares name = true := by
  obtain ⟨js, hjs⟩ := Option.isSome_iff_exists.1 h
  exact Option.isSome_iff_exists.2 ⟨js, get?_useAll_of_some hjs⟩

theorem declares_useAll (hmem : name ∈ names) : (l.useAll names).declares name = true :=
  Option.isSome_iff_exists.2 (exists_get?_useAll hmem)

theorem declares_use : (l.use name).declares name = true :=
  show (l.useAll [name]).declares name = true from declares_useAll (List.mem_singleton.2 rfl)

end Declared

end Ledger

/-- The names in a case's test. -/
def CaseTest.names : CaseTest → List String
  | value e => e.names
  | range low high => low.names ++ high.names
  | compare _ _ e => e.names

/-- The names in a test in front of a loop's body. -/
def LoopEnds.frontNames : LoopEnds → List String
  | front test => test.condition.names
  | _ => []

/-- The names in a test behind a loop's body. -/
def LoopEnds.backNames : LoopEnds → List String
  | back test => test.condition.names
  | _ => []

/-- The names in the step of a `FOR`. -/
def stepNames : Option Expr → List String
  | none => []
  | some e => e.names

/-- The depth of a statement directly in the program. -/
def topDepth : Nat := 1

/-- The ledger behind a statement on one line that stands at a depth. -/
def Inline.ledger {closed : Bool} (depth : Nat) : Inline closed → Ledger → Ledger
  | print e, l => l.useAll e.names
  | assign name e, l => ((l.meet name).useAll e.names).assign (depth ≠ topDepth) name
  | ifThen c body, l => body.ledger (depth + 1) (l.useAll c.names)
  | ifElse c body other, l => other.ledger (depth + 1) (body.ledger (depth + 1) (l.useAll c.names))

mutual

/-- The ledger behind a statement that stands at a depth. -/
def Stmt.ledger (depth : Nat) : Stmt → Ledger → Ledger
  | .line s, l => s.ledger depth l
  | .condition c body rest, l => rest.ledger depth (body.ledger (depth + 1) (l.useAll c.names))
  | .counting name start stop step body _, l =>
    body.ledger (depth + 1) (l.useAll (name :: (start.names ++ (stop.names ++ stepNames step))))
  | .whileLoop c body, l => body.ledger (depth + 1) (l.useAll c.names)
  | .doLoop ends body, l =>
    (body.ledger (depth + 1) (l.useAll ends.frontNames)).useAll ends.backNames
  | .selection e cases, l => cases.ledger (depth + 1) (l.useAll e.names)

/-- The ledger behind statements. -/
def Body.ledger (depth : Nat) : Body → Ledger → Ledger
  | .done, l => l
  | .next s rest, l => rest.ledger depth (s.ledger depth l)

/-- The ledger behind further branches. -/
def Branches.ledger (depth : Nat) : Branches → Ledger → Ledger
  | .done, l => l
  | .elseIf c body rest, l => rest.ledger depth (body.ledger (depth + 1) (l.useAll c.names))
  | .otherwise body, l => body.ledger (depth + 1) l

/-- The ledger behind cases. -/
def Cases.ledger (depth : Nat) : Cases → Ledger → Ledger
  | .done, l => l
  | .case first more body rest, l =>
    rest.ledger depth (body.ledger (depth + 1) (l.useAll ((first :: more).flatMap CaseTest.names)))
  | .otherwise body, l => body.ledger (depth + 1) l

end

/-! ### Translation -/

/-- A line of the translation.  If it declares the variable to which it assigns, `let` is put in
front. -/
structure Row where
  depth : Nat
  text : String
  declares : Bool := false
deriving Repr, DecidableEq

/-- The line that a row stands for. -/
def Row.line (row : Row) : Line :=
  ⟨row.depth, if row.declares then "let " ++ row.text else row.text⟩

mutual

/-- The number of selections in a statement. -/
def Stmt.selections : Stmt → Nat
  | .line _ => 0
  | .condition _ body rest => body.selections + rest.selections
  | .counting _ _ _ _ body _ => body.selections
  | .whileLoop _ body => body.selections
  | .doLoop _ body => body.selections
  | .selection _ cases => 1 + cases.selections

/-- The number of selections in statements. -/
def Body.selections : Body → Nat
  | .done => 0
  | .next s rest => s.selections + rest.selections

/-- The number of selections in further branches. -/
def Branches.selections : Branches → Nat
  | .done => 0
  | .elseIf _ body rest => body.selections + rest.selections
  | .otherwise body => body.selections

/-- The number of selections in cases. -/
def Cases.selections : Cases → Nat
  | .done => 0
  | .case _ _ body rest => body.selections + rest.selections
  | .otherwise body => body.selections

end

section Translation

variable (call : Ledger → String → String)

/-- A row that opens a brace, and one that closes it, around other rows. -/
def braced (depth : Nat) (front : String) (rows : List Row) (back : String) : List Row :=
  ⟨depth, front, false⟩ :: (rows ++ [⟨depth, back, false⟩])

/-- The rows of a statement on one line, for a ledger in front of it. -/
def Inline.rows {closed : Bool} (depth : Nat) : Inline closed → Ledger → List Row
  | print e, l => [⟨depth, "_print(" ++ e.rendered (call (l.useAll e.names)) ++ ", true);", false⟩]
  | assign name e, l =>
    let behind := (l.meet name).useAll e.names
    [⟨depth, call l name ++ " = " ++ e.rendered (call behind) ++ ";",
      depth = topDepth && !behind.declares name⟩]
  | ifThen c body, l =>
    let inside := l.useAll c.names
    braced depth ("if (" ++ c.rendered (call inside) ++ ") \x7b")
      (body.rows (depth + 1) inside) "\x7d"
  | ifElse c body other, l =>
    let inside := l.useAll c.names
    braced depth ("if (" ++ c.rendered (call inside) ++ ") \x7b")
      (body.rows (depth + 1) inside ++ ⟨depth, "\x7d else \x7b", false⟩ ::
        other.rows (depth + 1) (body.ledger (depth + 1) inside)) "\x7d"

/-- The condition under which a loop goes on. -/
def LoopTest.rendered (js : String → String) (test : LoopTest) : String :=
  if test.isUntil then "(!(" ++ test.condition.rendered js ++ "))"
  else "(" ++ test.condition.rendered js ++ ")"

/-- The first line of a `DO` loop. -/
def LoopEnds.frontText (js : String → String) : LoopEnds → String
  | front test => "while " ++ test.rendered js ++ " \x7b"
  | _ => "do \x7b"

/-- The last line of a `DO` loop. -/
def LoopEnds.backText (js : String → String) : LoopEnds → String
  | endless => "\x7d while (true);"
  | front _ => "\x7d"
  | back test => "\x7d while " ++ test.rendered js ++ ";"

/-- The first line of a `FOR` loop over a variable.  The sign of its step says where its limit
lies. -/
def countingLine (v start limit step : String) : String :=
  "for (" ++ v ++ " = " ++ start ++ "; (" ++ step ++ " >= 0) ? " ++ v ++
    " <= " ++ limit ++ " : " ++ v ++ " >= " ++ limit ++ "; " ++ v ++ " += " ++ step ++ ") \x7b"

/-- The first line of a `FOR` loop. -/
def countingText (js : String → String) (name : String) (start stop : Expr) (step : Option Expr) :
    String :=
  countingLine (js name) (start.rendered js) (stop.rendered js) (step.elim "1" (Expr.rendered js))

/-- The name of the variable that keeps the value of a selection. -/
def selectionName (number : Nat) : String := "_select_" ++ toString number

/-- A test of a case on a value. -/
def CaseTest.rendered (js : String → String) (value : String) : CaseTest → String
  | .value e => value ++ " === " ++ e.rendered js
  | range low high =>
    "(" ++ value ++ " >= " ++ low.rendered js ++ " && " ++ value ++
      " <= " ++ high.rendered js ++ ")"
  | compare _ c e => value ++ " " ++ c.script ++ " " ++ e.rendered js

/-- The line of a case.  That of one which is not the first closes the case before it. -/
def caseText (isFirst : Bool) (test : Option String) : String :=
  match test with
  | some test => (if isFirst then "if (" else "\x7d else if (") ++ test ++ ") \x7b"
  | none => if isFirst then "if (true) \x7b" else "\x7d else \x7b"

mutual

/-- The rows of a statement, for a ledger and the number of selections in front of it. -/
def Stmt.rows (depth : Nat) : Stmt → Ledger → Nat → List Row
  | .line s, l, _ => s.rows call depth l
  | .condition c body rest, l, n =>
    let inside := l.useAll c.names
    braced depth ("if (" ++ c.rendered (call inside) ++ ") \x7b")
      (body.rows (depth + 1) inside n ++ rest.rows depth (body.ledger (depth + 1) inside)
        (n + body.selections)) "\x7d"
  | .counting name start stop step body _, l, n =>
    let inside := l.useAll (name :: (start.names ++ (stop.names ++ stepNames step)))
    braced depth (countingText (call inside) name start stop step)
      (body.rows (depth + 1) inside n) "\x7d"
  | .whileLoop c body, l, n =>
    let inside := l.useAll c.names
    braced depth ("while (" ++ c.rendered (call inside) ++ ") \x7b")
      (body.rows (depth + 1) inside n) "\x7d"
  | .doLoop ends body, l, n =>
    let inside := l.useAll ends.frontNames
    let behind := (body.ledger (depth + 1) inside).useAll ends.backNames
    braced depth (ends.frontText (call inside)) (body.rows (depth + 1) inside n)
      (ends.backText (call behind))
  | .selection e cases, l, n =>
    let inside := l.useAll e.names
    braced depth "\x7b"
      (⟨depth + 1, "const " ++ selectionName (n + 1) ++ " = " ++ e.rendered (call inside) ++ ";",
        false⟩ ::
        cases.rows (depth + 1) (selectionName (n + 1)) true inside (n + 1)) "\x7d"

/-- The rows of statements. -/
def Body.rows (depth : Nat) : Body → Ledger → Nat → List Row
  | .done, _, _ => []
  | .next s rest, l, n => s.rows depth l n ++ rest.rows depth (s.ledger depth l) (n + s.selections)

/-- The rows of further branches, without the one that closes the last of them. -/
def Branches.rows (depth : Nat) : Branches → Ledger → Nat → List Row
  | .done, _, _ => []
  | .elseIf c body rest, l, n =>
    let inside := l.useAll c.names
    ⟨depth, "\x7d else if (" ++ c.rendered (call inside) ++ ") \x7b", false⟩ ::
      (body.rows (depth + 1) inside n ++
        rest.rows depth (body.ledger (depth + 1) inside) (n + body.selections))
  | .otherwise body, l, n => ⟨depth, "\x7d else \x7b", false⟩ :: body.rows (depth + 1) l n

/-- The rows of cases on a value, with the one that closes the last of them. -/
def Cases.rows (depth : Nat) (value : String) (isFirst : Bool) : Cases → Ledger → Nat → List Row
  | .done, _, _ => if isFirst then [] else [⟨depth, "\x7d", false⟩]
  | .case first more body rest, l, n =>
    let inside := l.useAll ((first :: more).flatMap CaseTest.names)
    let tests := (first :: more).map (CaseTest.rendered (call inside) value)
    ⟨depth, caseText isFirst (some (joinWith " || " tests)), false⟩ ::
      (body.rows (depth + 1) inside n ++
        rest.rows depth value false (body.ledger (depth + 1) inside) (n + body.selections))
  | .otherwise body, l, n =>
    ⟨depth, caseText isFirst none, false⟩ :: (body.rows (depth + 1) l n ++ [⟨depth, "\x7d", false⟩])

end

end Translation

namespace Body

/-- The ledger at the end of a program. -/
def finalLedger (p : Body) : Ledger := p.ledger topDepth {}

/-- The lines of a program: first the declarations of the names that cannot be declared where they
are met, then the rows. -/
def lines (call : Ledger → String → String) (p : Body) : List Line :=
  (p.finalLedger.hoisted.map fun name =>
    ⟨topDepth, "let " ++ call p.finalLedger name ++ " = " ++
      (if isTextName name then "\"\"" else "0") ++ ";"⟩) ++
    (p.rows call topDepth {} 0).map Row.line

end Body

end BasicScript
