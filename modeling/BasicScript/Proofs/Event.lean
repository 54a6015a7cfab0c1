import BasicScript.Proofs.Calling
import BasicScript.Proofs.Letters
import BasicScript.Proofs.Scope
import BasicScript.Proofs.Success

/-!
# What the pass does

The pass has many statements, but it changes its state in few ways.  Each of them is an `Event`: the
cursor moves on, a diagnostic is reported, a name is declared, a line is emitted, a `DATA` statement
is passed, a block is opened, turned or ended, the branches of a single-line `IF` are entered and
left, the parameters of a one-line function are lent their names.  `Event.apply` says what an event
does to the state, and `Event.Fits` when the pass lets it happen.

A run (`Run`) is a sequence of events that fit.  The events of a single-line `IF` come in order: it
is entered, it may turn to its `ELSE` once, and it is left, with a run inside each branch.  Names
that are lent are given back, with a quiet run in between.  A **quiet** event changes neither the
page nor the blocks, and a quiet run has no others.  A run within a line never moves behind the end
of it.
-/

namespace BasicScript

open Script Text List

variable {s : State} {r : Rejection} {level : Level} {e : Event}

/-! ### Changes of the state -/

namespace State

/-- The state with one more line. -/
def addLine (s : State) (text : String) : State := { s with page := s.page.line text }

/-- The state with a line that opens a brace. -/
def openBrace (s : State) (text : String) : State :=
  { s with page := (s.page.line text).indentBy 1 }

/-- The state with a line that closes a brace. -/
def closeBrace (s : State) (text : String) : State := { s with page := s.page.dedent.line text }

/-- The state with a line that closes a brace and opens another. -/
def turnBrace (s : State) (text : String) : State :=
  { s with page := (s.page.dedent.line text).indentBy 1 }

/-- The state with a diagnostic. -/
def reported (s : State) (d : Diagnostic) : State := { s with collector := s.collector.add d }

/-- The state in which a rejection was caught. -/
def catching (s : State) (r : Rejection) : State := { s with caught := r :: s.caught }

/-- The state in which a rejection was caught, and reported unless one on its line was. -/
def refused (s : State) (r : Rejection) : State :=
  if r.line = s.lastRejectedLine then s.catching r
  else { s.catching r with lastRejectedLine := r.line, recorded := r :: s.recorded }.reported
    r.diagnostic

/-- The state with a block that a token opens. -/
def pushBlock (s : State) (form : BlockForm) (token : Token) : State :=
  { s with
    blocks := ⟨form, token.line, token.column⟩ :: s.blocks
    opened := ⟨form, token.line, token.column⟩ :: s.opened }

/-- The state with its innermost block taken off, by its own closing statement or without one. -/
def without (s : State) (block : Block) (rest : List Block) (closed : Bool) : State :=
  { s with blocks := rest, removed := ⟨block, closed, !s.floors.isEmpty⟩ :: s.removed }

/-- The state with the innermost block in another form. -/
def reform (s : State) (form : BlockForm) : State :=
  match s.blocks with
  | [] => s
  | block :: rest => { s with blocks := { block with form } :: rest }

/-- The form of the innermost block. -/
def topForm? (s : State) : Option BlockForm := s.blocks.head?.map Block.form

/-- The state with a declaration, here or at the top of the current scope. -/
def written (s : State) (d : Declaration) : State :=
  let s := { s with scopes := s.scopes.note d }
  if d.atTop then { s with scopes := s.scopes.hoist d.text } else s.addLine d.text

/-- The statement at hand stands directly in its scope, in no block and no single-line `IF`. -/
def AtBase (s : State) : Prop := s.floors = [] ∧ s.blocks.length = s.scopes.current.base

/-- A name is a parameter of the procedure around the statement at hand. -/
def HasParameter (s : State) (x : String) : Prop :=
  s.scopes.isModule = false ∧ ∃ header ∈ s.headers.head?,
    s.scopes.current.name.map upper = some header.key ∧ x ∈ header.parameters

/-- How many of the open blocks a statement cannot reach. -/
def floor (s : State) : Nat := max s.scopes.current.base (s.floors.head?.getD 0)

/-- The state behind the body of a procedure: its hoisted declarations stand at its top, and its
scope is closed. -/
def leaveProcedure (s : State) : State :=
  let scope := s.scopes.current
  let page :=
    if scope.hoisted.isEmpty then s.page
    else s.page.insert scope.mark scope.hoisted scope.indent
  closeBrace { s with
      page
      scopes :=
        { s.scopes with
          inner := s.scopes.inner.tail
          closed := s.scopes.closed ++ [scope.declared]
          tops := s.scopes.tops ++ [scope.top] } }
    "\x7d"

/-- The state in which a block that was just taken off is ended. -/
def finish (s : State) : BlockForm → State
  | .sub => s.leaveProcedure
  | .function result => (s.addLine ("return " ++ result ++ ";")).leaveProcedure
  | .selection _ cases _ =>
    if 0 < cases then (s.closeBrace "\x7d").closeBrace "\x7d" else s.closeBrace "\x7d"
  | .looping true => s.closeBrace "\x7d while (true);"
  | .condition _ | .counting _ | .looping false | .whileLoop => s.closeBrace "\x7d"

/-- The state in which a block is ended by its own closing statement, which may have a test. -/
def finishWith (s : State) (form : BlockForm) : Option String → State
  | some test => s.closeBrace ("\x7d while " ++ test ++ ";")
  | none => s.finish form

/-- Ending a block changes the page and the scopes only. -/
theorem finish_eq (s : State) (form : BlockForm) :
    ∃ page scopes, s.finish form = { s with page, scopes } := by
  unfold State.finish
  split
  · exact ⟨_, _, rfl⟩
  · exact ⟨_, _, rfl⟩
  · split <;> exact ⟨_, s.scopes, rfl⟩
  all_goals exact ⟨_, s.scopes, rfl⟩

@[simp] theorem finish_blocks (s : State) (form : BlockForm) :
    (s.finish form).blocks = s.blocks := by
  obtain ⟨page, scopes, h⟩ := s.finish_eq form
  rw [h]

theorem finishWith_eq (s : State) (form : BlockForm) (test : Option String) :
    ∃ page scopes, s.finishWith form test = { s with page, scopes } := by
  cases test with
  | none => exact s.finish_eq form
  | some t => exact ⟨_, s.scopes, rfl⟩

theorem refused_of_eq (h : r.line = s.lastRejectedLine) : s.refused r = s.catching r := if_pos h

theorem refused_of_ne (h : r.line ≠ s.lastRejectedLine) : s.refused r = State.reported
    { s with caught := r :: s.caught, lastRejectedLine := r.line, recorded := r :: s.recorded }
      r.diagnostic :=
  if_neg h

theorem refused_eq (s : State) (r : Rejection) : ∃ caught recorded line ds, s.refused r = { s with
      caught, recorded, lastRejectedLine := line, collector := s.collector.addAll ds } := by
  by_cases h : r.line = s.lastRejectedLine
  · exact ⟨_, _, _, [], refused_of_eq h⟩
  · exact ⟨_, _, _, [r.diagnostic], refused_of_ne h⟩

theorem written_eq (s : State) (d : Declaration) :
    ∃ page scopes, s.written d = { s with page, scopes } := by
  unfold State.written
  dsimp only
  split
  · exact ⟨s.page, _, rfl⟩
  · exact ⟨_, _, rfl⟩

theorem reform_eq (s : State) (form : BlockForm) : ∃ blocks, s.reform form = { s with blocks } := by
  unfold State.reform
  split
  · exact ⟨s.blocks, rfl⟩
  · exact ⟨_, rfl⟩

end State

/-! ### Names and tables -/

/-- A change of the names in scope. -/
inductive Naming where
  | declares (name : String) (v : Variable)
  | shares (name : String) (ref : Option Ref)
  | refines (ref : Ref) (isArray : Bool) (record : Option String)

namespace Naming

/-- What a change does. -/
def apply (s : Scopes) : Naming → Scopes
  | declares name v => (s.declare name v).2
  | shares name ref => s.share name ref
  | refines ref isArray record =>
    s.modify ref fun v => { v with isArray := v.isArray || isArray, record := record.or v.record }

/-- Variables are called as the source does.  A name is shared as what it refers to. -/
def Fits (tape : Tape) (s : Scopes) : Naming → Prop
  | declares name v => tape.Called (upper name) v.name
  | shares name ref => ref.isSome = true ∧ s.lookup? name = ref
  | refines _ _ _ => True

/-- Whether a change declares a variable. -/
def declares? : Naming → Option Variable
  | declares _ v => some v
  | _ => none

end Naming

namespace Scopes

/-- The scopes in which a parameter hides a name. -/
def hide (s : Scopes) (p : Emit.Parameter) : Scopes :=
  (s.allocate p.slot).2.bind p.name (s.allocate p.slot).1

/-- The scopes in which parameters hide names, one after another. -/
def hideAll (s : Scopes) (list : List Emit.Parameter) : Scopes := list.foldl hide s

/-- What the names of parameters refer to, each in front of the parameter. -/
def hidden (s : Scopes) : List Emit.Parameter → List (String × Option Ref)
  | [] => []
  | p :: rest => (p.name, s.local? p.name) :: (s.hide p).hidden rest

/-- The scopes with a name given back what it referred to. -/
def giveBack (s : Scopes) : String × Option Ref → Scopes
  | (name, some ref) => s.bind name ref
  | (name, none) => s.forget name

/-- Names can be given back what they referred to: to cells that are there, or to nothing, if no
declaration of the name was made. -/
structure Restorable (s : Scopes) (list : List (String × Option Ref)) : Prop where
  refs : ∀ name ref, (name, some ref) ∈ list → ref < s.cells.size
  undeclared : ∀ name, (name, none) ∈ list → ¬s.current.Declares (upper name)

end Scopes

/-- Something that the pass keeps in one of its tables. -/
inductive Entry where
  | data (values : List String)
  | procedure (key : String) (procedure : Procedure)
  | function (key jsName : String)
  | record (key : String) (type : RecordType)
  | call (call : Call)

namespace Entry

/-- The state with an entry. -/
def apply (s : State) : Entry → State
  | data values => { s with dataValues := s.dataValues ++ values }
  | procedure key p => { s with procedures := s.procedures.insert key p }
  | function key jsName => { s with functions := s.functions.insert key jsName }
  | record key type => { s with records := s.records.insert key type }
  | call c => { s with calls := c :: s.calls }

/-- What lines refer to is called as the source does.  The first procedure of a name stands, and a
call has as many arguments as it has parameters, or an error was reported.  A one-line function
comes from its keyword. -/
def Fits (tape : Tape) (s : State) : Entry → Prop
  | data _ => True
  | procedure key p => tape.Titled key p.jsName ∧ s.procedures.holds key = false
  | function key jsName =>
    tape.Titled key jsName ∧ ∃ token ∈ tape.tokens, token.isKeyword "DEF" = true
  | record key type => tape.Titled key type.maker
  | call c =>
    HasError s.collector.toList ∨ ∃ p, s.procedures.get? c.key = some p ∧
      p.parameters = c.arguments.length

end Entry

/-! ### Messages -/

/-- The reports on blocks that were never closed. -/
def unclosedMessages : List String :=
  [BlockKind.condition, .counting, .looping, .whileLoop, .selection, .procedure .sub,
    .procedure .function].map
    BlockKind.unclosed

theorem mem_unclosedMessages (kind : BlockKind) : kind.unclosed ∈ unclosedMessages := by
  refine mem_map_of_mem ?_
  cases kind with
  | procedure kind => cases kind <;> simp
  | _ => simp

/-- A message that is told from the report on an unclosed block by its front: neither begins with
the other. -/
def Apart (message : String) : Prop :=
  ∀ text ∈ unclosedMessages, ¬ text.toList <+: message.toList ∧ ¬ message.toList <+: text.toList

def unclosedLetters : Letters unclosedMessages := by
  apply Subtype.mk
  case property =>
    simp only [unclosedMessages, map_cons, map_nil, BlockKind.unclosed]
    repeat' apply letters_cons
    exact map_nil.symm

namespace Apart

variable {message front back : String}

/-- Whether a message is told apart shows in its letters. -/
theorem of_letters {letters : List Char} (h : message = String.ofList letters)
    (hapart : (unclosedLetters.1.all fun text =>
      !(text.isPrefixOf letters || letters.isPrefixOf text)) = true) :
    Apart message := by
  subst h
  refine unclosedLetters.forall_mem fun text htext => ?_
  have htext := all_eq_true.1 hapart text htext
  simpa [Bool.or_eq_false_iff, ← isPrefixOf_iff_prefix] using htext

/-- The front alone tells. -/
theorem append (h : Apart front) : Apart (front ++ back) := by
  intro text htext
  obtain ⟨hlonger, hshorter⟩ := h text htext
  have hfront : front.toList <+: (front ++ back).toList := by simp
  refine ⟨fun hprefix => ?_, fun hprefix => hshorter (hfront.trans hprefix)⟩
  have hcases := prefix_or_prefix_of_prefix hprefix hfront
  exact hcases.elim hlonger hshorter

end Apart

/-- A closing statement without its block is another matter. -/
theorem apart_stray (kind : BlockKind) : Apart kind.stray := by
  cases kind with
  | procedure kind => cases kind <;> exact .of_letters rfl rfl
  | _ => exact .of_letters rfl rfl

/-! ### Declared names -/

/-- The name that a line declares: the word behind its first blank. -/
def declaredName (text : String) : String :=
  String.ofList (((text.toList.dropWhile (· ≠ ' ')).drop 1).takeWhile (· ≠ ' '))

theorem declaredName_eq {text x : String} {keyword rest : List Char} (hx : Wordy x)
    (hkeyword : ' ' ∉ keyword) (htext : text.toList = keyword ++ ' ' :: (x.toList ++ ' ' :: rest)) :
    declaredName text = x := by
  have hblank : isPlain ' ' = false := by decide
  have hword : ∀ c ∈ x.toList, decide (c ≠ ' ') = true := by
    intro c hc
    have hplain := hx.2 c hc
    rw [decide_eq_true_eq]
    rintro rfl
    rw [hblank] at hplain
    cases hplain
  have hfront : ∀ c ∈ keyword, decide (c ≠ ' ') = true :=
    fun c hc => decide_eq_true (ne_of_mem_of_not_mem hc hkeyword)
  rw [declaredName, htext, dropWhile_append_of_pos hfront, dropWhile_cons_of_neg (by simp),
    drop_succ_cons, drop_zero, takeWhile_append_of_pos hword, takeWhile_cons_of_neg (by simp),
    append_nil, String.ofList_toList]

/-- A line that declares a name with a value. -/
def IsDeclaration (text name : String) : Prop :=
  ∃ value, text = "let " ++ name ++ " = " ++ value ++ ";" ∨
    text = "const " ++ name ++ " = " ++ value ++ ";"

/-! ### Events -/

/-- What the pass does to its state in one go. -/
inductive Event where
  /-- The cursor moves on in its line. -/
  | advances
  /-- The cursor moves behind the end of a line. -/
  | breaks
  | reports (d : Diagnostic)
  | records (rejection : Rejection)
  | counts
  | names (naming : Naming)
  | enrols (entry : Entry)
  /-- A `DATA` statement ends, whose items began at a place. -/
  | passes (start : Int)
  /-- A name is declared with a line, here or at the top of the scope. -/
  | introduces (name : String) (v : Variable) (d : Declaration)
  /-- A one-line function is declared directly in its scope. -/
  | defines (d : Declaration)
  | emits (text : String)
  /-- An `EXIT` leaves a loop. -/
  | exits (kind : BlockKind)
  /-- A statement opens a block with a line. -/
  | opens (form : BlockForm) (text : String) (token : Token)
  /-- `SELECT CASE` opens a block with two lines. -/
  | selects (value selector : String) (token : Token)
  /-- A procedure begins. -/
  | begins (kind : ProcedureKind) (name jsName : String) (parameters : List String) (token : Token)
  /-- `CASE`, with its test unless it is `CASE ELSE`. -/
  | tests (test : Option String)
  | elseIfs (condition : String)
  | elses
  /-- The closing statement of a block, which may have a test. -/
  | ends (test : Option String)
  /-- A block that was never closed is reported and ended. -/
  | abandons
  /-- A single-line `IF` begins. -/
  | enters (condition : String)
  /-- A single-line `IF` turns to its `ELSE`. -/
  | turns
  /-- A single-line `IF` ends. -/
  | leaves
  /-- The parameters of a one-line function hide names. -/
  | lends (list : List Emit.Parameter)
  /-- Hidden names are given back what they referred to. -/
  | regains (before : List (String × Option Ref))

/-- The form of the block of a procedure. -/
def ProcedureKind.form (jsName : String) : ProcedureKind → BlockForm
  | sub => .sub
  | function => .function (jsName ++ "_result")

/-- The first line of a procedure. -/
def headerLine (jsName parameters : String) : String :=
  "async function " ++ jsName ++ "(" ++ parameters ++ ") \x7b"

/-- The line of a case, and whether it is the first one. -/
def State.caseLine (s : State) (cases : Nat) : Option String → State
  | some test =>
    if cases = 0 then s.openBrace ("if (" ++ test ++ ") \x7b")
    else s.turnBrace ("\x7d else if (" ++ test ++ ") \x7b")
  | none => if cases = 0 then s.openBrace "if (true) \x7b" else s.turnBrace "\x7d else \x7b"

theorem State.caseLine_eq (s : State) (cases : Nat) (test : Option String) :
    ∃ page, s.caseLine cases test = { s with page } := by
  cases test <;> simp only [State.caseLine] <;> split <;> exact ⟨_, rfl⟩

/-- What an event does. -/
def Event.apply (s : State) : Event → State
  | advances | breaks => { s with position := s.position + 1 }
  | reports d => s.reported d
  | records r => s.refused r
  | counts => { s with temporaries := s.temporaries + 1 }
  | names naming => { s with scopes := naming.apply s.scopes }
  | enrols entry => entry.apply s
  | passes start => { s with dataPassed := s.dataPassed ++ [(start, s.position)] }
  | introduces name v d => { s with scopes := (s.scopes.declare name v).2 }.written d
  | defines d => s.written d
  | emits text => s.addLine text
  | exits kind => { s with exits := ⟨kind, s.page.log.size, s.blocks⟩ :: s.exits }.addLine "break;"
  | opens form text token => (s.openBrace text).pushBlock form token
  | selects value selector token =>
    ((s.openBrace "\x7b").addLine ("const " ++ value ++ " = " ++ selector ++ ";")).pushBlock
      (.selection value 0 false) token
  | begins kind name jsName parameters token =>
    let s := s.openBrace (headerLine jsName (commas parameters))
    let scopes := (s.scopes.push kind.scope (some name) s.page.mark s.page.indent).mapCurrent
      ({ · with base := s.blocks.length + 1, start := s.page.log.size })
    { s with scopes, headers := ⟨upper name, parameters⟩ :: s.headers }.pushBlock
      (kind.form jsName) token
  | tests test =>
    match s.topForm? with
    | some (.selection value cases hasElse) =>
      (s.caseLine cases test).reform (.selection value (cases + 1) (hasElse || test.isNone))
    | _ => s
  | elseIfs condition => s.turnBrace ("\x7d else if (" ++ condition ++ ") \x7b")
  | elses => (s.reform (.condition true)).turnBrace "\x7d else \x7b"
  | ends test =>
    match s.blocks with
    | [] => s
    | block :: rest => (s.without block rest true).finishWith block.form test
  | abandons =>
    match s.blocks with
    | [] => s
    | block :: rest =>
      ((s.without block rest false).reported
        { severity := .error, category := .syntactic, message := block.kind.unclosed,
          line := block.line, column := block.column }).finish block.form
  | enters condition =>
    let s := s.openBrace ("if (" ++ condition ++ ") \x7b")
    { s with floors := s.blocks.length :: s.floors }
  | turns => s.turnBrace "\x7d else \x7b"
  | leaves => { s with floors := s.floors.drop 1 }.closeBrace "\x7d"
  | lends list => { s with scopes := (s.scopes.lose (list.map (·.name))).hideAll list }
  | regains before => { s with scopes := before.foldl Scopes.giveBack s.scopes }

/-- The line that opens a block, for each form of block that has one. -/
inductive Opener : BlockForm → String → Prop where
  | condition {c : String} (hc : Sealed c) : Opener (.condition false) ("if (" ++ c ++ ") \x7b")
  | counting {v start stop step : String} (hv : Wordy v) (hstart : Sealed start)
      (hstop : Sealed stop) (hstep : Sealed step) :
      Opener (.counting v) ("for (" ++ v ++ " = " ++ start ++ "; (" ++ step ++ " >= 0) ? " ++ v ++
        " <= " ++ stop ++ " : " ++ v ++ " >= " ++ stop ++ "; " ++ v ++ " += " ++ step ++ ") \x7b")
  | testing {c : String} (hc : Sealed c) : Opener (.looping false) ("while " ++ c ++ " \x7b")
  | looping : Opener (.looping true) "do \x7b"
  | whileLoop {c : String} (hc : Sealed c) : Opener .whileLoop ("while (" ++ c ++ ") \x7b")

/-- A place in the source that one of its tokens has. -/
def Tape.Has (tape : Tape) (line column : Int) : Prop :=
  ∃ token ∈ tape.tokens, token.line = line ∧ token.column = column

/-- The token at a place is on a line. -/
def Tape.LineAt (tape : Tape) (place line : Int) : Prop :=
  ∃ token, tape.tokens[place.toNat]? = some token ∧ token.line = line

/-- A statement may be rejected: at a token on the line of the cursor, and not as a block that was
never closed. -/
structure Rejection.Fits (tape : Tape) (s : State) (r : Rejection) : Prop where
  place : tape.Has r.line r.column
  line : tape.LineAt s.position r.line
  apart : Apart r.message

/-- Whether a block is a loop. -/
def BlockKind.isLoop : BlockKind → Bool
  | counting | looping | whileLoop => true
  | condition | selection | procedure _ => false

/-- The keyword that opens a block. -/
def BlockKind.opener : BlockKind → String
  | condition => "IF"
  | counting => "FOR"
  | looping => "DO"
  | whileLoop => "WHILE"
  | selection => "SELECT"
  | procedure kind => kind.word

/-- A block was opened by the token at a place. -/
def Tape.OpenedAt (tape : Tape) (place : Nat) (block : Block) : Prop :=
  ∃ token, tape.tokens[place]? = some token ∧ token.isKeyword block.kind.opener = true ∧
    token.line = block.line ∧ token.column = block.column

/-- A token may open a block: it is the keyword for it, in front of the cursor and behind those that
opened others. -/
structure Tape.Opens (tape : Tape) (s : State) (kind : BlockKind) (token : Token) : Prop where
  keyword : token.isKeyword kind.opener = true
  place : ∃ place : Nat, tape.tokens[place]? = some token ∧ (place : Int) < s.position ∧
    ∀ block ∈ s.opened, ∃ before < place, tape.OpenedAt before block

theorem Tape.Opens.mem {tape : Tape} {kind : BlockKind} {token : Token}
    (h : tape.Opens s kind token) : token ∈ tape.tokens := by
  obtain ⟨place, htoken, -⟩ := h.place
  exact Array.mem_of_getElem? htoken

/-- The innermost block has a form, and a statement can reach it. -/
def State.Tops (s : State) (form : BlockForm) : Prop :=
  s.floor < s.blocks.length ∧ s.topForm? = some form

/-- The items of a `DATA` statement stand at the places from `start` on and before `stop`. -/
structure Tape.DataAt (tape : Tape) (start stop : Int) : Prop where
  pos : 0 < start
  le : start ≤ stop
  keyword : ∃ token, tape.tokens[(start - 1).toNat]? = some token ∧ token.isKeyword "DATA" = true
  inside : ∀ n token, start.toNat ≤ n → n < stop.toNat → tape.tokens[n]? = some token →
    token.endsStatement = false
  ends : ∃ token, tape.tokens[stop.toNat]? = some token ∧ token.endsStatement = true

/-- Whether the announcements are inside a `DATA` statement behind some tokens. -/
def inData (tokens : List Token) : Bool :=
  tokens.foldl (fun inside token => if inside then !Emit.endsData token else token.isKeyword "DATA")
    false

/-- The announcements see a header at a place, if there is one: it stands in no `DATA` statement,
and no keyword in front of it makes something else of it. -/
structure Tape.Free (tape : Tape) (place : Nat) : Prop where
  data : inData (tape.tokens.toList.take place) = false
  front : ∀ token, (tape.tokens.toList.take place).getLast? = some token →
    Emit.precedesNoHeader token = false

theorem inData_append (front : List Token) (token : Token) :
    inData (front ++ [token]) = if inData front then !Emit.endsData token
      else token.isKeyword "DATA" := by
  rw [inData, foldl_append]
  rfl

namespace Tape.Free

variable {tape : Tape} {place : Nat} {token : Token}

theorem zero (tape : Tape) : tape.Free 0 := ⟨rfl, by simp⟩

theorem take_succ (h : tape.tokens[place]? = some token) :
    tape.tokens.toList.take (place + 1) = tape.tokens.toList.take place ++ [token] := by
  rw [take_add_one, Array.getElem?_toList, h]
  rfl

/-- What stands behind a token of no `DATA` statement. -/
theorem next (h : tape.Free place) (ht : tape.tokens[place]? = some token)
    (hdata : token.isKeyword "DATA" = false) (hfront : Emit.precedesNoHeader token = false) :
    tape.Free (place + 1) where
  data := by rw [take_succ ht, inData_append, h.data, if_neg (by simp), hdata]
  front := by
    rw [take_succ ht, getLast?_concat]
    rintro _ ⟨⟩
    exact hfront

/-- What stands behind the end of a `DATA` statement. -/
theorem of_endsData (ht : tape.tokens[place]? = some token) (h : Emit.endsData token = true) :
    tape.Free (place + 1) := by
  have hkind : token.kind ≠ .keyword := by
    simp only [Emit.endsData, Token.endsLine, Token.isMark, Bool.or_eq_true,
      Bool.and_eq_true, decide_eq_true_eq] at h
    rcases h with (hk | hk) | ⟨hk, -⟩ <;> simp [hk]
  have hkeyword (word : String) : token.isKeyword word = false := by simp [Token.isKeyword, hkind]
  constructor
  · rw [take_succ ht, inData_append, h, hkeyword]
    split <;> rfl
  · rw [take_succ ht, getLast?_concat]
    rintro _ ⟨⟩
    simp [Emit.precedesNoHeader, hkeyword]

end Tape.Free

/-- A header of a procedure that the announcements see, with the number of parameters that they
count. -/
structure Tape.HeaderAt (tape : Tape) (place : Nat) (key : String) (parameters : Nat) : Prop where
  free : tape.Free place
  header : ∃ keyword name rest, tape.tokens.toList.drop place = keyword :: name :: rest ∧
    (Emit.headerKind? keyword).isSome = true ∧ name.kind = .identifier ∧ upper name.text = key ∧
    Emit.parameterCount rest = parameters

/-- The token at a place is the end of a line. -/
def Tape.EndsLine (tape : Tape) (place : Int) : Prop :=
  ∃ token, tape.tokens[place.toNat]? = some token ∧ token.kind = .newline

/-- A parameter is called as the source calls it. -/
def Emit.Parameter.Fits (tape : Tape) (p : Emit.Parameter) : Prop :=
  tape.Titled (upper p.name) p.slot.name

/-- When the pass lets an event happen. -/
def Event.Fits (tape : Tape) (s : State) : Event → Prop
  | advances => s.position + 1 < tape.tokens.size ∧ ¬ tape.EndsLine s.position
  | breaks => s.position + 1 < tape.tokens.size ∧ tape.EndsLine s.position
  | reports d => tape.Has d.line d.column ∧ (d.isError = true → Apart d.message)
  | records r => r.Fits tape s
  | counts => True
  | names naming => naming.Fits tape s.scopes ∧ ∀ v ∈ naming.declares?, s.HasParameter v.name
  | enrols entry => entry.Fits tape s
  | passes start => tape.DataAt start s.position ∧ ∀ span ∈ s.dataPassed, span.2 < start
  | introduces name v d =>
    tape.Called d.key v.name ∧ Flat d.text ∧ d.key = upper name ∧ s.scopes.current.Admits d ∧
      declaredName d.text = v.name ∧ IsDeclaration d.text v.name ∧ (d.atTop = false → s.AtBase)
  | defines d =>
    Flat d.text ∧ d.origin = .function ∧ d.atTop = false ∧
      tape.Called d.key (declaredName d.text) ∧ s.AtBase
  | emits text => Flat text
  | exits kind =>
    kind.isLoop = true ∧ (HasError s.collector.toList ∨ ∃ block ∈ s.blocks, block.kind = kind)
  | opens form text token => Opener form text ∧ tape.Opens s form.kind token
  | selects value selector token => Wordy value ∧ Sealed selector ∧ tape.Opens s .selection token
  | begins kind name jsName parameters token =>
    Wordy jsName ∧ Inner (commas parameters) ∧ tape.Opens s (.procedure kind) token ∧
      s.blocks = [] ∧ s.floors = [] ∧
        (HasError s.collector.toList ∨ ∃ place,
          tape.HeaderAt place (upper name) parameters.length) ∧
      (∀ x ∈ parameters, ∃ key, tape.Titled key x) ∧
      ∃ p, s.procedures.get? (upper name) = some p ∧ p.jsName = jsName
  | tests test =>
    (∀ t ∈ test, Inner t) ∧
      ∃ value cases hasElse, s.Tops (.selection value cases hasElse) ∧
        (hasElse = true → HasError s.collector.toList)
  | elseIfs condition =>
    Sealed condition ∧ ∃ hasElse, s.Tops (.condition hasElse) ∧
      (hasElse = true → HasError s.collector.toList)
  | elses => ∃ hasElse, s.Tops (.condition hasElse) ∧ (hasElse = true → HasError s.collector.toList)
  | ends test =>
    ∃ block ∈ s.blocks.head?, (∀ t ∈ test, Sealed t ∧ block.form = .looping true) ∧
      (s.floor < s.blocks.length ∨ ∃ kind, block.kind = .procedure kind)
  | abandons => s.blocks ≠ []
  | enters condition => Sealed condition
  | turns | leaves => ∃ floor rest, s.floors = floor :: rest ∧ s.blocks.length ≤ floor
  | lends list => (∀ p ∈ list, p.Fits tape) ∧ s.functions ≠ []
  | regains before => s.scopes.Restorable before ∧ s.functions ≠ []

/-- Events that change neither the page nor the blocks, and bind no name without a declaration. -/
def Event.isQuiet : Event → Bool
  | advances | reports _ | records _ | counts | enrols _ | passes _ => true
  | introduces _ _ d => d.atTop
  | _ => false

/-- Events of a single-line `IF`. -/
def Event.isInline : Event → Bool
  | enters _ | turns | leaves => true
  | _ => false

/-- Events of a one-line function that hides names. -/
def Event.isLoan : Event → Bool
  | lends _ | regains _ => true
  | _ => false

/-! ### Runs -/

/-- What an action may do: quiet events alone, all that do not leave the line, or all of them. -/
inductive Level where
  | quiet
  | line
  | full
deriving DecidableEq, Repr

/-- Whether an event may happen that is not one of several. -/
def Level.allows : Level → Event → Bool
  | quiet, e => e.isQuiet
  | line, .breaks => false
  | line, e | full, e => !e.isInline && !e.isLoan

theorem Level.allows_of_isQuiet (h : e.isQuiet = true) : level.allows e = true := by
  cases level with
  | quiet => exact h
  | line =>
    cases e with
    | breaks | enters | turns | leaves | lends | regains => cases h
    | _ => rfl
  | full =>
    cases e with
    | enters | turns | leaves | lends | regains => cases h
    | _ => rfl

theorem Level.isInline_of_allows (h : level.allows e = true) : e.isInline = false := by
  cases e with
  | enters | turns | leaves => cases level <;> cases h
  | _ => rfl

/-- A declaration may stand at the top of its scope at every level. -/
theorem Level.allows_introduces {name : String} {v : Variable} {d : Declaration}
    (h : level = .quiet → d.atTop = true) : level.allows (.introduces name v d) = true := by
  cases level with
  | quiet => exact h rfl
  | line | full => rfl

/-- What may happen within a line may happen. -/
theorem Level.allows_of_line (hl : level ≠ .quiet) (h : line.allows e = true) :
    level.allows e = true := by
  cases level with
  | quiet => exact absurd rfl hl
  | line => exact h
  | full =>
    cases e with
    | enters | turns | leaves | lends | regains => cases h
    | _ => rfl

theorem Level.isLoan_of_allows (h : level.allows e = true) : e.isLoan = false := by
  cases e with
  | lends | regains => cases level <;> cases h
  | _ => rfl

/-- Events one after another that all fit.  A single-line `IF` is entered and left, with one run
inside it or, around its `ELSE`, two.  Names are lent and given back, with quiet events between. -/
inductive Run (tape : Tape) (level : Level) : State → List Event → State → Prop where
  | nil {s : State} : Run tape level s [] s
  | step {s s' : State} {e : Event} {es : List Event}
      (hlevel : level.allows e = true) (hfit : e.Fits tape s)
      (rest : Run tape level (e.apply s) es s') : Run tape level s (e :: es) s'
  | branch {s s₁ s' : State} {condition : String} {inner es : List Event}
      (hlevel : level ≠ .quiet) (henter : (Event.enters condition).Fits tape s)
      (first : Run tape level ((Event.enters condition).apply s) inner s₁)
      (hleave : Event.leaves.Fits tape s₁)
      (rest : Run tape level (Event.leaves.apply s₁) es s') :
      Run tape level s (.enters condition :: inner ++ .leaves :: es) s'
  | branches {s s₁ s₂ s' : State} {condition : String} {inner other es : List Event}
      (hlevel : level ≠ .quiet) (henter : (Event.enters condition).Fits tape s)
      (first : Run tape level ((Event.enters condition).apply s) inner s₁)
      (hturn : Event.turns.Fits tape s₁)
      (second : Run tape level (Event.turns.apply s₁) other s₂)
      (hleave : Event.leaves.Fits tape s₂)
      (rest : Run tape level (Event.leaves.apply s₂) es s') :
      Run tape level s (.enters condition :: inner ++ .turns :: other ++ .leaves :: es) s'
  | lending {s s₁ s' : State} {list : List Emit.Parameter} {inner es : List Event}
      (hlevel : level ≠ .quiet) (hlend : (Event.lends list).Fits tape s)
      (first : Run tape level ((Event.lends list).apply s) inner s₁)
      (hquiet : ∀ e ∈ inner, e.isQuiet = true)
      (hregain : (Event.regains (s.scopes.hidden list)).Fits tape s₁)
      (rest : Run tape level ((Event.regains (s.scopes.hidden list)).apply s₁) es s') :
      Run tape level s (.lends list :: inner ++ .regains (s.scopes.hidden list) :: es) s'

end BasicScript
