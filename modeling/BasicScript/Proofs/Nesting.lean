import BasicScript.Proofs.Layout

/-!
# Nesting by kind

The lines of a body that end in an opening brace are the frames of a stack, and a line that begins
with a closing brace closes the innermost one (`nest`).  By kind, an `else` must close a condition,
a `while` behind a brace must close a `do`, and the brace that ends a procedure must close that of
its first line.

Without errors this holds exactly when no procedure is ended inside a single-line `IF`
(`nested_iff_reaches`): the closing statement of a procedure looks past single-line `IF`s, so that
its brace closes the frame of the `IF`.  Up to there the frames are those of the open blocks and
single-line `IF`s, in their order (`Framing`).
-/

namespace BasicScript

open Script Emit Lexer List

variable {base : Nat} {text top : String} {form : BlockForm} {ok : String → String → Prop}
  {opened' inside inlines : List String} {line : Line} {test : Option String} {block : Block}

/-! ### Frames -/

namespace Script

/-- Whether a text begins with a condition. -/
def isCondition (text : List Char) : Bool :=
  "if (".toList.isPrefixOf text || "\x7d else if (".toList.isPrefixOf text

/-- Whether a line may close the frame that another line opened. -/
def agrees (top text : List Char) : Bool :=
  (!"\x7d else".toList.isPrefixOf text || isCondition top) &&
    (!"\x7d while".toList.isPrefixOf text || top = "do \x7b".toList)

/-- A line without its indentation. -/
def trimmed (line : String) : List Char := line.toList.dropWhile (· = ' ')

/-- What a line does to the open frames: it closes the innermost one if it begins with a closing
brace, and opens one if it ends with an opening brace. -/
def nestLine (frames : List (List Char)) (text : List Char) : Option (List (List Char)) :=
  let left :=
    if text.head? = some '\x7d' then
      match frames with
      | [] => none
      | top :: below => if agrees top text then some below else none
    else some frames
  left.map fun frames => if text.getLast? = some '\x7b' then text :: frames else frames

/-- The frames that are open behind some lines, if each line closes a frame of its kind. -/
def nest (frames : List (List Char)) : List String → Option (List (List Char))
  | [] => some frames
  | line :: rest => (nestLine frames (trimmed line)).bind (nest · rest)

example : nest [] ["  do \x7b", "  \x7d while (x);"] = some [] := by decide +kernel

example : nest [] ["  do \x7b", "  \x7d else \x7b"] = none := by decide +kernel

/-- Agreement of texts. -/
def Agrees (top text : String) : Prop := agrees top.toList text.toList = true

/-- A line that stands where it should begins with no blank. -/
theorem Shift.trimmed_eq {opened : List String}
    (h : Shift ok base opened line opened') :
    trimmed (line.render indentUnit) = line.text.toList := by
  refine dropWhile_render line ?_
  cases h with
  | flat h | opens h | closes h | turns h => exact h.bounds.blank

/-- What a line that stands where it should does to the frames. -/
theorem Shift.nestLine_eq {opened : List String} (h : Shift Agrees base opened line opened') :
    nestLine (opened.map String.toList) (trimmed (line.render indentUnit)) =
      some (opened'.map String.toList) := by
  rw [h.trimmed_eq]
  cases h with
  | flat h | opens h => simp [nestLine, h.bounds.first, h.bounds.last]
  | closes h hok | turns h hok =>
    unfold Agrees at hok
    simp [nestLine, h.bounds.first, h.bounds.last, hok]

/-- **Nested lines** leave the frames open that they should. -/
theorem Nested.nest_eq {opened : List String} {lines : List Line}
    (h : Nested Agrees base opened lines opened') :
    nest (opened.map String.toList) (lines.map (Line.render indentUnit)) =
      some (opened'.map String.toList) := by
  induction h with
  | nil => rfl
  | cons h _ ih => simpa [nest, h.nestLine_eq] using ih

end Script

/-! ### Frames of blocks -/

/-- The line that turns a condition to its last branch. -/
def elseLine : String := "\x7d else \x7b"

/-- The first line of the procedure that a block stands for. -/
inductive BlockForm.Heads : BlockForm → String → Prop where
  | sub {jsName parameters : String} : Heads .sub (headerLine jsName parameters)
  | function {jsName parameters : String} :
      Heads (.function (jsName ++ "_result")) (headerLine jsName parameters)

/-- The lines that a block left open, the innermost first. -/
inductive BlockForm.Opened : BlockForm → List String → Prop where
  | condition {hasElse : Bool} {text : String}
      (h : hasElse = false → isCondition text.toList = true) : Opened (.condition hasElse) [text]
  | counting {name text : String} : Opened (.counting name) [text]
  | testing {text : String} : Opened (.looping false) [text]
  | looping : Opened (.looping true) ["do \x7b"]
  | whileLoop {text : String} : Opened .whileLoop [text]
  | selection {value text : String} {hasElse : Bool} : Opened (.selection value 0 hasElse) [text]
  | cases {value text outer : String} {n : Nat} {hasElse : Bool}
      (h : hasElse = false → isCondition text.toList = true) :
      Opened (.selection value (n + 1) hasElse) [text, outer]
  | sub {text : String} (h : Heads .sub text) : Opened .sub [text]
  | function {result text : String} (h : Heads (.function result) text) :
      Opened (.function result) [text]

theorem agrees_plain (top : String) : Agrees top "\x7d" := by
  simp only [Agrees, agrees, String.reduceToList]
  rfl

theorem agrees_while (test : String) : Agrees "do \x7b" ("\x7d while " ++ test ++ ";") := by
  simp only [Agrees, agrees, String.toList_append, String.reduceToList]
  rfl

theorem agrees_else (h : isCondition top.toList = true) : Agrees top elseLine := by
  simp only [Agrees, agrees, elseLine, h, String.reduceToList]
  rfl

theorem agrees_elseIf {test : String} (h : isCondition top.toList = true) :
    Agrees top ("\x7d else if (" ++ test ++ ") \x7b") := by
  simp only [Agrees, agrees, h, String.toList_append, String.reduceToList]
  rfl

theorem isCondition_if (test : String) :
    isCondition ("if (" ++ test ++ ") \x7b").toList = true := by
  simp only [isCondition, String.toList_append, String.reduceToList]
  rfl

theorem isCondition_elseIf (test : String) :
    isCondition ("\x7d else if (" ++ test ++ ") \x7b").toList = true := by
  simp only [isCondition, String.toList_append, String.reduceToList]
  rfl

/-- The first line of a procedure is the frame of its block. -/
theorem ProcedureKind.opened_form (kind : ProcedureKind) (jsName parameters : String) :
    (kind.form jsName).Opened [headerLine jsName parameters] := by
  cases kind with
  | sub => exact .sub .sub
  | function => exact .function .function

/-- The lines that end a block close frames of their kind. -/
theorem BlockForm.Opened.agrees (h : form.Opened inside) : Forall₂ Agrees inside form.closings := by
  cases h with
  | looping => exact .cons (agrees_while "(true)") .nil
  | cases => exact .cons (agrees_plain _) (.cons (agrees_plain _) .nil)
  | _ => exact .cons (agrees_plain _) .nil

theorem BlockForm.Opened.ne_nil (h : form.Opened inside) : inside ≠ [] := by
  cases h <;> simp

/-- The line that opens a block is a frame of its kind. -/
theorem Opener.opened (h : Opener form text) : form.Opened [text] := by
  cases h with
  | condition => exact .condition fun _ => isCondition_if _
  | counting => exact .counting
  | testing => exact .testing
  | looping => exact .looping
  | whileLoop => exact .whileLoop

/-! ### Frames of a state -/

/-- The frames of the open blocks and single-line `IF`s, the innermost first.  A floor tells which
blocks were open before its `IF`; `inlines` are the frames of the `IF`s. -/
inductive Framing : List Block → List Nat → List String → List String → Prop where
  | nil : Framing [] [] [] []
  | block {block : Block} {blocks : List Block} {floors : List Nat}
      {inlines inside opened : List String} (h : block.form.Opened inside)
      (hfloor : ∀ floor ∈ floors.head?, floor ≤ blocks.length)
      (halone : block.isProcedure = true → floors = [])
      (rest : Framing blocks floors inlines opened) :
      Framing (block :: blocks) floors inlines (inside ++ opened)
  | inline {blocks : List Block} {floors : List Nat} {inlines opened : List String} {text : String}
      (rest : Framing blocks floors inlines opened) :
      Framing blocks (blocks.length :: floors) (text :: inlines) (text :: opened)

namespace Framing

variable {blocks : List Block} {floors : List Nat} {opened : List String}

theorem floor_le (h : Framing blocks floors inlines opened) :
    ∀ floor ∈ floors.head?, floor ≤ blocks.length := by
  cases h with
  | nil => simp
  | block _ hfloor =>
    intro floor hmem
    exact Nat.le_succ_of_le (hfloor floor hmem)
  | inline => simp

/-- A block with one frame is opened inside the others. -/
theorem push {line column : Int} (h : Framing blocks floors inlines opened)
    (hform : form.Opened [text])
    (halone : Block.isProcedure ⟨form, line, column⟩ = true → floors = []) :
    Framing (⟨form, line, column⟩ :: blocks) floors inlines (text :: opened) := by
  change Framing (⟨form, line, column⟩ :: blocks) floors inlines ([text] ++ opened)
  exact block hform h.floor_le halone h

theorem ne_nil (h : Framing blocks floors inlines opened) (hb : blocks ≠ []) : opened ≠ [] := by
  cases h with
  | nil => exact absurd rfl hb
  | block h => simp [h.ne_nil]
  | inline => simp

/-- The innermost frames are those of a block that can be reached. -/
theorem of_reach (h : Framing (block :: blocks) floors inlines opened)
    (hreach : ∀ floor ∈ floors.head?, floor < (block :: blocks).length) :
    ∃ inside opened', opened = inside ++ opened' ∧ block.form.Opened inside ∧
      Framing blocks floors inlines opened' ∧ (∀ floor ∈ floors.head?, floor ≤ blocks.length) ∧
      (block.isProcedure = true → floors = []) := by
  cases h with
  | block h hfloor halone rest => exact ⟨_, _, rfl, h, rest, hfloor, halone⟩
  | inline => exact absurd (hreach _ rfl) (Nat.lt_irrefl _)

/-- The innermost frame is that of a single-line `IF`, if no block was left open in it. -/
theorem of_floor {floor : Nat} (h : Framing blocks (floor :: floors) inlines opened)
    (hfloor : blocks.length ≤ floor) :
    ∃ text inlines' opened', inlines = text :: inlines' ∧ opened = text :: opened' ∧
      floor = blocks.length ∧ Framing blocks floors inlines' opened' := by
  cases h with
  | block _ hle =>
    have := hle _ rfl
    simp only [length_cons] at hfloor
    omega
  | inline rest => exact ⟨_, _, _, rfl, rfl, rfl, rest⟩

theorem eq_nil (h : Framing [] [] inlines opened) : inlines = [] ∧ opened = [] := by
  cases h
  exact ⟨rfl, rfl⟩

end Framing

theorem State.reform_turnBrace (s : State) (text : String) (form : BlockForm) :
    (s.turnBrace text).reform form = (s.reform form).turnBrace text := by
  obtain ⟨position, page, scopes, blocks⟩ := s
  cases blocks <;> rfl

theorem State.reform_of_topForm? {s : State}
    (h : s.topForm? = some form) : (s.turnBrace text).reform form = s.turnBrace text := by
  obtain ⟨block, hblock, rfl⟩ := Option.map_eq_some_iff.1 h
  obtain ⟨blocks, hblocks⟩ := head?_eq_some_iff.1 hblock
  unfold State.reform State.turnBrace
  simp only [hblocks]

/-- The page is nested by kind, and its open frames are those of the state. -/
def State.Nestled (s : State) (inlines : List String) : Prop :=
  ∃ opened, Drawn Agrees opened s.page s.scopes ∧ Framing s.blocks s.floors inlines opened

/-- An event ends no procedure inside a single-line `IF`. -/
def Event.Reaches (s : State) : Event → Prop
  | .ends _ => ∀ block ∈ s.blocks.head?, block.isProcedure = true → s.floors = []
  | _ => True

namespace State.Nestled

variable {tape : Tape} {s : State} {blocks : List Block} {e : Event}

/-- The frames of the innermost block, and those around it. -/
structure Top (s : State) (inlines : List String) (block : Block) (blocks : List Block)
    (inside opened : List String) : Prop where
  drawn : Drawn Agrees (inside ++ opened) s.page s.scopes
  holds : block.form.Opened inside
  rest : Framing blocks s.floors inlines opened
  floor_le : ∀ floor ∈ s.floors.head?, floor ≤ blocks.length
  alone : block.isProcedure = true → s.floors = []

theorem of_reach (h : s.Nestled inlines) (hb : s.blocks = block :: blocks)
    (hreach : ∀ floor ∈ s.floors.head?, floor < s.blocks.length) :
    ∃ inside opened, Top s inlines block blocks inside opened := by
  obtain ⟨opened, hdrawn, hframing⟩ := h
  rw [hb] at hframing hreach
  obtain ⟨inside, opened', rfl, hopened, hrest, hfloor, halone⟩ := hframing.of_reach hreach
  exact ⟨inside, opened', hdrawn, hopened, hrest, hfloor, halone⟩

theorem reach_of_floor (h : s.floor < s.blocks.length) :
    ∀ floor ∈ s.floors.head?, floor < s.blocks.length := by
  intro floor hmem
  simp only [State.floor, Option.mem_def.1 hmem, Option.getD_some] at h
  omega

theorem of_tops (h : s.Nestled inlines) (htops : s.Tops form) :
    ∃ block blocks inside opened, s.blocks = block :: blocks ∧ block.form = form ∧
      Top s inlines block blocks inside opened := by
  obtain ⟨block, hblock, hform⟩ := Option.map_eq_some_iff.1 htops.2
  obtain ⟨blocks, hblocks⟩ := head?_eq_some_iff.1 hblock
  obtain ⟨inside, opened, htop⟩ := h.of_reach hblocks (reach_of_floor htops.1)
  exact ⟨block, blocks, inside, opened, hblocks, hform, htop⟩

/-- The innermost block gets another form, and the page other frames for it. -/
theorem Top.reform {inside' opened : List String} {page : Page}
    (h : Top s inlines block blocks inside opened) (hb : s.blocks = block :: blocks)
    (hk : form.kind = block.form.kind) (hform : form.Opened inside')
    (hdrawn : Drawn Agrees (inside' ++ opened) page s.scopes) :
    State.Nestled ({ s with page }.reform form) inlines := by
  refine ⟨inside' ++ opened, ?_, ?_⟩
  · simpa [State.reform, hb] using hdrawn
  · have halone : Block.isProcedure { block with form } = true → s.floors = [] := by
      simpa [Block.isProcedure, Block.kind, hk] using h.alone
    simpa [State.reform, hb] using Framing.block hform h.floor_le halone h.rest

/-- A frame of a block that is no procedure is not the one of the procedure around it. -/
theorem Top.ne_nil {opened : List String} (h : Top s inlines block blocks inside opened)
    (hs : Sound tape s) (hb : s.blocks = block :: blocks)
    (hk : ∀ kind, block.form.kind ≠ .procedure kind) : s.scopes.inner ≠ [] → opened ≠ [] :=
  fun hinner => h.rest.ne_nil (hs.rest_ne_nil hb hk hinner)

theorem tests (h : s.Nestled inlines) (hfit : (Event.tests test).Fits tape s)
    (hclean : ¬ HasError s.collector.toList) : ((Event.tests test).apply s).Nestled inlines := by
  obtain ⟨htest, value, cases, hasElse, htops, herror⟩ := hfit
  obtain ⟨block, blocks, inside, opened, hblocks, hform, htop⟩ := h.of_tops htops
  obtain rfl : hasElse = false := Bool.eq_false_iff.2 (mt herror hclean)
  have hopened := htop.holds
  rw [hform] at hopened
  simp only [Event.apply, htops.2]
  cases hopened with
  | selection =>
    rw [State.caseLine_zero]
    exact htop.reform hblocks (by rw [hform]; rfl) (.cases fun _ => isCondition_if _)
      (htop.drawn.openBrace (opensBrace_firstCase htest))
  | cases hcondition =>
    have hnext : (false || test.isNone) = false → isCondition (nextCase test).toList = true := by
      intro hsome
      cases test with
      | none => cases hsome
      | some test => exact isCondition_elseIf test
    have hagrees : ∀ top : String, isCondition top.toList = true → Agrees top (nextCase test) := by
      intro top htop
      cases test with
      | none => exact agrees_else htop
      | some test => exact agrees_elseIf htop
    rw [State.caseLine_succ]
    exact htop.reform hblocks (by rw [hform]; rfl) (.cases hnext)
      (htop.drawn.turnBrace (fun _ => cons_ne_nil _ _) (turnsBrace_nextCase htest)
        (hagrees _ (hcondition rfl)))

theorem turn (after : Bool) (h : s.Nestled inlines) (hs : Sound tape s)
    (htops : s.Tops (.condition false)) (htext : TurnsBrace text)
    (hagrees : ∀ top : String, isCondition top.toList = true → Agrees top text)
    (hafter : after = false → isCondition text.toList = true) :
    ((s.turnBrace text).reform (.condition after)).Nestled inlines := by
  obtain ⟨block, blocks, inside, opened, hblocks, hform, htop⟩ := h.of_tops htops
  have hopened := htop.holds
  rw [hform] at hopened
  cases hopened with
  | condition hcondition =>
    have hne := htop.ne_nil hs hblocks (by simp [hform, BlockForm.kind])
    exact htop.reform hblocks (by rw [hform]; rfl) (.condition hafter)
      (htop.drawn.turnBrace hne htext (hagrees _ (hcondition rfl)))

theorem ends (h : s.Nestled inlines) (hs : Sound tape s)
    (hfit : (Event.ends test).Fits tape s) (hreach : (Event.ends test).Reaches s) :
    ((Event.ends test).apply s).Nestled inlines := by
  obtain ⟨block, hblock, htest, hwithin⟩ := hfit
  obtain ⟨blocks, hblocks⟩ := head?_eq_some_iff.1 hblock
  have hfloors : ∀ floor ∈ s.floors.head?, floor < s.blocks.length := by
    rcases hwithin with hfloor | ⟨kind, hkind⟩
    · exact reach_of_floor hfloor
    · simp [hreach block hblock (by simp [Block.isProcedure, hkind])]
  obtain ⟨inside, opened, htop⟩ := h.of_reach hblocks hfloors
  simp only [Event.apply, hblocks]
  cases test with
  | none =>
    refine ⟨opened, ?_, ?_⟩
    · refine Drawn.finish (s := s.without block blocks true) htop.drawn htop.holds.agrees
        (hs.blocks block (by simp [hblocks])).result
        ?_ fun hk => htop.ne_nil hs hblocks hk
      rintro ⟨kind, hkind⟩
      exact (hs.scope_of_procedure hblocks hkind).2
    · obtain ⟨page, scopes, hfinish⟩ := (s.without block blocks true).finish_eq block.form
      simp only [State.finishWith, hfinish]
      exact htop.rest
  | some test =>
    obtain ⟨hsealed, hform⟩ := htest test rfl
    have hopened := htop.holds
    rw [hform] at hopened
    cases hopened with
    | looping =>
      have hne := htop.ne_nil hs hblocks (by simp [hform, BlockForm.kind])
      exact ⟨opened, htop.drawn.closeBrace hne (closesBrace_while hsealed) (agrees_while test),
        htop.rest⟩

/-- **Every event** outside the turns of single-line `IF`s keeps the page nested by kind, if it
reports no error and ends no procedure inside a single-line `IF`. -/
theorem apply (h : s.Nestled inlines) (hs : Sound tape s) (hfit : e.Fits tape s)
    (hinline : e.isInline = false) (hclean : ¬ HasError (e.apply s).collector.toList)
    (hreach : e.Reaches s) : (e.apply s).Nestled inlines := by
  have hbefore : ¬ HasError s.collector.toList := mt (Event.grows hinline hfit).errors hclean
  cases e with
  | enters | turns | leaves => cases hinline
  | opens form text token =>
    obtain ⟨opened, hdrawn, hframing⟩ := h
    obtain ⟨hopener, -⟩ := hfit
    refine ⟨_, hdrawn.openBrace hopener.opensBrace,
      hframing.push hopener.opened fun hprocedure => ?_⟩
    cases hopener <;> cases hprocedure
  | selects value selector token =>
    obtain ⟨opened, hdrawn, hframing⟩ := h
    obtain ⟨hvalue, hselector, -⟩ := hfit
    exact ⟨_, (hdrawn.openBrace (Reads.start rfl)).line (flat_const hvalue hselector),
      hframing.push .selection fun hprocedure => by cases hprocedure⟩
  | begins kind name jsName parameters token =>
    obtain ⟨opened, hdrawn, hframing⟩ := h
    obtain ⟨hj, hp, -, hblocks, hfloors, -⟩ := hfit
    have hinner : s.scopes.inner = [] := by simpa [hblocks, expectedScopes] using hs.framed.inner
    have hempty : inlines = [] ∧ opened = [] :=
      Framing.eq_nil (by rwa [hblocks, hfloors] at hframing)
    obtain ⟨rfl, rfl⟩ := hempty
    exact ⟨_, hdrawn.begins hinner (opensBrace_header hj hp),
      hframing.push (kind.opened_form jsName (Text.commas parameters)) fun _ => hfloors⟩
  | tests test => exact h.tests hfit hbefore
  | elseIfs condition =>
    obtain ⟨hcondition, hasElse, htops, herror⟩ := hfit
    obtain rfl : hasElse = false := Bool.eq_false_iff.2 (mt herror hbefore)
    have hturn := h.turn false hs htops (turnsBrace_elseIf hcondition.inner)
      (fun _ => agrees_elseIf) fun _ => isCondition_elseIf _
    rwa [State.reform_of_topForm? htops.2] at hturn
  | elses =>
    obtain ⟨hasElse, htops, herror⟩ := hfit
    obtain rfl : hasElse = false := Bool.eq_false_iff.2 (mt herror hbefore)
    have hturn := h.turn true hs htops turnsBrace_else (fun _ => agrees_else) (by simp)
    rwa [State.reform_turnBrace] at hturn
  | ends test => exact h.ends hs hfit hreach
  | abandons => exact absurd (Event.hasError_abandons hfit) hclean
  | _ =>
    obtain ⟨opened, hdrawn, hframing⟩ := h
    obtain ⟨hdrawn, hblocks, hfloors⟩ := hdrawn.flat hfit rfl
    exact ⟨opened, hdrawn, by rwa [hblocks, hfloors]⟩

/-! ### Single-line `IF`s -/

theorem enters {condition : String} (h : s.Nestled inlines) (hc : Sealed condition) :
    ((Event.enters condition).apply s).Nestled (("if (" ++ condition ++ ") \x7b") :: inlines) := by
  obtain ⟨opened, hdrawn, hframing⟩ := h
  exact ⟨_, hdrawn.openBrace (opensBrace_if hc.inner), .inline hframing⟩

/-- Where a single-line `IF` turns or ends, its frame is the innermost one. -/
theorem of_floor (h : s.Nestled (text :: inlines)) (hs : Sound tape s)
    (hfit : Event.leaves.Fits tape s) : ∃ floors opened, s.floors = s.blocks.length :: floors ∧
      Drawn Agrees (text :: opened) s.page s.scopes ∧ Framing s.blocks floors inlines opened ∧
      (s.scopes.inner ≠ [] → opened ≠ []) := by
  obtain ⟨opened, hdrawn, hframing⟩ := h
  obtain ⟨floor, floors, hfloors, hle⟩ := hfit
  rw [hfloors] at hframing
  obtain ⟨text, inlines, opened, hinlines, rfl, rfl, hrest⟩ := hframing.of_floor hle
  cases hinlines
  refine ⟨floors, opened, hfloors, hdrawn, hrest, fun hinner => hrest.ne_nil ?_⟩
  obtain ⟨front, block, kind, hblocks, -⟩ := hs.last_of_inner hinner
  simp [hblocks]

theorem turns (h : s.Nestled (text :: inlines)) (hs : Sound tape s)
    (hfit : Event.turns.Fits tape s) (hcondition : isCondition text.toList = true) :
    (Event.turns.apply s).Nestled (elseLine :: inlines) := by
  obtain ⟨floors, opened, hfloors, hdrawn, hframing, hne⟩ := h.of_floor hs hfit
  refine ⟨_, hdrawn.turnBrace hne turnsBrace_else (agrees_else hcondition), ?_⟩
  change Framing s.blocks s.floors (elseLine :: inlines) (elseLine :: opened)
  rw [hfloors]
  exact .inline hframing

theorem leaves (h : s.Nestled (text :: inlines)) (hs : Sound tape s)
    (hfit : Event.leaves.Fits tape s) : (Event.leaves.apply s).Nestled inlines := by
  obtain ⟨floors, opened, hfloors, hdrawn, hframing, hne⟩ := h.of_floor hs hfit
  refine ⟨opened, hdrawn.closeBrace hne closesBrace_plain (agrees_plain text), ?_⟩
  change Framing s.blocks (s.floors.drop 1) inlines opened
  rw [hfloors]
  exact hframing

end State.Nestled

/-! ### The end of a procedure -/

/-- The last lines of a procedure. -/
def BlockForm.endings : BlockForm → List String
  | .function result => ["return " ++ result ++ ";", "\x7d"]
  | _ => ["\x7d"]

/-- An event that ends a procedure closes the frame of its first line.  That line stands right above
the mark of the procedure, and no frame is left open between it and the last lines. -/
def Event.ClosesOwn (s : State) : Event → Prop
  | .ends test => ∀ block ∈ s.blocks.head?, block.isProcedure = true →
      ∃ before header body ending,
        ((Event.ends test).apply s).page.lines.toList = before ++ header :: (body ++ ending) ∧
          s.scopes.current.mark = before.length + 1 ∧ block.form.Heads header.text ∧
          nest [] (body.map (Line.render indentUnit)) = some [] ∧
          ending.map Line.text = block.form.endings
  | _ => True

section Ends

variable {tape : Tape} {s : State} {scope : Scope} {before back : List Line} {header : Line}

theorem State.leaveProcedure_lines (hinner : s.scopes.inner = [scope])
    (hlines : s.page.lines.toList = before ++ header :: back)
    (hmark : scope.mark = before.length + 1) : ∃ depth, s.leaveProcedure.page.lines.toList =
      before ++ header ::
        (scope.hoisted.map (Line.mk scope.indent.toNat) ++ back ++ [⟨depth, "\x7d"⟩]) := by
  have hdedent : ∀ page : Page, page.dedent.lines = page.lines := fun page => by
    unfold Page.dedent
    split <;> rfl
  refine ⟨(scope.hoistOn s.page).dedent.indent.toNat, ?_⟩
  rw [State.leaveProcedure_eq hinner, State.closeBrace, Drawn.line_eq _ (by decide)]
  simp [hdedent, Scope.hoistOn_lines hlines hmark]

/-- The lines of a procedure that has just been ended. -/
theorem Drawn.finish_lines {opened : List String}
    {kind : ProcedureKind} (h : Drawn ok opened s.page s.scopes) (hinner : s.scopes.inner = [scope])
    (hk : form.kind = .procedure kind) :
    ∃ before header body inside ending,
      (s.finish form).page.lines.toList = before ++ header :: (body ++ ending) ∧
        scope.mark = before.length + 1 ∧ Nested ok 1 [] body inside ∧
        opened = inside ++ [header.text] ∧ ending.map Line.text = form.endings := by
  have hscope : scope ∈ s.scopes.inner := by simp [hinner]
  obtain ⟨before, header, back, inside, hlines, -, -, hback, hopened, hmark⟩ :=
    (h.marks scope hscope).split
  have hbody := h.hoisted_body hscope hback
  cases form with
  | sub =>
    obtain ⟨depth, hpage⟩ := State.leaveProcedure_lines hinner hlines hmark
    exact ⟨before, _, _, inside, [⟨depth, "\x7d"⟩], hpage, hmark, hbody, hopened, rfl⟩
  | function result =>
    have hreturn : (s.addLine ("return " ++ result ++ ";")).page.lines.toList =
        before ++ ⟨1, header⟩ :: (back ++ [⟨s.page.indent.toNat, "return " ++ result ++ ";"⟩]) := by
      rw [State.addLine, Drawn.line_eq _ (by simp)]
      simp [hlines]
    obtain ⟨depth, hpage⟩ :=
      State.leaveProcedure_lines (s := s.addLine ("return " ++ result ++ ";")) hinner hreturn hmark
    refine ⟨before, ⟨1, header⟩, _, inside,
      [⟨s.page.indent.toNat, "return " ++ result ++ ";"⟩, ⟨depth, "\x7d"⟩], ?_,
      hmark, hbody, hopened, rfl⟩
    simpa [State.finish] using hpage
  | _ => cases hk

/-- The only frame around the block of a procedure is that of its first line. -/
theorem Framing.of_procedure {opened : List String}
    (h : Framing [block] [] inlines opened) (hprocedure : block.isProcedure = true) :
    ∃ text, opened = [text] ∧ block.form.Heads text := by
  obtain ⟨inside, opened, rfl, hopened, hrest, -⟩ := h.of_reach (by simp)
  obtain ⟨-, rfl⟩ := hrest.eq_nil
  generalize hform : block.form = form at hopened
  cases hopened with
  | sub hheads => exact ⟨_, rfl, hheads⟩
  | function hheads => exact ⟨_, rfl, hheads⟩
  | _ => simp [Block.isProcedure, Block.kind, hform, BlockForm.kind] at hprocedure

/-- If only one frame is open around the block of a procedure, it stands in no single-line `IF`. -/
theorem Framing.eq_nil_of_length {floors : List Nat} {opened : List String}
    (h : Framing [block] floors inlines opened) (hprocedure : block.isProcedure = true)
    (hone : opened.length = 1) : floors = [] := by
  cases h with
  | block _ _ halone => exact halone hprocedure
  | inline hrest =>
    have := length_pos_iff.2 (hrest.ne_nil (cons_ne_nil _ _))
    simp only [length_cons] at hone
    omega

/-- **The end of a procedure** closes the frame of its first line if and only if it does not stand
inside a single-line `IF`. -/
theorem State.Nestled.closesOwn_iff {e : Event} (h : s.Nestled inlines)
    (hs : Sound tape s) (hfit : e.Fits tape s) : e.ClosesOwn s ↔ e.Reaches s := by
  cases e with
  | ends test =>
    obtain ⟨block, hblock, htest, -⟩ := hfit
    obtain ⟨rest, hblocks⟩ := head?_eq_some_iff.1 hblock
    by_cases hprocedure : block.isProcedure = true
    · obtain ⟨kind, hk⟩ := Block.isProcedure_iff.1 hprocedure
      obtain ⟨rfl, scope, hinner⟩ := hs.scope_of_procedure hblocks hk
      obtain rfl : test = none := by
        cases test with
        | none => rfl
        | some test => simp [(htest test rfl).2, BlockForm.kind] at hk
      obtain ⟨opened, hdrawn, hframing⟩ := h
      rw [hblocks] at hframing
      have happly : (Event.ends none).apply s = (s.without block [] true).finish block.form := by
        simp only [Event.apply, hblocks, State.finishWith]
      have hcurrent : s.scopes.current = scope := by simp [Scopes.current, hinner]
      obtain ⟨before, header, body, inside, ending, hpage, hmark, hbody, hopened, hending⟩ :=
        Drawn.finish_lines (s := s.without block [] true) hdrawn hinner hk
      simp only [Event.ClosesOwn, Event.Reaches, hblocks, head?_cons, Option.mem_def,
        Option.some.injEq, forall_eq', hprocedure, forall_const, happly, hcurrent]
      constructor
      · rintro ⟨before', header', body', ending', hpage', hmark', -, hnest, hending'⟩
        -- The mark and the number of the last lines leave one way to cut the page.
        have hlength : before.length = before'.length := by omega
        have hlast : ending.length = ending'.length := by
          rw [← length_map Line.text, hending, ← hending', length_map]
        obtain ⟨-, hrest⟩ := append_inj (hpage.symm.trans hpage') hlength
        obtain ⟨rfl, -⟩ := append_inj' (List.cons.inj hrest).2 hlast
        have hinside : inside = [] := by
          simpa [hnest] using hbody.nest_eq
        exact hframing.eq_nil_of_length hprocedure (by simp [hopened, hinside])
      · intro hfloors
        rw [hfloors] at hframing
        obtain ⟨text, htext, hheads⟩ := hframing.of_procedure hprocedure
        obtain ⟨rfl, rfl⟩ : inside = [] ∧ text = header.text := by
          rw [htext] at hopened
          cases inside with
          | nil => exact ⟨rfl, singleton_inj.1 hopened⟩
          | cons top inside => simp at hopened
        exact ⟨before, header, body, ending, hpage, hmark, hheads, hbody.nest_eq, hending⟩
    · simp [Event.ClosesOwn, Event.Reaches, hblocks, hprocedure]
  | _ => exact Iff.rfl

end Ends

/-! ### Nesting along a run -/

section Runs

variable {tape : Tape} {level : Level} {s s' : State} {es : List Event}

/-- **Runs.**  While no error is reported and no procedure is ended inside a single-line `IF`, the
page stays nested by kind.  It makes no difference whether the ends of procedures are told by where
they stand or by what they close. -/
theorem Run.nestled (h : Run tape level s es s') (hs : Sound tape s) (hn : s.Nestled inlines)
    (hclean : ¬ HasError s'.collector.toList)
    (hends : Along (fun s e => e.Reaches s ∨ e.ClosesOwn s) s es) :
    s'.Nestled inlines ∧ Along (fun s e => e.Reaches s ∧ e.ClosesOwn s) s es := by
  induction h generalizing inlines with
  | nil => exact ⟨hn, trivial⟩
  | step hlevel hfit rest ih =>
    obtain ⟨hend, hends⟩ := hends
    have hiff := hn.closesOwn_iff hs hfit
    have hreach := hend.elim id hiff.1
    obtain ⟨hn', hends'⟩ := ih (hs.apply hfit)
      (hn.apply hs hfit (Level.isInline_of_allows hlevel) (mt rest.grows.errors hclean) hreach)
        hclean hends
    exact ⟨hn', ⟨hreach, hiff.2 hreach⟩, hends'⟩
  | branch _ henter first hleave rest ih₁ ih =>
    -- the branch is a run of its own, with one more frame
    obtain ⟨-, hends⟩ := hends
    obtain ⟨hinner, -, hends⟩ := first.along_append.1 hends
    have hs₁ := first.sound (hs.apply henter)
    obtain ⟨hn₁, hinner'⟩ :=
      ih₁ (hs.apply henter) (hn.enters henter) (mt rest.grows.errors hclean) hinner
    obtain ⟨hn', hends'⟩ := ih (hs₁.apply hleave) (hn₁.leaves hs₁ hleave) hclean hends
    exact ⟨hn', ⟨trivial, trivial⟩, first.along_append.2 ⟨hinner', ⟨trivial, trivial⟩, hends'⟩⟩
  | lending _ hlend first _ hregain rest ih₁ ih =>
    obtain ⟨-, hends⟩ := hends
    obtain ⟨hinner, -, hends⟩ := first.along_append.1 hends
    have hs₁ := first.sound (hs.apply hlend)
    have hclean₂ := mt rest.grows.errors hclean
    have hclean₁ := mt (Event.grows rfl hregain).errors hclean₂
    obtain ⟨hn₁, hinner'⟩ := ih₁ (hs.apply hlend)
      (hn.apply hs hlend rfl (mt first.grows.errors hclean₁) trivial) hclean₁ hinner
    obtain ⟨hn', hends'⟩ := ih (hs₁.apply hregain)
      (hn₁.apply hs₁ hregain rfl hclean₂ trivial) hclean hends
    exact ⟨hn', ⟨trivial, trivial⟩, first.along_append.2 ⟨hinner', ⟨trivial, trivial⟩, hends'⟩⟩
  | branches _ henter first hturn second hleave rest ih₁ ih₂ ih =>
    rw [append_assoc] at hends ⊢
    obtain ⟨-, hends⟩ := hends
    obtain ⟨hinner, -, hends⟩ := first.along_append.1 hends
    obtain ⟨hother, -, hends⟩ := second.along_append.1 hends
    have hs₁ := first.sound (hs.apply henter)
    have hs₂ := second.sound (hs₁.apply hturn)
    have hclean₂ := mt rest.grows.errors hclean
    obtain ⟨hn₁, hinner'⟩ :=
      ih₁ (hs.apply henter) (hn.enters henter) (mt second.grows.errors hclean₂) hinner
    obtain ⟨hn₂, hother'⟩ :=
      ih₂ (hs₁.apply hturn) (hn₁.turns hs₁ hturn (isCondition_if _)) hclean₂ hother
    obtain ⟨hn', hends'⟩ := ih (hs₂.apply hleave) (hn₂.leaves hs₂ hleave) hclean hends
    exact ⟨hn', ⟨trivial, trivial⟩, first.along_append.2 ⟨hinner', ⟨trivial, trivial⟩,
      second.along_append.2 ⟨hother', ⟨trivial, trivial⟩, hends'⟩⟩⟩

/-- The body of a program is nested by kind, if its pass has ended with no frame but those of the
state. -/
theorem Finished.nest_eq {collector : Collector} (h : Finished tape collector s)
    (hn : s.Nestled inlines) : nest [] (s.hoisted.page.render indentUnit) = some [] := by
  obtain ⟨opened, hdrawn, hframing⟩ := hn
  have hfloors : s.floors = [] := h.path.grows.floors
  rw [h.blocks, hfloors] at hframing
  obtain ⟨-, rfl⟩ := hframing.eq_nil
  exact hdrawn.hoistModule.nest_eq

end Runs

/-- **Nesting by kind.**  Let the pass over a source come to its end without an error.  It is a run
of events, and on every such run the following are equivalent: the body is nested by kind and every
end of a procedure closes the frame of the first line of the procedure; no procedure is ended inside
a single-line `IF`. -/
theorem nested_iff_reaches (source : String) (hread : (scan source).fault = none)
    (collector : Collector) (s : State)
    (hpass : pass (scan source).tokens.toArray collector = .ok () s)
    (hclean : ¬ HasError s.collector.toList) :
    ∃ last, s = last.hoisted ∧
      (∃ es, Run (Tape.ofSource source hread) .full { collector } es last) ∧
      ∀ es, Run (Tape.ofSource source hread) .full { collector } es last →
        ((nest [] (s.page.render indentUnit) = some [] ∧
            Along (fun s e => e.ClosesOwn s) { collector } es) ↔
          Along (fun s e => e.Reaches s) { collector } es) := by
  obtain ⟨last, hlast, rfl⟩ := exists_finished hread hpass
  obtain ⟨page, hhoisted⟩ := last.hoisted_eq
  have hclean : ¬ HasError last.collector.toList := by rwa [hhoisted] at hclean
  have hstart : State.Nestled { collector } [] := ⟨[], .start Agrees collector, .nil⟩
  refine ⟨last, rfl, hlast.path, fun es hrun => ⟨fun ⟨_, hends⟩ => ?_, fun hends => ?_⟩⟩
  · have hreach := (hrun.nestled (sound_start _ _) hstart hclean (hends.imp fun _ _ => .inr)).2
    exact hreach.imp fun _ _ h => h.1
  · obtain ⟨hn, hcloses⟩ :=
      hrun.nestled (sound_start _ _) hstart hclean (hends.imp fun _ _ => .inl)
    exact ⟨hlast.nest_eq hn, hcloses.imp fun _ _ h => h.2⟩

/-- A function whose single-line `IF` has two branches, with a loop behind it. -/
def branchingSource : String :=
  "FUNCTION f\nIF x THEN f = 1 ELSE f = 2\nDO\nLOOP WHILE x\nEND FUNCTION"

theorem scan_branchingSource : (scan branchingSource).fault = none := by decide +kernel

/-- The lines of its body. -/
def branchingLines : List String :=
  ["  async function f() \x7b", "    let x = 0;", "    let f_result = 0;", "    if (x) \x7b",
    "      f_result = 1;", "    \x7d else \x7b", "      f_result = 2;", "    \x7d", "    do \x7b",
    "    \x7d while (x);", "    return f_result;", "  \x7d"]

theorem branching_nested :
    nest [] branchingLines = some [] ∧
      ∃ s, pass (scan branchingSource).tokens.toArray {} = .ok () s ∧
        s.page.render indentUnit = branchingLines ∧ ¬ HasError s.collector.toList ∧
        ∃ last, s = last.hoisted ∧
          (∃ es, Run (Tape.ofSource branchingSource scan_branchingSource) .full {} es last) ∧
          ∀ es, Run (Tape.ofSource branchingSource scan_branchingSource) .full {} es last →
            (Along (fun s e => e.ClosesOwn s) {} es ↔ Along (fun s e => e.Reaches s) {} es) := by
  have hnest : nest [] branchingLines = some [] := by decide +kernel
  have houtcome : outcome? branchingSource = some (branchingLines, false) := by decide +kernel
  obtain ⟨s, hpass, hlines, herrs⟩ := pass_of_outcome? false houtcome
  have hclean : ¬ HasError s.collector.toList := by simpa using herrs
  obtain ⟨last, hlast, hrun, hiff⟩ :=
    nested_iff_reaches branchingSource scan_branchingSource {} s hpass hclean
  refine ⟨hnest, s, hpass, hlines, hclean, last, hlast, hrun, fun es hes => ?_⟩
  simpa [hlines, hnest] using hiff es hes

/-- The end of a procedure inside a single-line `IF` closes the brace of the `IF`, and the `ELSE`
that follows closes that of the procedure.  No error is reported. -/
theorem else_closes_procedure :
    ∃ s lines, pass (scan "SUB foo\nIF x THEN END SUB ELSE PRINT 1\n").tokens.toArray {} =
      .ok () s ∧ s.page.render indentUnit = lines ∧
      lines = ["  async function foo() \x7b", "    let x = 0;", "    if (x) \x7b", "    \x7d",
        "  \x7d else \x7b", "    _print(1, true);", "  \x7d"] ∧
      ¬ HasError s.collector.toList ∧ nest [] lines = none := by
  have houtcome : outcome? "SUB foo\nIF x THEN END SUB ELSE PRINT 1\n" =
      some (["  async function foo() \x7b", "    let x = 0;", "    if (x) \x7b", "    \x7d",
        "  \x7d else \x7b", "    _print(1, true);", "  \x7d"], false) := by decide +kernel
  obtain ⟨s, hpass, hlines, herrs⟩ := pass_of_outcome? false houtcome
  exact ⟨s, _, hpass, hlines, rfl, by simpa using herrs, by decide +kernel⟩

end BasicScript
