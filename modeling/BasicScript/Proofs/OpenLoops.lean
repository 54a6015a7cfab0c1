import BasicScript.Proofs.Nesting

/-!
# The loops that are open

A `break` leaves the innermost loop around it, as far as its procedure goes (`breakTarget`).  Which
loops are around a line shows in the frames that the lines in front of it left open (`framesOf`).

The frames of the page are those of the open blocks and single-line `IF`s (`Stacking`), until a
procedure is ended inside a single-line `IF`.  From there on the brace that ends the `IF` closes the
frame of whatever block was opened behind the end of the procedure, and that block is **lost**: it
is open, but no frame of the page is its own.  There is at most one such block, and the frames that
are left over are those of no loop (`Layers`).  Every event without an error keeps this
(`State.Stacked.apply`).
-/

namespace BasicScript

open Script Emit List

variable {text : String} {d : Declaration} {form : BlockForm} {test : Option String}
    {lost : List Block}

/-! ### Frames of lines -/

namespace Script

/-- What a line does to the open frames, whatever frame it closes. -/
def frameLine (frames : List (List Char)) (text : List Char) : List (List Char) :=
  let left := if text.head? = some '\x7d' then frames.tail else frames
  if text.getLast? = some '\x7b' then text :: left else left

/-- The frames that are open behind some lines. -/
def framesOf (lines : List String) : List (List Char) :=
  lines.foldl (fun frames line => frameLine frames (trimmed line)) []

/-- Whether a text begins a loop. -/
def isLoopLine (text : List Char) : Bool :=
  ["for (", "while ", "do \x7b"].any (·.toList.isPrefixOf text)

/-- Whether a text begins a procedure. -/
def isHeaderLine (text : List Char) : Bool := "async function ".toList.isPrefixOf text

/-- Whether a `break` looks past a frame. -/
def isAside (text : List Char) : Bool := !isLoopLine text && !isHeaderLine text

theorem isAside_iff {text : List Char} :
    isAside text = true ↔ isLoopLine text = false ∧ isHeaderLine text = false := by
  simp [isAside]

/-- The loop that a `break` leaves inside some frames: the innermost one of its procedure. -/
def breakTarget : List (List Char) → Option (List Char)
  | [] => none
  | frame :: rest =>
    if isLoopLine frame then some frame else if isHeaderLine frame then none else breakTarget rest

example :
    breakTarget (framesOf ["do \x7b", "  if (x) \x7b", "  \x7d else \x7b"]) =
      some "do \x7b".toList := by
  decide +kernel

example : breakTarget (framesOf ["do \x7b", "  async function f() \x7b"]) = none := by
  decide +kernel

section Frames

variable {frames : List (List Char)}

theorem frameLine_flat (h : Flat text) : frameLine frames text.toList = frames := by
  simp [frameLine, h.bounds.first, h.bounds.last]

theorem frameLine_opens (h : OpensBrace text) :
    frameLine frames text.toList = text.toList :: frames := by
  simp [frameLine, h.bounds.first, h.bounds.last]

theorem frameLine_closes (h : ClosesBrace text) : frameLine frames text.toList = frames.tail := by
  simp [frameLine, h.bounds.first, h.bounds.last]

theorem frameLine_turns (h : TurnsBrace text) :
    frameLine frames text.toList = text.toList :: frames.tail := by
  simp [frameLine, h.bounds.first, h.bounds.last]

end Frames

/-- What a line of a log, which has it without its indentation, does to the open frames. -/
def frameRow (frames : List (List Char)) (line : Line) : List (List Char) :=
  frameLine frames line.text.toList

/-- The frames that are open behind the lines of a log. -/
def logFrames (log : List Line) : List (List Char) := log.foldl frameRow []

namespace Page

theorem log_line (page : Page) (h : text ≠ "") :
    (page.line text).log = page.log.push ⟨page.indent.toNat, text⟩ := by
  rw [Drawn.line_eq page h]

theorem log_dedent (page : Page) : page.dedent.log = page.log := by
  unfold dedent
  split <;> rfl

theorem log_closing (page : Page) (h : text ≠ "") :
    (page.dedent.line text).log = page.log.push ⟨page.dedent.indent.toNat, text⟩ := by
  rw [log_line _ h, log_dedent]

end Page

end Script

/-- The frames of the page, as its log tells them. -/
def State.frames (s : State) : List (List Char) := logFrames s.page.log.toList

namespace State

variable {s : State}

theorem frames_of_push {page : Page} {depth : Nat} (h : page.log = s.page.log.push ⟨depth, text⟩) :
    logFrames page.log.toList = frameLine s.frames text.toList := by
  simp [State.frames, logFrames, frameRow, h]

theorem frames_addLine (h : Flat text) : (s.addLine text).frames = s.frames :=
  (frames_of_push (s.page.log_line h.ne_empty)).trans (frameLine_flat h)

theorem frames_openBrace (h : OpensBrace text) :
    (s.openBrace text).frames = text.toList :: s.frames :=
  (frames_of_push (s.page.log_line h.ne_empty)).trans (frameLine_opens h)

theorem frames_closeBrace (h : ClosesBrace text) : (s.closeBrace text).frames = s.frames.tail :=
  (frames_of_push (s.page.log_closing h.ne_empty)).trans (frameLine_closes h)

theorem frames_turnBrace (h : TurnsBrace text) :
    (s.turnBrace text).frames = text.toList :: s.frames.tail :=
  (frames_of_push (s.page.log_closing h.ne_empty)).trans (frameLine_turns h)

theorem frames_written (h : Flat d.text) : (s.written d).frames = s.frames := by
  unfold State.written
  dsimp only
  split
  · rfl
  · exact frames_addLine (s := { s with scopes := s.scopes.note d }) h

/-- The declarations that are put at the top of a procedure open no frame behind it. -/
theorem frames_leaveProcedure : s.leaveProcedure.frames = s.frames.tail := by
  refine (frames_closeBrace closesBrace_plain).trans ?_
  have hlog := s.scopes.current.hoistOn_log s.page
  simp only [Scope.hoistOn] at hlog
  simp only [State.frames, hlog]

/-- The end of a block closes as many frames as it has. -/
theorem frames_finish (h : ∀ result, form = .function result → Wordy result) :
    (s.finish form).frames = s.frames.drop form.braces := by
  cases form with
  | sub => exact frames_leaveProcedure.trans drop_one.symm
  | function result =>
    have hreturn : Flat ("return " ++ result ++ ";") :=
      .intro (.around (h result rfl).solid.1 rfl)
    rw [State.finish, frames_leaveProcedure, frames_addLine hreturn]
    exact drop_one.symm
  | selection value cases hasElse =>
    cases cases with
    | zero => exact (frames_closeBrace closesBrace_plain).trans drop_one.symm
    | succ n =>
      rw [State.finish, if_pos n.succ_pos, frames_closeBrace closesBrace_plain,
        frames_closeBrace closesBrace_plain, BlockForm.braces_selection_succ]
      rw [← drop_one, ← drop_one, drop_drop]
  | looping testsBehind =>
    cases testsBehind with
    | true => exact (frames_closeBrace (Reads.start rfl)).trans drop_one.symm
    | false => exact (frames_closeBrace closesBrace_plain).trans drop_one.symm
  | condition | counting | whileLoop =>
    exact (frames_closeBrace closesBrace_plain).trans drop_one.symm

theorem frames_finishWith
    (h : ∀ result, form = .function result → Wordy result)
    (htest : ∀ t ∈ test, Sealed t ∧ form = .looping true) :
    (s.finishWith form test).frames = s.frames.drop form.braces := by
  cases test with
  | none => exact frames_finish h
  | some test =>
    obtain ⟨hsealed, rfl⟩ := htest test rfl
    exact (frames_closeBrace (closesBrace_while hsealed)).trans drop_one.symm

end State

/-! ### Frames of blocks -/

/-- The frames that a block shows on the page, the innermost first: a loop the line that opened it,
a condition or a selection its branches, a procedure its header. -/
inductive BlockForm.Shows : BlockForm → List (List Char) → Prop where
  | loop {form : BlockForm} {text : String} (h : Opener form text)
      (hloop : form.kind.isLoop = true) : Shows form [text.toList]
  | branch {form : BlockForm} {texts : List (List Char)}
      (hkind : form.kind = .condition ∨ form.kind = .selection)
      (hlength : texts.length = form.braces) (haside : ∀ text ∈ texts, isAside text = true) :
      Shows form texts
  | procedure {form : BlockForm} {kind : ProcedureKind} {text : List Char}
      (hkind : form.kind = .procedure kind) (hheader : isHeaderLine text = true)
      (hloop : isLoopLine text = false) : Shows form [text]

namespace BlockForm.Shows

variable {texts : List (List Char)}

theorem length_eq (h : form.Shows texts) : texts.length = form.braces := by
  cases h with
  | branch _ hlength => exact hlength
  | loop _ hloop =>
    refine (braces_eq_one fun hkind => ?_).symm
    rw [hkind] at hloop
    cases hloop
  | procedure hkind => exact (braces_eq_one (by simp [hkind])).symm

/-- Only the innermost frame of a block may be that of a loop. -/
theorem tail_plain (h : form.Shows texts) : ∀ text ∈ texts.tail, isLoopLine text = false := by
  cases h with
  | loop | procedure => simp
  | branch _ _ haside =>
    intro text htext
    exact (isAside_iff.1 (haside text (mem_of_mem_tail htext))).1

/-- A block that is no loop shows no loop. -/
theorem plain (h : form.Shows texts) (hloop : form.kind.isLoop = false) :
    ∀ text ∈ texts, isLoopLine text = false := by
  cases h with
  | loop _ htrue => simp [htrue] at hloop
  | procedure _ _ hplain => simpa using hplain
  | branch _ _ haside =>
    intro text htext
    exact (isAside_iff.1 (haside text htext)).1

end BlockForm.Shows

/-- A text that begins with a condition is looked past. -/
theorem isAside_if (test : String) : isAside ("if (" ++ test ++ ") \x7b").toList = true := by
  simp only [isAside, isLoopLine, isHeaderLine, String.toList_append, String.reduceToList,
    any_cons, any_nil]
  rfl

theorem isAside_elseIf (test : String) :
    isAside ("\x7d else if (" ++ test ++ ") \x7b").toList = true := by
  simp only [isAside, isLoopLine, isHeaderLine, String.toList_append, String.reduceToList,
    any_cons, any_nil]
  rfl

theorem isAside_else : isAside elseLine.toList = true := by decide +kernel

theorem isAside_firstCase (test : Option String) : isAside (firstCase test).toList = true := by
  cases test <;> exact isAside_if _

theorem isAside_nextCase (test : Option String) : isAside (nextCase test).toList = true := by
  cases test with
  | none => exact isAside_else
  | some test => exact isAside_elseIf test

theorem isLoopLine_of_prefix (front : String) {text : List Char} (hfront : front.toList <+: text)
    (h : front ∈ ["for (", "while ", "do \x7b"]) : isLoopLine text = true :=
  any_eq_true.2 ⟨front, h, isPrefixOf_iff_prefix.2 hfront⟩

/-- The line that opens a loop begins one. -/
theorem Opener.isLoopLine_eq (h : Opener form text)
    (hloop : form.kind.isLoop = true) : isLoopLine text.toList = true := by
  cases h with
  | condition => cases hloop
  | counting => exact isLoopLine_of_prefix "for (" (by simp) (by simp)
  | testing => exact isLoopLine_of_prefix "while " (by simp) (by simp)
  | looping => exact isLoopLine_of_prefix "do \x7b" (prefix_refl _) (by simp)
  | whileLoop => exact isLoopLine_of_prefix "while " (by simp) (by simp)

/-- The line that opens a block is what the block shows. -/
theorem Opener.shows (h : Opener form text) : form.Shows [text.toList] := by
  by_cases hloop : form.kind.isLoop = true
  · exact .loop h hloop
  · cases h with
    | condition => exact .branch (.inl rfl) rfl (by simpa using isAside_if _)
    | _ => exact absurd rfl hloop

theorem Opener.isProcedure_eq (h : Opener form text) (line column : Int) :
    Block.isProcedure ⟨form, line, column⟩ = false := by
  cases h <;> rfl

theorem ProcedureKind.shows_form (kind : ProcedureKind) (jsName parameters : String) :
    (kind.form jsName).Shows [(headerLine jsName parameters).toList] := by
  have hheader : isHeaderLine (headerLine jsName parameters).toList = true := by
    unfold headerLine
    simp [isHeaderLine]
  have hloop : isLoopLine (headerLine jsName parameters).toList = false := by
    unfold headerLine
    simp [isLoopLine, List.isPrefixOf]
  cases kind with
  | sub => exact .procedure rfl hheader hloop
  | function => exact .procedure rfl hheader hloop

/-! ### The stack of blocks and its frames -/

/-- The frames of some open blocks and single-line `IF`s, the innermost first, above `base` other
blocks.  A floor tells how many blocks were open before its `IF`.  A procedure has nothing around
it. -/
inductive Stacking (base : Nat) : List Block → List Nat → List (List Char) → Prop where
  | nil : Stacking base [] [] []
  | block {block : Block} {blocks : List Block} {floors : List Nat}
      {inside frames : List (List Char)} (h : block.form.Shows inside)
      (hfloor : ∀ floor ∈ floors.head?, floor ≤ base + blocks.length)
      (houter : block.isProcedure = true → blocks = [] ∧ floors = [])
      (rest : Stacking base blocks floors frames) :
      Stacking base (block :: blocks) floors (inside ++ frames)
  | inline {blocks : List Block} {floors : List Nat} {frames : List (List Char)} {text : List Char}
      (h : isAside text = true) (rest : Stacking base blocks floors frames) :
      Stacking base blocks ((base + blocks.length) :: floors) (text :: frames)

namespace Stacking

variable {base : Nat} {block : Block} {blocks : List Block} {floors : List Nat}
    {frames : List (List Char)}

theorem floor_le (h : Stacking base blocks floors frames) :
    ∀ floor ∈ floors.head?, floor ≤ base + blocks.length := by
  cases h with
  | nil => simp
  | block _ hfloor =>
    intro floor hmem
    exact Nat.le_succ_of_le (hfloor floor hmem)
  | inline => simp

theorem frames_eq_nil (h : Stacking base [] [] frames) : frames = [] := by
  cases h
  rfl

/-- Around single-line `IF`s there is one procedure at most. -/
theorem of_procedure (h : Stacking base (block :: blocks) floors frames)
    (hp : block.isProcedure = true) :
    blocks = [] ∧ floors = List.replicate floors.length (base + 1) ∧
      frames.length = floors.length + 1 ∧ ∀ text ∈ frames, isLoopLine text = false := by
  generalize hblocks : block :: blocks = all at h
  induction h with
  | nil => cases hblocks
  | block h _ houter rest =>
    cases hblocks
    obtain ⟨rfl, rfl⟩ := houter hp
    obtain ⟨kind, hkind⟩ := Block.isProcedure_iff.1 hp
    change block.form.kind = _ at hkind
    have hlength := h.length_eq
    rw [BlockForm.braces_eq_one (by simp [hkind])] at hlength
    rw [rest.frames_eq_nil, append_nil]
    exact ⟨rfl, rfl, hlength, h.plain (by rw [hkind]; rfl)⟩
  | inline h rest ih =>
    subst hblocks
    obtain ⟨rfl, hfloors, hlength, hplain⟩ := ih rfl
    refine ⟨rfl, ?_, by simp [hlength], forall_mem_cons.2 ⟨(isAside_iff.1 h).1, hplain⟩⟩
    exact congrArg (List.cons _) hfloors

end Stacking

/-- The open blocks in two layers: those that show their frames, and at most one that is lost, whose
frames were closed by the brace of a single-line `IF`.  Of the frames, some are proper to the first
layer, and the others are left over, none of them that of a loop; `count` single-line `IF`s and the
lost block will close them.  Frames are left over only where there is a cut, and no procedure is
open then. -/
structure Layers (cut : Prop) (shown lost : List Block) (above : List Nat) (count : Nat)
    (proper stale : List (List Char)) : Prop where
  stacking : Stacking lost.length shown above proper
  length : stale.length = count + bracesOf lost
  plain : ∀ text ∈ stale, isLoopLine text = false
  few : lost.length ≤ 1
  inner : ∀ block ∈ lost, block.isProcedure = false
  alone : stale ≠ [] → cut ∧ ∀ block ∈ shown, block.isProcedure = false

/-- The open blocks, the floors and the frames of a page lie in two layers.  The floors of the lower
one were set while one procedure was open. -/
def Stacks (cut : Prop) (blocks : List Block) (floors : List Nat) (frames : List (List Char)) :
    Prop :=
  ∃ shown lost above count proper stale, blocks = shown ++ lost ∧
    floors = above ++ List.replicate count 1 ∧ frames = proper ++ stale ∧
    Layers cut shown lost above count proper stale

namespace Stacks

variable {cut cut' : Prop} {block : Block} {blocks : List Block} {floors : List Nat}
  {frames inside : List (List Char)}

theorem nil (cut : Prop) : Stacks cut [] [] [] :=
  ⟨[], [], [], 0, [], [], rfl, rfl, rfl, .nil, rfl, by simp, by simp, by simp, by simp⟩

theorem of_stale {count : Nat} {stale : List (List Char)}
    (hlength : stale.length = count + bracesOf lost)
    (hplain : ∀ text ∈ stale, isLoopLine text = false) (hfew : lost.length ≤ 1)
    (hinner : ∀ block ∈ lost, block.isProcedure = false) (hcut : stale ≠ [] → cut) :
    Stacks cut lost (List.replicate count 1) stale :=
  ⟨[], lost, [], count, [], stale, rfl, rfl, rfl, .nil, hlength, hplain, hfew, hinner,
    fun hne => ⟨hcut hne, by simp⟩⟩

theorem mono (h : Stacks cut blocks floors frames) (hcut : cut → cut') :
    Stacks cut' blocks floors frames := by
  obtain ⟨shown, lost, above, count, proper, stale, hblocks, hfloors, hframes, h⟩ := h
  exact ⟨shown, lost, above, count, proper, stale, hblocks, hfloors, hframes,
    { h with alone := fun hne => (h.alone hne).imp_left hcut }⟩

/-- A block that is no procedure is opened inside the others. -/
theorem push (h : Stacks cut blocks floors frames) (hshows : block.form.Shows inside)
    (hp : block.isProcedure = false) : Stacks cut (block :: blocks) floors (inside ++ frames) := by
  obtain ⟨shown, lost, above, count, proper, stale, rfl, rfl, rfl, h⟩ := h
  refine ⟨block :: shown, lost, above, count, inside ++ proper, stale, rfl, rfl, by simp, { h with
    stacking := .block hshows h.stacking.floor_le (by simp [hp]) h.stacking
    alone := fun hne => ?_ }⟩
  exact ⟨(h.alone hne).1, forall_mem_cons.2 ⟨hp, (h.alone hne).2⟩⟩

/-- Where nothing is open, no frames are left. -/
theorem frames_eq_nil (h : Stacks cut [] [] frames) : frames = [] := by
  obtain ⟨shown, lost, above, count, proper, stale, hblocks, hfloors, rfl, h⟩ := h
  obtain ⟨rfl, rfl⟩ := append_eq_nil_iff.1 hblocks.symm
  obtain ⟨rfl, hcount⟩ := append_eq_nil_iff.1 hfloors.symm
  obtain rfl : count = 0 := by simpa using hcount
  rw [h.stacking.frames_eq_nil, eq_nil_of_length_eq_zero (l := stale) (by simpa using h.length)]
  rfl

/-- A procedure is opened where nothing is open. -/
theorem begins (h : Stacks cut [] [] frames) (hshows : block.form.Shows inside) :
    Stacks cut [block] [] (inside ++ frames) := by
  obtain rfl := h.frames_eq_nil
  exact ⟨[block], [], [], 0, inside ++ [], [], rfl, rfl,
    by simp, .block hshows (by simp) (by simp) .nil, rfl, by simp, by simp, by simp, by simp⟩

theorem enters {text : List Char} (h : Stacks cut blocks floors frames)
    (htext : isAside text = true) :
    Stacks cut blocks (blocks.length :: floors) (text :: frames) := by
  obtain ⟨shown, lost, above, count, proper, stale, rfl, rfl, rfl, h⟩ := h
  refine ⟨shown, lost, (lost.length + shown.length) :: above, count,
    text :: proper, stale, rfl, ?_, rfl, { h with stacking := .inline htext h.stacking }⟩
  rw [length_append, Nat.add_comm, cons_append]

/-- The innermost frames are those of a block that can be reached, whether it shows them or is
lost. -/
theorem top (h : Stacks cut (block :: blocks) floors frames)
    (hreach : ∀ floor ∈ floors.head?, floor < (block :: blocks).length)
    (hp : block.isProcedure = false) :
    ∃ inside outer, frames = inside ++ outer ∧ inside.length = block.form.braces ∧
      Stacks cut blocks floors outer ∧
      ∀ form texts, (block.form.kind = .condition ∨ block.form.kind = .selection) →
        form.kind = block.form.kind → texts.length = form.braces →
        (∀ text ∈ texts, isAside text = true ∨ text ∈ inside) →
        Stacks cut ({ block with form } :: blocks) floors (texts ++ outer) := by
  obtain ⟨shown, lost, above, count, proper, stale, hblocks, rfl, rfl, h⟩ := h
  obtain ⟨hstacking, hlength, hplain, hfew, hinner, halone⟩ := h
  cases hstacking with
  | nil =>
    -- The block is lost, so that the whole page is its own: no single-line `IF` is around it.
    rw [nil_append] at hblocks
    subst hblocks
    obtain rfl : blocks = [] := eq_nil_of_length_eq_zero (by simpa using hfew)
    obtain rfl : count = 0 := by
      cases count with
      | zero => rfl
      | succ n => exact absurd (hreach 1 rfl) (by simp)
    refine ⟨stale, [],
      by simp, by simpa using hlength, nil cut, fun form texts _ hkind htexts hmem => ?_⟩
    rw [append_nil]
    change Stacks cut _ (List.replicate 0 1) texts
    refine of_stale (by simpa using htexts) (fun text htext => ?_) (by simp) ?_ fun _ =>
      (halone ?_).1
    · rcases hmem text htext with haside | hold
      · exact (isAside_iff.1 haside).1
      · exact hplain text hold
    · simpa [Block.isProcedure, Block.kind, hkind] using hp
    · have := block.form.braces_pos
      simp only [bracesOf_cons] at hlength
      exact ne_nil_of_length_pos (by omega)
  | block hshows hfloor houter rest =>
    obtain ⟨rfl, rfl⟩ := List.cons.inj hblocks
    rename_i blocks inside proper
    refine ⟨inside, proper ++ stale, by simp, hshows.length_eq,
      ⟨blocks, lost, above, count, proper, stale, rfl, rfl, rfl, rest,
        hlength, hplain, hfew, hinner,
        fun hne => ⟨(halone hne).1, fun block hmem =>
          (halone hne).2 block (mem_cons_of_mem _ hmem)⟩⟩,
      fun form texts hbranch hkind htexts hmem => ?_⟩
    have hpform : Block.isProcedure { block with form } = false := by
      simpa [Block.isProcedure, Block.kind, hkind] using hp
    have hasides : ∀ text ∈ texts, isAside text = true := by
      intro text htext
      refine (hmem text htext).elim id fun hold => ?_
      cases hshows with
      | loop _ hloop => rcases hbranch with hk | hk <;> simp [hk, BlockKind.isLoop] at hloop
      | branch _ _ haside => exact haside text hold
      | procedure hk => rcases hbranch with hk' | hk' <;> simp [hk'] at hk
    refine ⟨{ block with form } :: blocks, lost, above, count, texts ++ proper,
      stale, rfl, rfl, by simp, {
      stacking := .block (.branch (by rwa [hkind]) htexts hasides) hfloor (by simp [hpform]) rest
      length := hlength
      plain := hplain
      few := hfew
      inner := hinner
      alone := fun hne => ⟨(halone hne).1, ?_⟩ }⟩
    exact forall_mem_cons.2 ⟨hpform, fun block hmem =>
      (halone hne).2 block (mem_cons_of_mem _ hmem)⟩
  | inline =>
    have := hreach _ rfl
    have hlengths := congrArg List.length hblocks
    simp only [length_cons, length_append] at this hlengths
    omega

/-- The end of a procedure closes the innermost frame.  Inside single-line `IF`s the others are left
over. -/
theorem leaveProcedure (h : Stacks cut (block :: blocks) floors frames)
    (hp : block.isProcedure = true) (hcut : floors ≠ [] → cut) :
    Stacks cut blocks floors frames.tail := by
  obtain ⟨shown, lost, above, count, proper, stale, hblocks, rfl, rfl, h⟩ := h
  cases shown with
  | nil =>
    rw [nil_append] at hblocks
    exact absurd hp (by simp [h.inner block (by simp [← hblocks])])
  | cons first shown =>
    obtain ⟨rfl, rfl⟩ := List.cons.inj hblocks
    obtain rfl : stale = [] := by
      by_contra hne
      exact absurd hp (by simp [(h.alone hne).2 block (by simp)])
    have hlength := h.length
    obtain rfl : lost = [] := by
      by_contra hne
      have := bracesOf_pos hne
      simp at hlength
      omega
    obtain rfl : count = 0 := by simpa using hlength.symm
    obtain ⟨rfl, hover, hproper, hplain⟩ := h.stacking.of_procedure hp
    simp only [replicate_zero, append_nil] at hcut ⊢
    rw [hover]
    refine of_stale (by simp [hproper]) (fun text htext => hplain text (mem_of_mem_tail htext))
      (by simp)
      (by simp) fun hne => hcut ?_
    rintro rfl
    refine hne (eq_nil_of_length_eq_zero ?_)
    simp [hproper]

/-- The lower layer, where its innermost single-line `IF` is left or turned. -/
theorem turn_stale {n : Nat} {outer : List (List Char)}
    (hlength : outer.length = n + bracesOf lost) (hplain : ∀ text ∈ outer, isLoopLine text = false)
    (hfew : lost.length ≤ 1) (hinner : ∀ block ∈ lost, block.isProcedure = false) (hcut : cut) :
    Stacks cut lost (List.replicate n 1) outer ∧
      ∀ text, isAside text = true → Stacks cut lost (List.replicate (n + 1) 1) (text :: outer) := by
  refine ⟨of_stale hlength hplain hfew hinner fun _ => hcut, fun text htext => ?_⟩
  refine of_stale ?_ (forall_mem_cons.2 ⟨(isAside_iff.1 htext).1, hplain⟩) hfew hinner fun _ => hcut
  rw [length_cons, hlength]
  omega

/-- The innermost frame of a single-line `IF` that is turned or left: its own, or that of a block
that is lost with it. -/
theorem of_floor {floor : Nat} (h : Stacks cut blocks (floor :: floors) frames)
    (hfloor : blocks.length ≤ floor) :
    ∃ top outer, frames = top :: outer ∧ Stacks cut blocks floors outer ∧
      ∀ text, isAside text = true → Stacks cut blocks (floor :: floors) (text :: outer) := by
  obtain ⟨shown, lost, above, count, proper, stale, rfl, hfloors, rfl, h⟩ := h
  obtain ⟨hstacking, hlength, hplain, hfew, hinner, halone⟩ := h
  cases above with
  | nil =>
    -- No floor is left to the upper layer, so that a block of it is lost.
    obtain ⟨n, rfl, rfl, rfl⟩ : ∃ n, count = n + 1 ∧ floor = 1 ∧ floors = List.replicate n 1 := by
      cases count with
      | zero => cases hfloors
      | succ n => exact ⟨n, rfl, List.cons.inj hfloors⟩
    have hstale : stale ≠ [] := ne_nil_of_length_pos (by omega)
    obtain ⟨hcut, hshown⟩ := halone hstale
    cases hstacking with
    | nil =>
      obtain ⟨top, outer, rfl⟩ := exists_cons_of_ne_nil hstale
      simp only [length_cons] at hlength
      simp only [nil_append]
      exact ⟨top, outer, rfl, turn_stale (by omega) (forall_mem_cons.1 hplain).2 hfew hinner hcut⟩
    | block hshows hle houter rest =>
      rename_i block blocks inside proper
      obtain ⟨rfl, rfl⟩ : blocks = [] ∧ lost = [] := by simpa using hfloor
      obtain rfl := rest.frames_eq_nil
      obtain ⟨top, inside, rfl⟩ :=
        exists_cons_of_length_pos (hshows.length_eq ▸ block.form.braces_pos)
      have hbraces := hshows.length_eq
      simp only [append_nil]
      refine ⟨top, inside ++ stale, by simp, turn_stale ?_ ?_ (by simp) hshown hcut⟩
      · simp only [bracesOf_nil, bracesOf_cons, length_append, length_cons] at hlength hbraces ⊢
        omega
      · intro text htext
        rcases mem_append.1 htext with htext | htext
        · exact hshows.tail_plain text htext
        · exact hplain text htext
  | cons first above =>
    obtain ⟨rfl, rfl⟩ := List.cons.inj hfloors
    cases hstacking with
    | block _ hle =>
      have := hle _ rfl
      simp only [length_append, length_cons] at hfloor
      omega
    | inline haside rest =>
      exact ⟨_, _, rfl, ⟨shown, lost, above, count, _, stale, rfl, rfl, rfl, rest, hlength,
        hplain, hfew, hinner, halone⟩,
        fun text htext => ⟨shown, lost, _ :: above, count, text :: _, stale, rfl, rfl,
          rfl, .inline htext rest, hlength, hplain, hfew, hinner, halone⟩⟩

end Stacks

/-! ### Events -/

/-- A procedure was ended inside a single-line `IF`. -/
def State.Severs (s : State) : Prop :=
  ∃ removal ∈ s.removed, removal.block.isProcedure = true ∧ removal.inLine = true

/-- The open blocks of the state and the frames of its page lie in layers. -/
def State.Stacked (s : State) : Prop := Stacks s.Severs s.blocks s.floors s.frames

namespace State.Stacked

variable {tape : Tape} {s : State} {e : Event}

theorem of_stacks {s' : State} {blocks : List Block} {floors : List Nat} {frames : List (List Char)}
    (h : Stacks s.Severs blocks floors frames) (hremoved : s'.removed = s.removed)
    (hblocks : s'.blocks = blocks) (hfloors : s'.floors = floors) (hframes : s'.frames = frames) :
    s'.Stacked := by
  have hsevers : s'.Severs = s.Severs := by rw [State.Severs, hremoved]; rfl
  rw [State.Stacked, hsevers, hblocks, hfloors, hframes]
  exact h

theorem of_written {scopes : Scopes} (h : s.Stacked) (hd : Flat d.text) :
    ({ s with scopes }.written d).Stacked := by
  have hframes := State.frames_written (s := { s with scopes }) hd
  obtain ⟨page, scopes, hwritten⟩ := State.written_eq { s with scopes } d
  rw [hwritten] at hframes ⊢
  exact of_stacks h rfl rfl rfl hframes

/-- The innermost block, which a statement can reach, and its frames. -/
theorem of_tops (h : s.Stacked) (htops : s.Tops form)
    (hform : form.kind = .condition ∨ form.kind = .selection) :
    ∃ block rest inside outer, s.blocks = block :: rest ∧ block.form = form ∧
      s.frames = inside ++ outer ∧ inside.length = form.braces ∧
      ∀ form' texts, form'.kind = form.kind → texts.length = form'.braces →
        (∀ text ∈ texts, isAside text = true ∨ text ∈ inside) →
        Stacks s.Severs ({ block with form := form' } :: rest) s.floors (texts ++ outer) := by
  obtain ⟨block, hblock, rfl⟩ := Option.map_eq_some_iff.1 htops.2
  obtain ⟨rest, hblocks⟩ := head?_eq_some_iff.1 hblock
  have hreach := State.Nestled.reach_of_floor htops.1
  have hp : block.isProcedure = false := by
    rcases hform with hkind | hkind <;> simp [Block.isProcedure, Block.kind, hkind]
  unfold State.Stacked at h
  rw [hblocks] at h hreach
  obtain ⟨inside, outer, hframes, hlength, -, hother⟩ := h.top hreach hp
  exact ⟨block, rest, inside, outer, hblocks, rfl, hframes, hlength, fun form' texts =>
    hother form' texts hform⟩

/-- A case of a selection opens the first branch or turns to the next. -/
theorem tests (h : s.Stacked) (hfit : (Event.tests test).Fits tape s) :
    ((Event.tests test).apply s).Stacked := by
  obtain ⟨htest, value, cases, hasElse, htops, -⟩ := hfit
  obtain ⟨block, rest, inside, outer, hblocks, hform, hframes, hlength, hother⟩ :=
    h.of_tops htops (.inr rfl)
  simp only [Event.apply, htops.2]
  cases cases with
  | zero =>
    have hfirst := State.frames_openBrace (s := s) (opensBrace_firstCase htest)
    rw [hframes] at hfirst
    rw [State.caseLine_zero]
    simp only [State.reform, State.openBrace, hblocks]
    refine of_stacks (hother (.selection value 1 _) ((firstCase test).toList :: inside) rfl ?_ ?_)
      rfl rfl rfl hfirst
    · simp [hlength]
    · intro text htext
      rcases mem_cons.1 htext with rfl | hold
      · exact .inl (isAside_firstCase test)
      · exact .inr hold
  | succ n =>
    have hnext := State.frames_turnBrace (s := s) (turnsBrace_nextCase htest)
    obtain ⟨top, inside, rfl⟩ := exists_cons_of_length_pos (l := inside) (by simp [hlength])
    rw [hframes] at hnext
    rw [State.caseLine_succ]
    simp only [State.reform, State.turnBrace, hblocks]
    refine of_stacks (hother (.selection value (n + 2) _) ((nextCase test).toList :: inside) rfl
      ?_ ?_) rfl rfl rfl hnext
    · simpa using hlength
    · intro text htext
      rcases mem_cons.1 htext with rfl | hold
      · exact .inl (isAside_nextCase test)
      · exact .inr (mem_cons_of_mem _ hold)

theorem turn {hasElse : Bool} (after : Bool) (h : s.Stacked) (htops : s.Tops (.condition hasElse))
    (htext : TurnsBrace text) (haside : isAside text.toList = true) :
    ((s.turnBrace text).reform (.condition after)).Stacked := by
  obtain ⟨block, rest, inside, outer, hblocks, hform, hframes, hlength, hother⟩ :=
    h.of_tops htops (.inl rfl)
  obtain ⟨top, rfl⟩ := length_eq_one_iff.1 (hlength.trans rfl)
  have hturn := State.frames_turnBrace (s := s) htext
  rw [hframes] at hturn
  simp only [State.reform, State.turnBrace, hblocks]
  exact of_stacks (hother (.condition after) [text.toList] rfl rfl (by simp [haside]))
    rfl rfl rfl hturn

theorem severs_without {block : Block} {rest : List Block} (closed : Bool) (h : s.Severs) :
    (s.without block rest closed).Severs := by
  obtain ⟨removal, hmem, hsevers⟩ := h
  exact ⟨removal, mem_cons_of_mem _ hmem, hsevers⟩

/-- The end of a block closes its frames; that of a procedure may cut the stack. -/
theorem ends (h : s.Stacked) (hs : Sound tape s)
    (hfit : (Event.ends test).Fits tape s) : ((Event.ends test).apply s).Stacked := by
  obtain ⟨block, hblock, htest, hwithin⟩ := hfit
  obtain ⟨rest, hblocks⟩ := head?_eq_some_iff.1 hblock
  have hframes := State.frames_finishWith (s := s.without block rest true)
    (hs.blocks block (by simp [hblocks])).result htest
  simp only [Event.apply, hblocks]
  obtain ⟨page, scopes, hfinish⟩ := (s.without block rest true).finishWith_eq block.form test
  rw [hfinish] at hframes ⊢
  rw [State.Stacked, hblocks] at h
  suffices hrest :
      Stacks (s.without block rest true).Severs rest s.floors (s.frames.drop block.form.braces) from
    of_stacks hrest rfl rfl rfl hframes
  cases hp : block.isProcedure with
  | false =>
    have hreach : ∀ floor ∈ s.floors.head?, floor < (block :: rest).length := by
      rcases hwithin with hfloor | ⟨kind, hkind⟩
      · exact hblocks ▸ State.Nestled.reach_of_floor hfloor
      · simp [Block.isProcedure, hkind] at hp
    obtain ⟨inside, outer, hsplit, hlength, hrest, -⟩ := h.top hreach hp
    rw [hsplit, ← hlength, drop_left]
    exact hrest.mono (severs_without true)
  | true =>
    obtain ⟨kind, hkind⟩ := Block.isProcedure_iff.1 hp
    rw [BlockForm.braces_eq_one (by simp [hkind]), drop_one]
    refine (h.mono (severs_without true)).leaveProcedure hp fun hfloors => ?_
    exact ⟨_, mem_cons_self, hp, by simpa using hfloors⟩

/-- **Every event** keeps the layers, if it reports no block as never closed. -/
theorem apply (h : s.Stacked) (hs : Sound tape s) (hfit : e.Fits tape s)
    (hclean : ¬ HasError (e.apply s).collector.toList) : (e.apply s).Stacked := by
  cases e with
  | advances | breaks | reports | counts | passes | names | lends | regains => exact h
  | records r =>
    obtain ⟨caught, recorded, line, ds, he⟩ := s.refused_eq r
    rw [Event.apply, he]
    exact h
  | enrols entry => cases entry <;> exact h
  | introduces name v d => exact h.of_written hfit.2.1
  | defines d => exact h.of_written hfit.1
  | emits text => exact of_stacks h rfl rfl rfl (State.frames_addLine hfit)
  | exits kind => exact of_stacks h rfl rfl rfl (State.frames_addLine (s := s) flat_break)
  | opens form text token =>
    obtain ⟨hopener, -⟩ := hfit
    have hpush := Stacks.push h hopener.shows (hopener.isProcedure_eq token.line token.column)
    exact of_stacks hpush rfl rfl rfl (State.frames_openBrace hopener.opensBrace)
  | selects value selector token =>
    obtain ⟨hvalue, hselector, -⟩ := hfit
    have hframes := State.frames_addLine (s := s.openBrace "\x7b") (flat_const hvalue hselector)
    have hshows : (BlockForm.selection value 0 false).Shows ["\x7b".toList] :=
      .branch (.inr rfl) rfl (by decide +kernel)
    have hpush :
        Stacks s.Severs (⟨.selection value 0 false, token.line, token.column⟩ :: s.blocks)
          s.floors _ :=
      Stacks.push h hshows rfl
    exact of_stacks hpush rfl rfl rfl (hframes.trans (State.frames_openBrace (Reads.start rfl)))
  | begins kind name jsName parameters token =>
    obtain ⟨hj, hp, -, hblocks, hfloors, -⟩ := hfit
    rw [State.Stacked, hblocks, hfloors] at h
    have hbegins : Stacks s.Severs [⟨kind.form jsName, token.line, token.column⟩] [] _ :=
      Stacks.begins h (kind.shows_form jsName (Text.commas parameters))
    exact of_stacks hbegins rfl (congrArg (List.cons _) hblocks) hfloors
      (State.frames_openBrace (opensBrace_header hj hp))
  | tests test => exact h.tests hfit
  | elseIfs condition =>
    obtain ⟨hcondition, hasElse, htops, -⟩ := hfit
    have hturn := h.turn hasElse htops (turnsBrace_elseIf hcondition.inner)
      (isAside_elseIf condition)
    rwa [State.reform_of_topForm? htops.2] at hturn
  | elses =>
    obtain ⟨hasElse, htops, -⟩ := hfit
    have hturn := h.turn true htops turnsBrace_else isAside_else
    rwa [State.reform_turnBrace] at hturn
  | ends test => exact h.ends hs hfit
  | abandons => exact absurd (Event.hasError_abandons hfit) hclean
  | enters condition =>
    have hcondition : Sealed condition := hfit
    exact of_stacks (Stacks.enters h (isAside_if condition)) rfl rfl rfl
      (State.frames_openBrace (opensBrace_if hcondition.inner))
  | turns =>
    obtain ⟨floor, rest, hfloors, hle⟩ := hfit
    rw [State.Stacked, hfloors] at h
    obtain ⟨top, outer, hframes, -, hturn⟩ := h.of_floor hle
    refine of_stacks (hturn _ isAside_else) rfl rfl hfloors ?_
    exact (State.frames_turnBrace turnsBrace_else).trans (by rw [hframes]; rfl)
  | leaves =>
    obtain ⟨floor, rest, hfloors, hle⟩ := hfit
    rw [State.Stacked, hfloors] at h
    obtain ⟨top, outer, hframes, hleave, -⟩ := h.of_floor hle
    refine of_stacks hleave rfl rfl (congrArg (List.drop 1) hfloors) ?_
    exact (State.frames_closeBrace (s := s) closesBrace_plain).trans (by rw [hframes]; rfl)

end State.Stacked

end BasicScript
