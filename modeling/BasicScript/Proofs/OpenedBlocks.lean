import BasicScript.Proofs.Containment
import BasicScript.Proofs.Target
import Mathlib.Data.List.Nodup

/-!
# The account of blocks

A block is opened by its keyword, and later taken off the stack: by its own closing statement, or
because something else ends and it is given up.  Only what is given up is reported.  Each event
keeps the account of this (`Accounted`): the blocks that were opened are those that are open and
those that were taken off, no two of them at one place, and the reports are those on the blocks that
were given up.

* `blocks_accounted`: where the pass over a source ends, every block that was opened was taken off
  exactly once, and the errors on unclosed blocks are exactly those on the blocks that their own
  closing statements did not take off; or a number with too many digits ended the pass, as it does
  in `open_loop_not_reported`.
-/

namespace BasicScript

open Emit Lexer List

variable {tape : Tape} {level : Level} {s s' : State} {es : List Event} {e : Event}
    {block : Block} {rest : List Block}
  {d : Diagnostic}

/-! ### Reports on blocks -/

/-- The place of the keyword that opened a block. -/
def Block.place (block : Block) : Int × Int := (block.line, block.column)

/-- What a block keeps as long as it is open: its kind and its place. -/
def Block.mark (block : Block) : BlockKind × Int × Int := (block.kind, block.place)

/-- The report on a block that is never closed: the message and the place. -/
def Block.complaint (block : Block) : String × Int × Int := (block.kind.unclosed, block.place)

/-- The errors that report blocks as never closed: their messages and places. -/
def complaints (ds : List Diagnostic) : List (String × Int × Int) :=
  (ds.filter fun d => d.isError && unclosedMessages.contains d.message).map fun d =>
    (d.message, d.line, d.column)

@[simp] theorem complaints_append (ds ds' : List Diagnostic) :
    complaints (ds ++ ds') = complaints ds ++ complaints ds' := by
  simp [complaints]

/-- Another report is none on a block. -/
theorem complaints_of_apart (h : d.isError = true → Apart d.message) : complaints [d] = [] := by
  have hnone : d.isError = true → d.message ∉ unclosedMessages := fun herror hmem =>
    (h herror _ hmem).1 (prefix_refl _)
  simpa [complaints] using hnone

theorem complaints_unclosed (block : Block) :
    complaints [⟨.error, .syntactic, block.kind.unclosed, block.line, block.column, 1, []⟩] =
      [block.complaint] := by
  simp [complaints, Diagnostic.isError, mem_unclosedMessages, Block.complaint, Block.place]

/-! ### Places -/

/-- A block was opened in front of another. -/
def Block.Precedes (block other : Block) : Prop :=
  block.line < other.line ∨ block.line = other.line ∧ block.column < other.column

theorem Block.Precedes.ne {other : Block} (h : block.Precedes other) :
    other.place ≠ block.place := by
  intro heq
  obtain ⟨hline, hcolumn⟩ := Prod.mk.inj heq
  unfold Block.Precedes at h
  omega

/-- Blocks stand one behind the other as their tokens do. -/
theorem Tape.OpenedAt.precedes {place before : Nat} {earlier : Block}
    (h : tape.OpenedAt before earlier) (h' : tape.OpenedAt place block) (hlt : before < place) :
    earlier.Precedes block := by
  obtain ⟨token, htoken, -, hline, hcolumn⟩ := h
  obtain ⟨token', htoken', -, hline', hcolumn'⟩ := h'
  obtain ⟨hbound, rfl⟩ := Array.getElem?_eq_some_iff.1 htoken
  obtain ⟨hbound', rfl⟩ := Array.getElem?_eq_some_iff.1 htoken'
  have hprecedes := pairwise_iff_getElem.1 tape.rising before place (by simpa) (by simpa) hlt
  rw [Block.Precedes, ← hline, ← hcolumn, ← hline', ← hcolumn']
  exact hprecedes

/-! ### The account -/

/-- The blocks that were opened are the open ones and those that were taken off, no two at one
place.  The reports on unclosed blocks are those on the blocks that their own closing statements did
not take off. -/
structure Accounted (s : State) : Prop where
  kept : (s.opened.map Block.mark).Perm (s.blocks.map Block.mark ++ s.removed.map (·.block.mark))
  rising : s.opened.Pairwise fun block earlier => earlier.Precedes block
  reported : (complaints s.collector.toList).Perm
    ((s.removed.filter (!·.closed)).map (·.block.complaint))

namespace Accounted

theorem start {collector : Collector} (h : complaints collector.toList = []) :
    Accounted { collector } :=
  ⟨.nil, .nil, .of_eq h⟩

/-- No block is opened or taken off. -/
theorem plain (h : Accounted s) (hblocks : s'.blocks.map Block.mark = s.blocks.map Block.mark)
    (hopened : s'.opened = s.opened) (hremoved : s'.removed = s.removed)
    (hreports : complaints s'.collector.toList = complaints s.collector.toList) : Accounted s' where
  kept := by rw [hopened, hblocks, hremoved]; exact h.kept
  rising := by rw [hopened]; exact h.rising
  reported := by rw [hreports, hremoved]; exact h.reported

/-- A token opens a block, behind all that opened others. -/
theorem pushes (form : BlockForm) {token : Token} (h : Accounted s)
    (ht : tape.Opens s form.kind token)
    (hblocks : s'.blocks = ⟨form, token.line, token.column⟩ :: s.blocks)
    (hopened : s'.opened = ⟨form, token.line, token.column⟩ :: s.opened)
    (hremoved : s'.removed = s.removed) (hreports : s'.collector = s.collector) : Accounted s' where
  kept := by
    rw [hopened, hblocks, hremoved]
    exact h.kept.cons _
  rising := by
    rw [hopened]
    refine pairwise_cons.2 ⟨fun earlier hearlier => ?_, h.rising⟩
    obtain ⟨place, htoken, -, hbefore⟩ := ht.place
    obtain ⟨before, hlt, hat⟩ := hbefore earlier hearlier
    exact hat.precedes ⟨token, htoken, ht.keyword, rfl, rfl⟩ hlt
  reported := by rw [hreports, hremoved]; exact h.reported

/-- The innermost block is taken off, and reported if its own closing statement did not do so. -/
theorem removes (closed : Bool) {inLine : Bool} (h : Accounted s) (hb : s.blocks = block :: rest)
    (hblocks : s'.blocks = rest) (hopened : s'.opened = s.opened)
    (hremoved : s'.removed = ⟨block, closed, inLine⟩ :: s.removed)
    (hreports : complaints s'.collector.toList =
      complaints s.collector.toList ++ if closed then [] else [block.complaint]) :
        Accounted s' where
  kept := by
    have hkept := h.kept
    rw [hb] at hkept
    rw [hopened, hblocks, hremoved]
    exact hkept.trans perm_middle.symm
  rising := by rw [hopened]; exact h.rising
  reported := by
    rw [hreports, hremoved]
    cases closed with
    | true => simpa using h.reported
    | false => simpa using (perm_append_singleton _ _).trans (h.reported.cons _)

/-- A block that gets another form keeps its kind and its place. -/
theorem marks_reform {old : BlockForm} (form : BlockForm) (htop : s.topForm? = some old)
    (hk : form.kind = old.kind) :
    (s.reform form).blocks.map Block.mark = s.blocks.map Block.mark := by
  obtain ⟨block, hblock, rfl⟩ := Option.map_eq_some_iff.1 htop
  obtain ⟨rest, hblocks⟩ := head?_eq_some_iff.1 hblock
  simp [State.reform, hblocks, Block.mark, Block.place, Block.kind, hk]

/-- **Every event** keeps the account. -/
theorem apply (h : Accounted s) (hfit : e.Fits tape s) : Accounted (e.apply s) := by
  cases e with
  | reports d =>
    refine h.plain rfl rfl rfl ?_
    simp [Event.apply, State.reported, complaints_of_apart hfit.2]
  | records r =>
    rw [Event.apply]
    by_cases hline : r.line = s.lastRejectedLine
    · rw [State.refused_of_eq hline]
      exact h.plain rfl rfl rfl rfl
    · rw [State.refused_of_ne hline]
      refine h.plain rfl rfl rfl ?_
      have hapart : complaints [r.diagnostic] = [] := complaints_of_apart fun _ => hfit.apart
      simp [State.reported, hapart]
  | enrols entry => cases entry <;> exact h.plain rfl rfl rfl rfl
  | introduces name v d =>
    obtain ⟨page, scopes, he⟩ := State.written_eq { s with scopes := (s.scopes.declare name v).2 } d
    rw [Event.apply, he]
    exact h.plain rfl rfl rfl rfl
  | defines d =>
    obtain ⟨page, scopes, he⟩ := s.written_eq d
    rw [Event.apply, he]
    exact h.plain rfl rfl rfl rfl
  | opens form text token => exact h.pushes form hfit.2 rfl rfl rfl rfl
  | selects value selector token =>
    exact h.pushes (.selection value 0 false) hfit.2.2 rfl rfl rfl rfl
  | begins kind name jsName parameters token =>
    have hkind : (kind.form jsName).kind = .procedure kind := by cases kind <;> rfl
    exact h.pushes (kind.form jsName) (hkind ▸ hfit.2.2.1) rfl rfl rfl rfl
  | tests test =>
    obtain ⟨-, value, cases, hasElse, ⟨-, htop⟩, -⟩ := hfit
    obtain ⟨page, hpage⟩ := s.caseLine_eq cases test
    obtain ⟨blocks, hreform⟩ :=
      State.reform_eq { s with page } (.selection value (cases + 1) (hasElse || test.isNone))
    have hmarks :=
      marks_reform (s := { s with page })
        (.selection value (cases + 1) (hasElse || test.isNone)) htop rfl
    simp only [Event.apply, htop, hpage]
    rw [hreform] at hmarks ⊢
    exact h.plain hmarks rfl rfl rfl
  | elses =>
    obtain ⟨hasElse, ⟨-, htop⟩, -⟩ := hfit
    obtain ⟨blocks, hreform⟩ := s.reform_eq (.condition true)
    have hmarks := marks_reform (.condition true) htop rfl
    rw [Event.apply]
    rw [hreform] at hmarks ⊢
    exact h.plain hmarks rfl rfl rfl
  | ends test =>
    obtain ⟨block, hblock, -⟩ := hfit
    obtain ⟨rest, hb⟩ := head?_eq_some_iff.1 hblock
    obtain ⟨page, scopes, he⟩ := (s.without block rest true).finishWith_eq block.form test
    simp only [Event.apply, hb]
    rw [he]
    exact h.removes true hb rfl rfl rfl (append_nil _).symm
  | abandons =>
    obtain ⟨block, rest, hb⟩ := exists_cons_of_ne_nil hfit
    obtain ⟨page, scopes, he⟩ := State.abandons_eq hb
    rw [he]
    refine h.removes false hb rfl rfl rfl ?_
    simp only [State.reported, State.without, Collector.toList_add,
      complaints_append, complaints_unclosed]
    rfl
  | _ => exact h.plain rfl rfl rfl rfl

end Accounted

/-- **A run** keeps the account. -/
theorem Run.accounted (h : Run tape level s es s') (hs : Accounted s) : Accounted s' :=
  h.invariant (I := Accounted) Accounted.apply hs

namespace Accounted

/-- No two blocks were opened at one place. -/
theorem opened_nodup (h : Accounted s) : (s.opened.map Block.place).Nodup := by
  rw [Nodup, pairwise_map]
  exact h.rising.imp Block.Precedes.ne

/-- So no two blocks that are open or were taken off have one place. -/
theorem nodup (h : Accounted s) :
    (s.blocks.map Block.place ++ s.removed.map (·.block.place)).Nodup := by
  have hplaces := h.kept.map Prod.snd
  rw [map_append, map_map, map_map, map_map] at hplaces
  exact hplaces.nodup_iff.1 h.opened_nodup

/-- A block that its own closing statement took off is not reported. -/
theorem closed_silent {removal : Removal} (h : Accounted s) (hmem : removal ∈ s.removed)
    (hclosed : removal.closed = true) :
    ∀ complaint ∈ complaints s.collector.toList, complaint.2 ≠ removal.block.place := by
  intro complaint hcomplaint heq
  obtain ⟨other, hother, rfl⟩ := mem_map.1 (h.reported.subset hcomplaint)
  obtain ⟨hmem', hopen⟩ := mem_filter.1 hother
  have hsame : other = removal := inj_on_of_nodup_map h.nodup.of_append_right hmem' hmem heq
  rw [hsame, hclosed] at hopen
  cases hopen

end Accounted

/-! ### The pass -/

/-- Reading a source reports no error. -/
theorem Lexer.isError_warnings (pieces : List Piece) (place : Place) :
    ∀ d ∈ (scanFrom place pieces).warnings, d.isError = false := by
  induction pieces generalizing place with
  | nil => simp [scanFrom]
  | cons piece rest ih =>
    have hpiece : ∀ d ∈ piece.warnings place, d.isError = false := by
      unfold Piece.warnings
      split <;> simp [Diagnostic.isError]
    unfold scanFrom
    split
    · exact ih _
    · exact forall_mem_append.2 ⟨hpiece, ih _⟩
    · simp

theorem complaints_firstState (source : String) :
    complaints (firstState source).collector.toList = [] := by
  rw [firstState, Collector.toList_addAll, Collector.toList_empty, nil_append,
    complaints, map_eq_nil_iff, filter_eq_nil_iff]
  intro d hd
  simp [isError_warnings _ _ d hd]

theorem accounted_lastState (source : String) : Accounted (lastState source) := by
  have hfirst : Accounted (firstState source) := .start (complaints_firstState source)
  cases hread : (scan source).fault with
  | some fault => rw [lastState_of_unread hread]; exact hfirst
  | none =>
    obtain ⟨s, page, ⟨es, hrun⟩, hlast⟩ := exists_path_lastState hread
    exact hlast ▸ { hrun.accounted hfirst with }

/-- What is reported of blocks is what the pass reports of them. -/
theorem complaints_recorded (source : String) (target : Target) :
    complaints (recorded target source) = complaints (lastState source).collector.toList := by
  rcases recorded_cases source target with h | ⟨failure, h⟩
  · rw [h]
  · have hapart (text : String) : Apart ("Internal compiler error: " ++ text) :=
      .append (.of_letters rfl rfl)
    rw [h, Generated.failed, Collector.toList_add, complaints_append,
      complaints_of_apart, append_nil]
    exact fun _ => hapart _

/-- A block stands at the keyword that opened it. -/
theorem opened_at_keyword (source : String) :
    ∀ block ∈ (lastState source).opened, ∃ token ∈ (scan source).tokens,
    token.isKeyword block.kind.opener = true ∧ (token.line, token.column) = block.place := by
  cases hread : (scan source).fault with
  | some fault => rw [lastState_of_unread hread]; simp [firstState]
  | none =>
    obtain ⟨s, page, hpath, hlast⟩ := exists_path_lastState hread
    intro block hblock
    rw [hlast] at hblock
    obtain ⟨place, -, token, htoken, hkeyword, hline, hcolumn⟩ :=
      (hpath.sound (sound_start _ _)).opened block hblock
    exact ⟨token, mem_toArray.1 (Array.mem_of_getElem? htoken), hkeyword, Prod.ext hline hcolumn⟩

/-- Unless a number has too many digits, every block is taken off. -/
theorem blocks_lastState (source : String) : (lastState source).blocks = [] ∨
    ∃ count, pass (scan source).tokens.toArray (firstState source).collector =
      .error (.fault (.tooManyDigits count)) (lastState source) := by
  cases hread : (scan source).fault with
  | some fault => exact .inl (by rw [lastState_of_unread hread]; rfl)
  | none =>
    rcases pass_cases (Tape.ofSource source hread) (firstState source).collector with
      ⟨s, hfinished, hpass⟩ | ⟨fault, s, hpass, -, hfault⟩
    · obtain ⟨page, hhoisted⟩ := s.hoisted_eq
      rw [lastState_of_ok hread hpass, hhoisted]
      exact .inl hfinished.blocks
    · obtain ⟨token, -, -, -, -, rfl⟩ := hfault.tooManyDigits
      rw [lastState_of_error hread hpass]
      exact .inr ⟨_, hpass⟩

/-- **Every block is accounted for.**  Each block that the pass over a source opens stands at its
own keyword, no two at one place.  It is taken off exactly once: at the end none is open, unless a
number with too many digits ended the pass.  The errors on unclosed blocks are those on the blocks
that their own closing statements did not take off, each at the keyword of its block and as often; a
block that its own closing statement took off is never reported. -/
theorem blocks_accounted (source : String) :
    (∀ block ∈ (lastState source).opened, ∃ token ∈ (scan source).tokens,
        token.isKeyword block.kind.opener = true ∧ (token.line, token.column) = block.place) ∧
      ((lastState source).opened.map Block.place).Nodup ∧
      ((lastState source).opened.map Block.mark).Perm
        ((lastState source).blocks.map Block.mark ++
          (lastState source).removed.map (·.block.mark)) ∧
      ((lastState source).blocks = [] ∨
        ∃ count, pass (scan source).tokens.toArray (firstState source).collector =
          .error (.fault (.tooManyDigits count)) (lastState source)) ∧
      ∀ target, (complaints (recorded target source)).Perm
          (((lastState source).removed.filter (!·.closed)).map (·.block.complaint)) ∧
        ∀ removal ∈ (lastState source).removed, removal.closed = true →
          ∀ complaint ∈ complaints (recorded target source), complaint.2 ≠ removal.block.place := by
  have h := accounted_lastState source
  refine ⟨opened_at_keyword source, h.opened_nodup, h.kept, blocks_lastState source,
    fun target => ?_⟩
  rw [complaints_recorded]
  exact ⟨h.reported, fun removal hmem hclosed => h.closed_silent hmem hclosed⟩

-- The `FOR` is closed by its own `NEXT`, which gives up the loop inside it.
example : complaints (recorded .node "FOR i = 1 TO 2\nDO\nNEXT") = [("DO without LOOP", 2, 1)] := by
  decide +kernel

/-! ### A loop that is never taken off -/

/-- A loop that is not closed, and a literal in it. -/
def literalInLoop (text : String) : List Token :=
  [.word "DO", .lineEnd, .word "WHILE", .numeral text]

section Literal

variable {text : String} (hdigits : ∀ c ∈ text.toList, isDigit c = true)
  (hlimit : digitLimit < text.toList.length)

include hdigits hlimit

theorem lexical_literalInLoop :
    (∀ t ∈ literalInLoop text, t.InTree) ∧ ∀ t ∈ literalInLoop text, t.Lexical :=
  lexical_literal hdigits hlimit [.word "DO", .lineEnd, .word "WHILE"] [] (by decide +kernel)

/-- The pass fails inside the loop, with nothing reported. -/
theorem pass_literalInLoop (tokens : Array Token)
    (htokens : tokens.toList.map Token.bare = literalInLoop text ++ [.inputEnd])
    (collector : Collector) :
    ∃ s block, pass tokens collector = .error (.fault (.tooManyDigits text.toList.length)) s ∧
      block.kind = .looping ∧ s.blocks = [block] ∧ s.collector = collector := by
  have hannounce : announce tokens { collector } = .ok () { collector } :=
    announce_gives (lexical_literalInLoop hdigits hlimit).1 htokens
  have hahead : Ahead tokens ({ collector } : State).position
      [.word "DO", .lineEnd, .word "WHILE", .numeral text, .inputEnd] :=
    ⟨0, rfl, htokens ▸ prefix_rfl⟩
  have hsize : tokens.size = 5 := by
    have hlength := congrArg List.length htokens
    simpa [literalInLoop] using hlength
  obtain ⟨t, hpasses⟩ := word_passes [] isLineEnd_lineEnd hahead rfl
  obtain ⟨s, hdo, hleaves⟩ :=
    endlessDo_leaves (tracks_start collector) rfl isLineEnd_lineEnd t hahead.tail
  have hloop := hpasses hdo hleaves
  have hbehind := hloop.ahead [.word "DO", .lineEnd] hahead rfl
  have hposition : (s.moved Token.lineEnd.skips).position = 0 + 2 := hloop.leaves.went.position
  have hturns : ((s.moved Token.lineEnd.skips).position - 0).toNat < tokens.size + 1 := by
    rw [hposition, hsize]
    decide
  have hstatements := hloop.runs.fails (statementTurn_tooManyDigits hdigits hlimit hbehind) _ hturns
  exact ⟨_, ⟨.looping true, t.line, t.column⟩,
    (bind_ok hannounce _).trans (bind_error hstatements _), rfl, hloop.leaves.blocks,
    hloop.leaves.went.collector⟩

/-- So the loop stays open, and is not reported. -/
theorem literalInLoop_unreported :
    (scan (textOf (literalInLoop text))).fault = none ∧
      (∃ block ∈ (lastState (textOf (literalInLoop text))).opened, block.kind = .looping ∧
        ∀ removal ∈ (lastState (textOf (literalInLoop text))).removed,
        removal.block.place ≠ block.place) ∧
      ∀ target, complaints (recorded target (textOf (literalInLoop text))) = [] := by
  obtain ⟨htree, hlexical⟩ := lexical_literalInLoop hdigits hlimit
  obtain ⟨htokens, -, hread⟩ := scan_textOf htree hlexical
  obtain ⟨s, block, hpass, hkind, hblocks, hcollector⟩ := pass_literalInLoop hdigits hlimit
    (scan (textOf (literalInLoop text))).tokens.toArray htokens
    (firstState (textOf (literalInLoop text))).collector
  have haccounted := accounted_lastState (textOf (literalInLoop text))
  have hlast := lastState_of_error hread hpass
  refine ⟨hread, ?_, fun target => ?_⟩
  · have hmark : block.mark ∈ (lastState (textOf (literalInLoop text))).opened.map Block.mark := by
      refine haccounted.kept.mem_iff.2 (mem_append_left _ ?_)
      rw [hlast, hblocks]
      exact mem_singleton.2 rfl
    obtain ⟨opened, hopened, hsame⟩ := mem_map.1 hmark
    obtain ⟨hkinds, hplaces⟩ := Prod.mk.inj hsame
    refine ⟨opened, hopened, hkinds.trans hkind, fun removal hremoval heq => ?_⟩
    have hnodup := haccounted.nodup
    rw [hlast, hblocks] at hnodup
    rw [hlast] at hremoval
    exact (nodup_cons.1 hnodup).1 (mem_map.2 ⟨removal, hremoval, heq.trans hplaces⟩)
  · rw [complaints_recorded, hlast, hcollector, complaints_firstState]

end Literal

/-- **What keeps a loop from being taken off**, and its report from being made: a literal of 4301
digits in it. -/
theorem open_loop_not_reported :
    (scan (textOf (literalInLoop tooManyOnes))).fault = none ∧
      (∃ block ∈ (lastState (textOf (literalInLoop tooManyOnes))).opened, block.kind = .looping ∧
        ∀ removal ∈ (lastState (textOf (literalInLoop tooManyOnes))).removed,
        removal.block.place ≠ block.place) ∧
      ∀ target, complaints (recorded target (textOf (literalInLoop tooManyOnes))) = [] :=
  literalInLoop_unreported isDigit_tooManyOnes digitLimit_lt_tooManyOnes

end BasicScript
