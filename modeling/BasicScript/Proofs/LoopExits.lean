import BasicScript.Proofs.Arity
import BasicScript.Proofs.OpenLoops
import BasicScript.Proofs.Quoting

/-!
# Which loop an `EXIT` leaves

`EXIT FOR`, `EXIT DO` and `EXIT WHILE` become `break;`, if a block of the named kind is open
somewhere around them.  A `break` leaves the innermost loop of any kind.  So in a program without
errors it leaves the loop of the innermost block of the named kind exactly when the innermost open
loop is of that kind, and its frame was not closed behind the end of a procedure inside a
single-line `IF` (`exit_leaves_named_iff`).

What stands around an `EXIT` is noted when it is met (`State.exits`).  The lines in front of it stay
in the log, so that the frames around it can be read off the generated lines (`Exit.Stands`).
-/

namespace BasicScript

open Script Emit List

variable {floors : List Nat} {frames : List (List Char)} {exit : Exit} {sc sc' : Scopes}

/-! ### Loops of the stack -/

section BreakTarget

variable {texts : List (List Char)}

theorem breakTarget_eq_none (h : ∀ text ∈ frames, isLoopLine text = false) :
    breakTarget frames = none := by
  induction frames with
  | nil => rfl
  | cons text rest ih =>
    obtain ⟨htext, hrest⟩ := forall_mem_cons.1 h
    simp [breakTarget, htext, ih hrest]

/-- A `break` looks past frames that are neither loops nor procedures. -/
theorem breakTarget_append (h : ∀ text ∈ texts, isAside text = true) :
    breakTarget (texts ++ frames) = breakTarget frames := by
  induction texts with
  | nil => rfl
  | cons text rest ih =>
    obtain ⟨htext, hrest⟩ := forall_mem_cons.1 h
    obtain ⟨hloop, hheader⟩ := isAside_iff.1 htext
    simp [breakTarget, hloop, hheader, ih hrest]

theorem filter_isLoopLine_eq_nil (h : ∀ text ∈ texts, isLoopLine text = false) :
    texts.filter isLoopLine = [] := by
  simpa using h

end BreakTarget

/-- The loops of a stack with the lines that opened them, the innermost first. -/
structure Pairs (blocks : List Block) (frames : List (List Char)) (loops : List (Block × String)) :
    Prop where
  blocks : loops.map Prod.fst = blocks.filter (·.kind.isLoop)
  frames : loops.map (·.2.toList) = frames.filter isLoopLine
  opener : ∀ loop ∈ loops, Opener loop.1.form loop.2

/-- **The loops of the stack** are those of its frames, in their order, and a `break` leaves the
first one. -/
theorem Stacking.exists_pairs {base : Nat} {blocks : List Block} {stale : List (List Char)}
    (h : Stacking base blocks floors frames) (hstale : ∀ text ∈ stale, isLoopLine text = false) :
    ∃ loops, Pairs blocks (frames ++ stale) loops ∧
      breakTarget (frames ++ stale) = loops.head?.map (·.2.toList) := by
  induction h with
  | nil =>
    refine ⟨[], ⟨rfl, ?_, by simp⟩, breakTarget_eq_none hstale⟩
    exact (filter_isLoopLine_eq_nil hstale).symm
  | block hshows _ houter rest ih =>
    obtain ⟨loops, ⟨hblocks, hframes, hopener⟩, htarget⟩ := ih
    rw [append_assoc]
    cases hshows with
    | loop hline hloop =>
      have htext := hline.isLoopLine_eq hloop
      refine ⟨(_, _) :: loops, ⟨?_, ?_, forall_mem_cons.2 ⟨hline, hopener⟩⟩, ?_⟩
      · simp [hblocks, Block.kind, hloop]
      · simp [hframes, htext]
      · simp [breakTarget, htext]
    | branch hkind _ haside =>
      refine ⟨loops, ⟨?_, ?_, hopener⟩, (breakTarget_append haside).trans htarget⟩
      · rcases hkind with hkind | hkind <;> simp [hblocks, Block.kind, hkind, BlockKind.isLoop]
      · rw [filter_append, filter_isLoopLine_eq_nil fun text htext =>
          (isAside_iff.1 (haside text htext)).1]
        exact hframes
    | procedure hkind hheader hloop =>
      -- Nothing is around a procedure, so that the rest of the stack has no loops.
      obtain ⟨rfl, rfl⟩ := houter (Block.isProcedure_iff.2 ⟨_, hkind⟩)
      refine ⟨loops, ⟨?_, ?_, hopener⟩, ?_⟩
      · simp [hblocks, Block.kind, hkind, BlockKind.isLoop]
      · simp [hframes, hloop]
      · obtain rfl : loops = [] := by simpa using hblocks
        simp [breakTarget, hloop, hheader]
  | inline haside _ ih =>
    obtain ⟨loops, ⟨hblocks, hframes, hopener⟩, htarget⟩ := ih
    obtain ⟨hloop, hheader⟩ := isAside_iff.1 haside
    exact ⟨loops, ⟨hblocks, by simp [hframes, hloop], hopener⟩,
      by simp [breakTarget, hloop, hheader, htarget]⟩

/-- What is around an `EXIT`: blocks that show their frames, at most one that does not, and the open
loops with their lines, the first of which a `break` leaves. -/
structure Exit.Around (exit : Exit) (frames : List (List Char)) (shown lost : List Block)
    (loops : List (Block × String)) : Prop where
  blocks : exit.blocks = shown ++ lost
  few : lost.length ≤ 1
  pairs : Pairs shown frames loops
  target : breakTarget frames = loops.head?.map (·.2.toList)

theorem Stacks.exists_around {cut : Prop} (h : Stacks cut exit.blocks floors frames) :
    ∃ shown lost loops, exit.Around frames shown lost loops ∧ (lost ≠ [] → cut) := by
  obtain ⟨shown, lost, above, count, proper, stale, hblocks, -, rfl, h⟩ := h
  obtain ⟨loops, hpairs, htarget⟩ := h.stacking.exists_pairs h.plain
  refine ⟨shown, lost, loops, ⟨hblocks, h.few, hpairs, htarget⟩, fun hne => (h.alone ?_).1⟩
  have hpos := bracesOf_pos hne
  have hlength := h.length
  exact ne_nil_of_length_pos (by omega)

/-- If the first element with a property has a stronger one, it is the first with that. -/
theorem find?_eq_of_imp {α : Type} {p q : α → Bool} {l : List α} {a : α}
    (himp : ∀ x, p x = true → q x = true) (h : l.find? q = some a) (ha : p a = true) :
    l.find? p = some a := by
  induction l with
  | nil => cases h
  | cons x rest ih =>
    rw [find?_cons] at h ⊢
    cases hq : q x with
    | true =>
      rw [hq] at h
      cases h
      rw [ha]
    | false =>
      have hp : p x = false := Bool.eq_false_iff.2 fun hp => by simp [himp x hp] at hq
      rw [hq] at h
      rw [hp]
      exact ih h

/-- **The loop that is left** is that of the innermost block of a kind exactly when the innermost
loop of all is of that kind and shows its frame. -/
theorem Exit.Around.head_iff {shown lost : List Block}
    {loops : List (Block × String)} {named : Block} (h : exit.Around frames shown lost loops)
    (hkind : exit.kind.isLoop = true)
    (hnamed : exit.blocks.find? (·.kind = exit.kind) = some named) :
    loops.head?.map Prod.fst = some named ↔
      (exit.blocks.find? (·.kind.isLoop)).map Block.kind = some exit.kind ∧ named ∈ shown := by
  have hhead : loops.head?.map Prod.fst = shown.find? (·.kind.isLoop) := by
    rw [← head?_map, h.pairs.blocks, head?_filter]
  have hnamedKind : named.kind = exit.kind := by simpa using find?_some hnamed
  rw [hhead, h.blocks, find?_append]
  constructor
  · intro hfind
    refine ⟨by simp [hfind, hnamedKind], mem_of_find?_eq_some hfind⟩
  · rintro ⟨hfirst, hmem⟩
    cases hshown : shown.find? (·.kind.isLoop) with
    | none =>
      have := find?_eq_none.1 hshown named hmem
      simp [hnamedKind, hkind] at this
    | some block =>
      rw [hshown] at hfirst
      have hfind : exit.blocks.find? (·.kind.isLoop) = some block := by
        rw [h.blocks, find?_append, hshown]
        rfl
      have hfound :=
        find?_eq_of_imp (p := fun block => decide (block.kind = exit.kind)) (fun x hx => by
        rw [of_decide_eq_true hx]
        exact hkind) hfind (by simpa using hfirst)
      exact hfound.symm.trans hnamed

/-! ### Exits along a run -/

section Runs

variable {tape : Tape} {level : Level} {s s' : State} {es : List Event} {e : Event}

/-- The log forgets no line. -/
theorem Event.log_prefix (hs : Sound tape s) (hfit : e.Fits tape s) :
    s.page.log.toList <+: (e.apply s).page.log.toList := by
  have happends : ∀ {page : Page}, s.page.Appends page → s.page.log.toList <+: page.log.toList := by
    rintro page ⟨rows, -, hlog⟩
    exact ⟨rows, hlog.symm⟩
  cases hchanges : e.changesScopes with
  | false =>
    rcases Event.emission hs hfit hchanges with ⟨hpage, -⟩ |
      ⟨scope, page, -, hfront, ⟨rows, -, hlog⟩, -⟩
    · exact happends hpage
    · rw [hlog, Scope.hoistOn_log]
      exact (happends hfront).trans (prefix_append _ _)
  | true =>
    cases e with
    | names | lends | regains => exact prefix_refl _
    | introduces name v d =>
      exact happends (State.written_appends { s with scopes := (s.scopes.declare name v).2 } d)
    | defines d => exact happends (s.written_appends d)
    | begins => exact happends (((Page.Appends.refl _).line _).indentBy 1)
    | _ => cases hchanges

/-- An exit stands in the log of a state: its line is a `break`, a block of its kind was open, and
the lines in front of it left the frames open that its blocks show. -/
structure Exit.Stands (s : State) (exit : Exit) : Prop where
  line : ∃ depth, s.page.log.toList[exit.place]? = some ⟨depth, "break;"⟩
  kind : exit.kind.isLoop = true
  named : ∃ block ∈ exit.blocks, block.kind = exit.kind
  layers : ∃ floors, Stacks s.Severs exit.blocks floors
    (logFrames (s.page.log.toList.take exit.place))

theorem Exit.Stands.mono (h : exit.Stands s) (hlog : s.page.log.toList <+: s'.page.log.toList)
    (hremoved : s.removed <:+ s'.removed) : exit.Stands s' := by
  obtain ⟨⟨depth, hline⟩, hkind, hnamed, floors, hstacks⟩ := h
  obtain ⟨rows, hlog⟩ := hlog
  obtain ⟨hplace, -⟩ := List.getElem?_eq_some_iff.1 hline
  refine ⟨⟨depth, ?_⟩, hkind, hnamed, floors, ?_⟩
  · rw [← hlog, getElem?_append_left hplace, hline]
  · rw [← hlog, take_append_of_le_length (Nat.le_of_lt hplace)]
    exact hstacks.mono fun ⟨removal, hmem, hsevers⟩ => ⟨removal, hremoved.subset hmem, hsevers⟩

/-- The exits of a state stand in its log, and its blocks lie in layers. -/
structure Standing (s : State) : Prop where
  stacked : s.Stacked
  exits : ∀ exit ∈ s.exits, exit.Stands s

theorem Standing.start (collector : Collector) : Standing { collector } := ⟨.nil _, by simp⟩

/-- **Every event** keeps the exits in their places, unless an error was reported. -/
theorem Standing.apply (hs : Sound tape s) (h : HasError s.collector.toList ∨ Standing s)
    (hfit : e.Fits tape s) : HasError (e.apply s).collector.toList ∨ Standing (e.apply s) := by
  rcases h with herror | h
  · exact .inl ((Event.keeps hfit).2 herror)
  by_cases hclean : HasError (e.apply s).collector.toList
  · exact .inl hclean
  have hkept := fun exit hexit =>
    (h.exits exit hexit).mono (Event.log_prefix hs hfit) (e.owns s).removed
  refine .inr ⟨h.stacked.apply hs hfit hclean, ?_⟩
  rcases (e.owns s).exits with ⟨kind, rfl⟩ | hexits
  swap
  · rwa [hexits]
  have hlog : ((Event.exits kind).apply s).page.log =
      s.page.log.push ⟨s.page.indent.toNat, "break;"⟩ := by
    simp only [Event.apply, State.addLine, Drawn.line_eq s.page flat_break.ne_empty]
  refine forall_mem_cons.2 ⟨⟨⟨s.page.indent.toNat, ?_⟩, hfit.1, hfit.2.resolve_left hclean,
    s.floors, ?_⟩, hkept⟩
  · simp [hlog]
  · have htake : ((Event.exits kind).apply s).page.log.toList.take s.page.log.size =
        s.page.log.toList := by simp [hlog]
    rw [htake]
    exact h.stacked

/-- **A run** keeps the exits in their places, unless it reports an error. -/
theorem Run.standing (h : Run tape level s es s') (hs : Sound tape s) (hstanding : Standing s) :
    HasError s'.collector.toList ∨ Standing s' :=
  h.invariant_of_sound (I := fun s => HasError s.collector.toList ∨ Standing s)
    Standing.apply hs (.inr hstanding)

/-! ### Declarations open no frame -/

/-- What was put at the tops of procedures opens no brace. -/
def Scopes.FlatTops (sc : Scopes) : Prop := ∀ top ∈ sc.tops, ∀ text ∈ top.hoisted, Flat text

theorem Scopes.FlatTops.renames (h : sc.FlatTops) (hrenames : sc.Renames sc') : sc'.FlatTops := by
  rw [Scopes.FlatTops, hrenames.tops]
  exact h

theorem Scopes.FlatTops.write (h : sc.FlatTops) (d : Declaration) : (sc.write d).FlatTops := by
  rw [Scopes.FlatTops, Scopes.write, tops_mapCurrent]
  exact h

theorem Scopes.FlatTops.changes (h : sc.FlatTops)
    (hhoisted : ∀ scope ∈ sc.root :: sc.inner, ∀ text ∈ scope.hoisted, Flat text)
    (hchanges : sc.Changes tape sc') : sc'.FlatTops := by
  cases hchanges with
  | same => exact h
  | names _ => exact h.renames (.naming _)
  | introduces => exact (h.renames (.declare ..)).write _
  | defines => exact h.write _
  | opens => exact h
  | @closes scope hinner =>
    refine forall_mem_append.2 ⟨h, forall_mem_singleton.2 ?_⟩
    exact hhoisted scope (by simp [hinner])

theorem Event.flatTops (hs : Sound tape s) (ht : s.Tidy) (hfit : e.Fits tape s)
    (h : s.scopes.FlatTops) : (e.apply s).scopes.FlatTops := by
  obtain ⟨opened, hdrawn, -⟩ := ht
  rcases Event.changes_or_renames hs hfit with hchanges | hrenames
  · exact h.changes hdrawn.hoisted hchanges
  · exact h.renames hrenames

theorem Run.flatTops (h : Run tape level s es s') (hs : Sound tape s) (ht : s.Tidy)
    (hflat : s.scopes.FlatTops) : s'.scopes.FlatTops :=
  (h.invariant_of_sound (I := fun s => s.Tidy ∧ s.scopes.FlatTops)
    (fun hs ⟨ht, hflat⟩ hfit => ⟨ht.apply hs hfit, Event.flatTops hs ht hfit hflat⟩)
    hs ⟨ht, hflat⟩).2

end Runs

/-! ### Frames of the generated lines -/

section Lines

variable {ok : String → String → Prop} {base : Nat} {opened opened' : List String}
    {lines log : List Line}
  {tops : List Top}

theorem Script.Nested.trimmed_eq (h : Nested ok base opened lines opened') :
    ∀ line ∈ lines, trimmed (line.render indentUnit) = line.text.toList := by
  induction h with
  | nil => simp
  | cons h _ ih => exact forall_mem_cons.2 ⟨h.trimmed_eq, ih⟩

theorem framesOf_render (h : ∀ line ∈ lines, trimmed (line.render indentUnit) = line.text.toList) :
    framesOf (lines.map (Line.render indentUnit)) = logFrames lines := by
  rw [framesOf, logFrames, foldl_map]
  refine foldl_ext _ _ _ fun frames line hline => ?_
  rw [frameRow, h line hline]

/-- Declarations leave the frames as they are. -/
theorem foldl_linesAt (h : ∀ top ∈ tops, ∀ text ∈ top.hoisted, Flat text) (place : Nat)
    (frames : List (List Char)) : (linesAt tops place).foldl frameRow frames = frames := by
  have hflat : ∀ line ∈ linesAt tops place, Flat line.text := by
    intro line hline
    obtain ⟨top, htop, hmem⟩ := mem_flatMap.1 hline
    obtain ⟨text, htext, rfl⟩ := mem_map.1 hmem
    exact h top (mem_of_mem_filter htop) text htext
  generalize linesAt tops place = lines at hflat
  induction lines with
  | nil => rfl
  | cons line rest ih =>
    obtain ⟨hline, hrest⟩ := forall_mem_cons.1 hflat
    rw [foldl_cons, frameRow, frameLine_flat hline, ih hrest]

theorem logFrames_weave (h : ∀ top ∈ tops, ∀ text ∈ top.hoisted, Flat text) :
    logFrames (weave tops log) = logFrames log := by
  have hfrom : ∀ place frames, (weaveFrom tops place log).foldl frameRow frames =
      log.foldl frameRow frames := by
    induction log with
    | nil => exact fun _ _ => rfl
    | cons line rest ih =>
      intro place frames
      rw [weaveFrom, foldl_append, foldl_linesAt h, foldl_cons, foldl_cons, ih]
  rw [logFrames, weave, foldl_append, foldl_linesAt h, hfrom]
  rfl

end Lines

/-! ### The generated program -/

/-- Where an exit stands in the body of a program without errors, and which frames are around it
there. -/
theorem Finished.exits_stand {tape : Tape} {collector : Collector} {s : State}
    (h : Finished tape collector s) (hclean : ¬ HasError s.collector.toList)
    (hexit : exit ∈ s.exits) : exit.Stands s ∧ ∃ depth back,
      s.hoisted.page.lines.toList = weave (s.scopes.root.top :: s.scopes.tops)
        (s.page.log.toList.take exit.place) ++ ⟨depth, "break;"⟩ :: back ∧
      framesOf ((weave (s.scopes.root.top :: s.scopes.tops) (s.page.log.toList.take exit.place)).map
        (Line.render indentUnit)) = logFrames (s.page.log.toList.take exit.place) := by
  obtain ⟨es, hrun⟩ := h.path
  have hs := sound_start tape collector
  have htidy : State.Tidy { collector } := ⟨[], .start _ collector, rfl⟩
  have hstands := ((hrun.standing hs (.start collector)).resolve_left hclean).exits exit hexit
  obtain ⟨depth, hline⟩ := hstands.line
  obtain ⟨opened, hdrawn, -⟩ := hrun.tidy hs htidy
  have hflat : ∀ top ∈ s.scopes.root.top :: s.scopes.tops, ∀ text ∈ top.hoisted, Flat text :=
    forall_mem_cons.2 ⟨hdrawn.hoisted _ (by simp),
      hrun.flatTops hs htidy (by simp [Scopes.FlatTops, Scopes.start])⟩
  -- The log is cut at the line of the exit, and the declarations are put in on both sides.
  obtain ⟨hplace, hget⟩ := List.getElem?_eq_some_iff.1 hline
  have hcut : s.page.log.toList = s.page.log.toList.take exit.place ++
      ⟨depth, "break;"⟩ :: s.page.log.toList.drop (exit.place + 1) := by
    rw [← hget, getElem_cons_drop, take_append_drop]
  obtain ⟨back, hback⟩ := @exists_weave (s.scopes.root.top :: s.scopes.tops)
    (s.page.log.toList.take exit.place)
    ⟨depth, "break;"⟩ (s.page.log.toList.drop (exit.place + 1))
  rw [← hcut, ← h.emitted.1.hoistModule] at hback
  refine ⟨hstands, depth, back, hback, ?_⟩
  rw [framesOf_render fun line hmem => hdrawn.hoistModule.trimmed_eq line (by simp [hback, hmem]),
    logFrames_weave hflat]

theorem hasError_failed (collector : Collector) (failure : Failure) :
    HasError (Generated.failed collector failure).diagnostics :=
  State.hasError_reported { collector } rfl

/-- **The loop that an `EXIT` leaves.**  Let a source have no error.  Every `EXIT` of a loop is a
line `break;` of the body, at the end of the lines that were emitted before it.  Of the blocks
around it, those that show their loops on the page have them in the same order as the frames that
these lines left open, and at most one block, opened behind the end of a procedure inside a
single-line `IF`, does not.  A block of the named kind is open.  The `break` leaves the loop of the
innermost such block exactly when the innermost open loop is of the named kind and that block is one
of those that show their loops. -/
theorem exit_leaves_named_iff (source : String) (target : Target)
    (hclean : ¬ HasError (recorded target source)) :
    ∃ values, (Generated.ofScan target (Lexer.scan source)).code = Text.joinWith "\n"
      (target.preamble values ++
        (lastState source).page.render indentUnit ++ target.postamble) ∧
      ∀ exit ∈ (lastState source).exits, ∃ depth front back shown lost loops named,
        (lastState source).page.render indentUnit = front ++
          Line.render indentUnit ⟨depth, "break;"⟩ :: back ∧
        front = (weave ((lastState source).scopes.root.top :: (lastState source).scopes.tops)
          ((lastState source).page.log.toList.take exit.place)).map (Line.render indentUnit) ∧
        exit.Around (framesOf front) shown lost loops ∧
        (lost ≠ [] → (lastState source).Severs) ∧
        exit.kind.isLoop = true ∧ exit.blocks.find? (·.kind = exit.kind) = some named ∧
        (loops.head?.map Prod.fst = some named ↔
          (exit.blocks.find? (·.kind.isLoop)).map Block.kind = some exit.kind ∧ named ∈ shown) := by
  rcases generated_cases source with
    ⟨fault, -, hfailed⟩ | ⟨hread, s, values, hfinished, -, hlast, hgenerated⟩
  · rw [recorded, hfailed target] at hclean
    exact absurd (hasError_failed _ _) hclean
  · have hlog : s.hoisted.page.log = s.page.log := by rw [State.hoisted_page, Scope.hoistOn_log]
    obtain ⟨page, hhoisted⟩ := s.hoisted_eq
    rw [recorded, hgenerated, hhoisted] at hclean
    refine ⟨values, ?_, fun exit hexit => ?_⟩
    · rw [hlast, hgenerated]
    rw [hlast, hhoisted] at hexit
    obtain ⟨⟨-, hkind, ⟨block, hblock, hblockKind⟩, floors, hlayers⟩, depth,
      back, hlines, hframes⟩ :=
      hfinished.exits_stand hclean hexit
    obtain ⟨shown, lost, loops, haround, hsevers⟩ := hlayers.exists_around
    obtain ⟨named, hnamed⟩ : ∃ named, exit.blocks.find? (·.kind = exit.kind) = some named :=
      Option.isSome_iff_exists.1 (find?_isSome.2 ⟨block, hblock, by simpa using hblockKind⟩)
    rw [← hframes] at haround
    rw [hlast, Page.render, hlines, hlog, hhoisted]
    refine ⟨depth, _, back.map (Line.render indentUnit), shown, lost, loops, named, ?_, rfl,
      haround, hsevers, hkind, hnamed, haround.head_iff hkind hnamed⟩
    rw [map_append, map_cons]

/-- A loop that is left inside another. -/
def innerExit : String := "FOR i = 1 TO 3\nDO\nIF i = 2 THEN EXIT DO\nLOOP\nNEXT"

/-- `EXIT DO` leaves the loop of the `DO`, which is the innermost one. -/
theorem innerExit_leaves_named :
    ¬ HasError (recorded .node innerExit) ∧
      ∃ exit ∈ (lastState innerExit).exits, ∃ depth front back shown lost loops named,
        (lastState innerExit).page.render indentUnit = front ++
          Line.render indentUnit ⟨depth, "break;"⟩ :: back ∧
        exit.Around (framesOf front) shown lost loops ∧
        exit.blocks.find? (·.kind = exit.kind) = some named ∧
        loops.head?.map Prod.fst = some named := by
  have hclean : ¬ HasError (recorded .node innerExit) := by decide +kernel
  have hexits : (lastState innerExit).exits =
      [⟨.looping, 3, [⟨.looping true, 2, 1⟩, ⟨.counting "i", 1, 1⟩]⟩] := by decide +kernel
  have hwhole : ¬ ∃ removal ∈ (lastState innerExit).removed, removal.block.isProcedure = true ∧
      removal.inLine = true := by
    decide +kernel
  obtain ⟨values, -, hall⟩ := exit_leaves_named_iff innerExit .node hclean
  obtain ⟨depth, front, back, shown, lost, loops, named, hlines, -, haround,
    hlost, -, hnamed, hiff⟩ :=
    hall _ (by rw [hexits]; exact mem_singleton_self _)
  refine ⟨hclean, _,
    by rw [hexits]; exact mem_singleton_self _, depth, front, back, shown, lost, loops, named,
    hlines, haround, hnamed, hiff.2 ⟨rfl, ?_⟩⟩
  -- No procedure was ended inside a single-line `IF`, so that every block shows its frames.
  obtain rfl : lost = [] := by
    by_contra hne
    exact hwhole (hlost hne)
  have hshown := haround.blocks
  rw [append_nil] at hshown
  exact hshown ▸ mem_of_find?_eq_some hnamed

/-- A loop that is left from inside one of another kind. -/
def outerExit : String := "FOR i = 1 TO 3\nDO\nEXIT FOR\nLOOP\nNEXT"

/-- `EXIT FOR` leaves the loop of the `DO` inside the `FOR`, and no error is reported. -/
theorem outerExit_leaves_inner :
    recorded .node outerExit = [] ∧
      (lastState outerExit).exits =
        [⟨.counting, 2, [⟨.looping true, 2, 1⟩, ⟨.counting "i", 1, 1⟩]⟩] ∧
      (lastState outerExit).page.render indentUnit =
        ["  let i = 0;", "  for (i = 1; (1 >= 0) ? i <= 3 : i >= 3; i += 1) \x7b",
          "    do \x7b", "      break;", "    \x7d while (true);", "  \x7d"] ∧
      breakTarget (framesOf (((lastState outerExit).page.render indentUnit).take 3)) =
        some "do \x7b".toList := by
  decide +kernel

-- Behind the end of a procedure in a single-line `IF`, the `IF`'s brace closes the `FOR` loop.
example :
    let s := lastState "SUB f\nIF x THEN END SUB: FOR i = 1 TO 3\nEXIT FOR\nNEXT"
    breakTarget (framesOf ((s.page.render indentUnit).takeWhile (trimmed · ≠ "break;".toList))) =
      none := by
  decide +kernel

end BasicScript
