import BasicScript.Proofs.Cursor

/-!
# What is written

Lines, declarations and blocks.  A line that is emitted is flat, a declaration is a flat line, and
the variables that names refer to have words for names.  A block that is closed or given up is ended
by the event for it: `closeBlock_bind` says what a closing statement may rely on once its block is
off the stack.
-/

namespace BasicScript

open Emit Script Text List

variable {tape : Tape} {level : Level} {s s' : State} {α : Type} {v : Variable} {block : Block}
  {name text value : String} {kind : BlockKind} {f : Scopes → Emit α}
    {Q : α → State → Prop} {atTop : Bool}
  {rest : List Block}

/-! ### Lines -/

theorem line_adds (h : Flat text) : Does tape .line s (line text) fun _ s' => s' = s.addLine text :=
  .event (.emits text) (fun _ => rfl) rfl h rfl

theorem line_does (h : Flat text) : Acts tape .line s (line text) :=
  (line_adds h).mono fun _ _ _ _ => trivial

theorem flat_let (hn : Wordy name) (hv : Sealed value) :
    Flat ("let " ++ name ++ " = " ++ value ++ ";") :=
  .intro ((Reads.around hn.solid.1 rfl).piece hv rfl)

theorem flat_assign {place : String} (hp : Solid place) (hv : Sealed value) :
    Flat (place ++ " = " ++ value ++ ";") :=
  .intro ((hp.reads_fresh.lit rfl).piece hv rfl)

theorem temporary_does {stem : String} (h : Wordy stem) :
    Does tape level s (temporary stem) fun name _ => Wordy name := by
  refine .event .counts (a := stem ++ toString (s.temporaries + 1)) (fun _ => rfl)
    (Level.allows_of_isQuiet rfl) trivial ?_
  exact h.append (wordy_natToString _).2

/-! ### Names -/

/-- An action that looks at the scopes, but not at their places on the page. -/
theorem scopes_does
    (hf : ∀ n, f (s.scopes.below n) = f s.scopes) (h : Does tape level s (f s.scopes) Q) :
    Does tape level s (scopes >>= f) Q :=
  Does.get (f := fun s => f s.scopes) (fun front => hf front.length) h

theorem scopes_sees {φ : α → Prop} (hf : ∀ n, f (s.scopes.below n) = f s.scopes)
    (h : Sees tape s (f s.scopes) φ) : Sees tape s (scopes >>= f) φ :=
  Sees.get (f := fun s => f s.scopes) (fun front => hf front.length) h

theorem Sound.find? (h : Sound tape s) (hv : s.scopes.find? name = some v) : tape.Calls v.name := by
  obtain ⟨ref, -, hcell⟩ := Option.bind_eq_some_iff.1 hv
  exact h.cells v (Array.mem_of_getElem? hcell)

/-- What is found for a name, as the scopes have it. -/
theorem lookup_finds :
    Sees tape s (Emit.lookup name) fun found => found = s.scopes.find? name ∧
      ∀ v ∈ found, tape.Calls v.name :=
  .ofSound fun hs => scopes_sees (fun _ => by rw [Scopes.find?_below])
    (.pure ⟨rfl, fun _ => hs.find?⟩)

/-- Without a line, only a parameter is declared. -/
theorem declare_does (h : tape.Called (upper name) v.name) (hparameter : s.HasParameter v.name) :
    Does tape .line s (declare name v) fun _ s' =>
      s' = { s with scopes := (s.scopes.declare name v).2 } := by
  refine .event (.names (.declares name v)) (a := (s.scopes.declare name v).1) (fun front => ?_) rfl
    ⟨h, by simpa [Naming.declares?] using hparameter⟩ rfl
  rw [← s.declare_fst_below front]
  rfl

theorem share_does {ref : Ref} (h : s.scopes.lookup? name = some ref) :
    Acts tape .line s (onScopes (·.share name (some ref))) :=
  .event (.names (.shares name (some ref))) (fun _ => rfl) rfl ⟨⟨rfl, h⟩, nofun⟩ trivial

theorem State.local?_written (s : State) (d : Declaration) (name : String) :
    (s.written d).scopes.local? name = s.scopes.local? name := by
  unfold State.written Scopes.local?
  cases d.atTop <;> simp [Scopes.note, Scopes.hoist, State.addLine]

theorem isDeclaration_let (name value : String) :
    IsDeclaration ("let " ++ name ++ " = " ++ value ++ ";") name :=
  ⟨value, .inl rfl⟩

/-- The line of a variable with a value declares the variable. -/
theorem IsDeclaration.declaredName_eq (h : IsDeclaration text name) (hname : Wordy name) :
    declaredName text = name := by
  obtain ⟨value, rfl | rfl⟩ := h
  · have htext : ("let " ++ name ++ " = " ++ value ++ ";").toList =
        ['l', 'e', 't'] ++ ' ' :: (name.toList ++ ' ' :: ('=' :: ' ' :: (value.toList ++ [';']))) :=
          by simp
    exact BasicScript.declaredName_eq hname (by decide) htext
  · have htext : ("const " ++ name ++ " = " ++ value ++ ";").toList =
        ['c', 'o', 'n', 's', 't'] ++ ' ' ::
          (name.toList ++ ' ' :: ('=' :: ' ' :: (value.toList ++ [';']))) := by simp
    exact BasicScript.declaredName_eq hname (by decide) htext

/-- A declaration at the top of the scope is quiet, one that stands here is a line directly in the
scope. -/
theorem introduce_does {origin : Origin}
    (hv : tape.Called (upper name) v.name) (ht : Flat text) (hdeclares : IsDeclaration text v.name)
    (hadmits : s.scopes.current.Admits ⟨upper name, origin, text, atTop⟩)
    (hlevel : level = .quiet → atTop = true) (hbase : atTop = false → s.AtBase) :
    Does tape level s (introduce name v origin text atTop) fun ref s' =>
      s'.scopes.local? name = some ref ∧ s'.position = s.position := by
  refine .event (.introduces name v ⟨upper name, origin, text, atTop⟩) (a :=
    (s.scopes.declare name v).1)
    (fun front => ?_) (Level.allows_introduces hlevel)
    ⟨hv, ht, rfl, hadmits, hdeclares.declaredName_eq hv.wordy, hdeclares, hbase⟩
    ⟨(State.local?_written ..).trans (Scopes.local?_declare_self ..),
      (Event.owns _ s).position nofun nofun⟩
  rw [← s.declare_fst_below front]
  cases atTop <;> rfl

theorem admits_plain (hnew : s.scopes.local? name = none) :
    s.scopes.current.Admits ⟨upper name, .plain, text, atTop⟩ :=
  Scopes.local?_eq_none_iff.1 hnew

theorem sealed_initialOf (v : Variable) : Sealed (initialOf v) := by
  unfold initialOf
  repeat' split
  all_goals exact Reads.start rfl

theorem atScopeBase_sees : Sees tape s atScopeBase fun base => base = true → s.AtBase := by
  refine .get (fun _ => by rw [State.base_below]; rfl) (.pure fun hbase => ?_)
  simpa [State.AtBase] using hbase

theorem emitDeclaration_does
    (hcalled : tape.Called (upper name) v.name) (hvalue : Sealed value)
    (hnew : s.scopes.local? name = none) :
    Does tape .line s (emitDeclaration name v value) fun ref s' =>
      s'.scopes.local? name = some ref := by
  have hv := hcalled.wordy
  refine atScopeBase_sees.bind fun _ hbase => ?_
  split
  · exact .mono (introduce_does hcalled (flat_let hv hvalue) (isDeclaration_let ..)
      (admits_plain hnew) nofun fun _ => hbase ‹_›) fun _ _ _ h => h.1
  · refine (introduce_does hcalled (flat_let hv (sealed_initialOf v)) (isDeclaration_let ..)
      (admits_plain hnew) (fun _ => rfl) nofun).bind fun ref s₁ _ ⟨href, _⟩ => ?_
    refine (line_adds (flat_assign hv.solid hvalue)).bind fun _ s₂ _ hline => .pure ?_
    rw [hline]
    exact href

theorem implicitVariable_does (h : tape.HasName name) (hnone : s.scopes.find? name = none) :
    Does tape level s (implicitVariable name) fun v s' => tape.Calls v.name ∧
      s'.position = s.position := by
  refine .ofSound fun hs => ?_
  have hnew := hs.scopes.local?_eq_none hnone
  unfold implicitVariable
  extract_lets v
  have hcalled : tape.Called (upper name) v.name := by simpa only [v] using h.called
  have hv := hcalled.wordy
  exact (introduce_does hcalled (flat_let hv (sealed_initialOf v)) (isDeclaration_let ..)
    (admits_plain hnew) (fun _ => rfl) nofun).bind fun _ _ _ ⟨_, hp⟩ => .pure ⟨⟨_, hcalled⟩, hp⟩

theorem sealed_plainText (b : Bool) : Sealed (if b then "\"\"" else "0") := by
  split <;> exact Reads.start rfl

/-- An array may have been declared, by its own indices, since it was not found. -/
theorem implicitArray_does {dimensions : Nat} (h : tape.HasName name) {front : Scope}
    (hnew : front.names.holds (upper name) = false) (hsteady : front.Steady s.scopes.current) :
    Does tape level s (implicitArray name dimensions) fun v s' => tape.Calls v.name ∧
      s'.position = s.position := by
  have hadmits (text : String) : s.scopes.current.Admits ⟨upper name, .array, text, true⟩ := by
    cases hholds : s.scopes.current.names.holds (upper name) with
    | false => exact .inl hholds
    | true => exact .inr (hsteady.gains _ hnew hholds)
  unfold implicitArray
  extract_lets v initial bounds
  have hcalled : tape.Called (upper name) v.name := by simpa only [v] using h.called
  have hv := hcalled.wordy
  have hbounds : Inner bounds := by
    refine inner_commas fun text ht => ?_
    rw [eq_of_mem_replicate ht]
    exact Reads.start rfl
  refine (introduce_does hcalled ?_ ?_ (hadmits _) (fun _ => rfl) nofun).bind
    fun _ _ _ ⟨_, hp⟩ => .pure ⟨⟨_, hcalled⟩, hp⟩
  · exact .intro (((Reads.around hv.solid.1 rfl).piece (sealed_plainText _) rfl).within hbounds rfl)
  · refine ⟨"_makeArray(" ++ initial ++ ", " ++ bounds ++ ")", .inl (String.toList_injective ?_)⟩
    simp

/-! ### Blocks -/

/-- Ending a block that was taken off.  The scope of a procedure must be there to be closed. -/
theorem finishBlock_eq {tokens : Array Token} (h : block.isProcedure = true → s.scopes.inner ≠ []) :
    finishBlock block tokens s = .ok () (s.finish block.form) := by
  obtain ⟨form, line, column⟩ := block
  obtain ⟨position, page, ⟨cells, inner, root, shared⟩⟩ := s
  cases form with
  | sub | function result =>
    cases inner with
    | nil => cases h rfl rfl
    | cons scope rest =>
      obtain ⟨kind, name, mark, indent, names, hoisted, declared, base⟩ := scope
      cases hoisted <;> rfl
  | selection value cases hasElse =>
    simp only [State.finish]
    cases cases <;> rfl
  | looping testsBehind => cases testsBehind <;> rfl
  | condition | counting | whileLoop => rfl

theorem closeLine_below (s : State) (text : String) (front : List Line) :
    closeLine text tape.tokens (s.below front) = .ok () ((s.closeBrace text).below front) := by
  rw [← State.closeBrace_below]
  rfl

/-- The innermost block of a sound state can be ended below any lines. -/
theorem finishBlock_below (hs : Sound tape s) (hb : s.blocks = block :: rest) (front : List Line) :
    finishBlock block tape.tokens ((s.without block rest true).below front) =
      .ok () (((s.without block rest true).finish block.form).below front) := by
  have hmarked : (s.without block rest true).scopes.Marked := hs.marked
  rw [← State.finish_below front hmarked]
  refine finishBlock_eq fun hprocedure => ?_
  simpa [State.without, State.below, Scopes.below] using hs.inner_ne_nil hb hprocedure

theorem report_eq (tokens : Array Token) (s : State) (d : Diagnostic) :
    report d tokens s = .ok () (s.reported d) :=
  rfl

theorem dropBlock_eq (closed : Bool) (tokens : Array Token)
    (hb : s.blocks = block :: rest) :
    dropBlock closed tokens s = .ok () (s.without block rest closed) := by
  have hdrop : dropBlock closed tokens s = .ok () { s with
        blocks := s.blocks.drop 1
        removed := (s.blocks.take 1).map (Removal.mk · closed !s.floors.isEmpty) ++ s.removed } :=
          rfl
  rw [hdrop, hb]
  rfl

/-- Giving up blocks is one event for each of them, and never fails. -/
theorem abandonBlocks_completes (count : Nat) :
    Completes tape .line s (abandonBlocks count) fun _ s' =>
      s'.blocks = s.blocks.drop count ∧ s'.position = s.position ∧ s'.opened = s.opened := by
  induction count generalizing s with
  | zero => exact fun _ => ⟨(), s, fun _ => rfl, .refl s, rfl, rfl, rfl⟩
  | succ count ih =>
    intro hs
    cases hb : s.blocks with
    | nil =>
      refine ⟨(), s, fun front => ?_, .refl s, hb, rfl, rfl⟩
      have hb' : (s.below front).blocks = [] := hb
      rw [abandonBlocks, bind_ok (get_eq _ _), hb']
      rfl
    | cons block rest =>
      have habandon : Path tape .line s (Event.abandons.apply s) :=
        .single rfl (by simp [Event.Fits, hb])
      have hblocks : (Event.abandons.apply s).blocks = rest := by
        simp [Event.apply, hb, State.reported, State.without]
      have hsame : (Event.abandons.apply s).position = s.position ∧
          (Event.abandons.apply s).opened = s.opened := by
        obtain ⟨page, scopes, blocks, removed, ds, he, -⟩ := Event.drawn_eq s (e := .abandons) rfl
        rw [he]
        exact ⟨rfl, rfl⟩
      obtain ⟨_, s', hrest, hpath, hq, hposition, hopened⟩ := ih (habandon.sound hs)
      refine ⟨(), s', fun front => ?_, habandon.trans hpath,
        by simp only [hq, hblocks, drop_succ_cons], hposition.trans hsame.1, hopened.trans hsame.2⟩
      have hb' : (s.below front).blocks = block :: rest := hb
      rw [abandonBlocks, bind_ok (get_eq _ _), hb']
      simp only [head?_cons]
      rw [bind_ok (report_eq _ _ _),
        bind_ok (dropBlock_eq (s := (s.below front).reported _) false _ hb')]
      have hnext := hrest front
      rw [← Event.apply_below front hs.marked] at hnext
      simp only [Event.apply, hb'] at hnext
      refine (bind_ok (finishBlock_eq fun hprocedure => ?_) _).trans ?_
      · simpa [State.below, Scopes.below, State.reported, State.without]
          using hs.inner_ne_nil hb hprocedure
      · exact hnext

theorem abandonAll_completes :
    Completes tape .line s abandonAll fun _ s' => s'.blocks = [] ∧ s'.opened = s.opened := by
  intro hs
  obtain ⟨_, s', hx, hpath, hq, -, hopened⟩ := abandonBlocks_completes s.blocks.length hs
  exact ⟨(), s', hx, hpath, by simpa using hq, hopened⟩

theorem abandonAbove_completes (floor : Nat) :
    Completes tape .line s (abandonAbove floor) fun _ s' =>
      s'.blocks.length ≤ floor ∧ s'.position = s.position := by
  intro hs
  obtain ⟨_, s', hx, hpath, hq, hposition, -⟩ :=
    abandonBlocks_completes (s.blocks.length - floor) hs
  refine ⟨(), s', hx, hpath, ?_, hposition⟩
  have := congrArg List.length hq
  simp only [length_drop] at this
  omega

/-- How many of the open blocks a closing statement cannot reach.  The end of a procedure looks past
single-line `IF`s. -/
def State.closingFloor (s : State) : BlockKind → Nat
  | .procedure _ => s.scopes.current.base - 1
  | _ => s.floor

theorem closeBlock_eq (tokens : Array Token) (s : State) (kind : BlockKind) (closer : Token) :
    closeBlock kind closer tokens s =
      (match (s.blocks.take (s.blocks.length - s.closingFloor kind)).findIdx? (·.kind = kind) with
        | none => do
          reportAt closer .syntactic kind.stray
          return none
        | some inside => do
          abandonBlocks inside
          let block := (← get).blocks.head?
          dropBlock true
          return block : Emit (Option Block)) tokens s := by
  cases kind <;> rfl

theorem State.closingFloor_below (front : List Line) (s : State) (kind : BlockKind) :
    (s.below front).closingFloor kind = s.closingFloor kind := by
  cases kind <;> simp only [State.closingFloor, base_below, floor_below]

/-- The scope's base is told by the bottom block. -/
theorem Framed.base {blocks : List Block} {scopes : Scopes} (h : Framed blocks scopes) :
    scopes.current.base = ((expectedScopes blocks).map Prod.snd).headD 0 := by
  have hstand := congrArg Prod.snd (Scopes.current_stand scopes)
  rw [h.inner, h.root] at hstand
  cases he : expectedScopes blocks <;> simpa [he, Scope.stand] using hstand

/-- The block that a closing statement is about, innermost and within reach. -/
structure Closable (s : State) (kind : BlockKind) (block : Block) (rest : List Block) : Prop where
  blocks : s.blocks = block :: rest
  kind_eq : block.kind = kind
  reach : s.floor < s.blocks.length ∨ ∃ k, kind = .procedure k

/-- Once the blocks inside it are given up, the block that was found can be closed. -/
theorem closable_of_findIdx? {s₁ : State} {i : Nat}
    (hi : (s.blocks.take (s.blocks.length - s.closingFloor kind)).findIdx? (·.kind = kind) = some i)
    (hs : Sound tape s) (hs₁ : Sound tape s₁) (hblocks : s₁.blocks = s.blocks.drop i)
    (hfloors : s₁.floors = s.floors) : ∃ block rest, Closable s₁ kind block rest := by
  obtain ⟨hlt, hkind, -⟩ := findIdx?_eq_some_iff_getElem.1 hi
  simp only [length_take] at hlt
  simp only [getElem_take, decide_eq_true_eq] at hkind
  have hlen : i < s.blocks.length := by omega
  refine ⟨s.blocks[i], s.blocks.drop (i + 1), hblocks.trans (drop_eq_getElem_cons hlen), hkind, ?_⟩
  have hbase : s₁.scopes.current.base = s.scopes.current.base := by
    rw [hs₁.framed.base, hs.framed.base, hblocks]
    simp [expectedScopes, getLast?_drop, Nat.not_le.2 hlen]
  have hfloor : s₁.floor = s.floor := by simp [State.floor, hbase, hfloors]
  cases kind with
  | procedure k => exact .inr ⟨k, rfl⟩
  | _ =>
    refine .inl ?_
    simp only [State.closingFloor] at hlt
    rw [hfloor, hblocks, length_drop]
    omega

/-- **Closing statements.**  Without a block to close the statement is reported; else the blocks
inside it are given up, and the statement goes on with the block off the stack. -/
theorem closeBlock_bind {closer : Token} {f : Option Block → Emit α} (ht : closer ∈ tape.tokens)
    (hnone : ∀ d, d.isError = true → Does tape .line (s.reported d) (f none) Q)
    (hsome : ∀ s₁ block rest, Grows s s₁ → Sound tape s₁ → Closable s₁ kind block rest →
      Amid tape .line s₁ (s₁.without block rest true) (f (some block)) Q) :
    Does tape .line s (closeBlock kind closer >>= f) Q := by
  intro hs
  have hclose (front : List Line) := closeBlock_eq tape.tokens (s.below front) kind closer
  have hsame (front : List Line) : ((s.below front).blocks.take ((s.below front).blocks.length -
      (s.below front).closingFloor kind)).findIdx? (·.kind = kind) =
        (s.blocks.take (s.blocks.length - s.closingFloor kind)).findIdx? (·.kind = kind) := by
    rw [State.closingFloor_below]
    rfl
  simp only [hsame] at hclose
  cases hi : (s.blocks.take (s.blocks.length - s.closingFloor kind)).findIdx? (·.kind = kind) with
  | none =>
    simp only [hi] at hclose
    have hreport :
        Path tape .line s (s.reported ⟨.error, .syntactic, kind.stray, closer.line,
          closer.column, 1, []⟩) :=
      .single (e := .reports _) rfl ⟨tape.has ht, fun _ => apart_stray kind⟩
    have hresult : ∀ front, closeBlock kind closer tape.tokens (s.below front) = .ok none
        ((s.reported ⟨.error, .syntactic, kind.stray, closer.line, closer.column, 1, []⟩).below
          front) :=
      hclose
    exact .bind_ok hresult (.after hreport (hnone _ rfl (hreport.sound hs)))
  | some i =>
    simp only [hi] at hclose
    obtain ⟨_, s₁, hr, hpath, hblocks, -⟩ := abandonBlocks_completes i hs
    obtain ⟨block, rest, hclosable⟩ :=
      closable_of_findIdx? hi hs (hpath.sound hs) hblocks hpath.grows.floors
    have hresult : ∀ front, closeBlock kind closer tape.tokens (s.below front) =
        .ok (some block) ((s₁.without block rest true).below front) := by
      intro front
      refine (hclose front).trans ((bind_ok (hr front) _).trans ?_)
      have hb : (s₁.below front).blocks = block :: rest := hclosable.blocks
      change (dropBlock true >>= fun _ => Pure.pure (s₁.below front).blocks.head? : Emit _)
        tape.tokens
        (s₁.below front) = _
      rw [bind_ok (dropBlock_eq true _ hb), hb]
      rfl
    exact .bind_ok hresult
      (.after hpath (hsome s₁ block rest hpath.grows (hpath.sound hs) hclosable))

/-! ### Looking at blocks -/

theorem topForm_sees : Sees tape s topForm fun form => ∀ f ∈ form, s.Tops f := by
  have htop : Sees tape s topBlock fun block => ∀ b ∈ block, s.Tops b.form := by
    refine .get (fun _ => rfl) (.get (fun _ => by rw [State.base_below]; rfl) ?_)
    split
    · refine .pure fun b hb => ⟨‹_›, ?_⟩
      simp [State.topForm?, Option.mem_def.1 hb]
    · exact .pure (by simp)
  exact htop.seen fun block h => .pure (by cases block <;> simp_all)

theorem inside_sees :
    Sees tape s (inside kind) fun found => found = true →
      ∃ block ∈ s.blocks, block.kind = kind := by
  refine .get (fun _ => by rw [State.base_below]; rfl) (.pure fun hfound => ?_)
  obtain ⟨block, hblock, hkind⟩ := any_eq_true.1 hfound
  exact ⟨block, mem_of_mem_take hblock, of_decide_eq_true hkind⟩

/-- Outside of single-line `IF`s, a statement ends where data ends. -/
theorem endStatement_does : Does tape level s endStatement fun _ s' =>
    s.floors = [] → ∃ token, tape.Under s' token ∧ endsData token = true := by
  refine current_sees.bind fun token ht => .get (fun _ => rfl) ?_
  extract_lets inLine
  split
  · rename_i h
    refine .pure fun hfloors => ⟨token, ht, ?_⟩
    have hline : inLine = false := by simp [inLine, hfloors]
    simpa [hline, endsData] using h
  · exact rejectHere_does (Apart.append (.of_letters rfl rfl))

end BasicScript
