import Mathlib.Data.List.Perm.Subperm
import BasicScript.Proofs.Emission

/-!
# Names that are declared once

Each scope keeps the list of its declarations, in order, and the list of a procedure stays when the
procedure is over.

* `Run.once`: a later declaration of a name is that of an array, or one of the two is of a one-line
  function.
* `Run.writes`: every declaration has a line of its own, on the page or waiting for the top of its
  scope.
* `declared_once_iff`: at the end of a pass, a scope declares no name twice exactly when its arrays
  and one-line functions do not.

An array that is used and was never declared is declared behind its indices, which may use its name
for a variable: `PRINT a(a)` declares `a` twice, and so does a program with two one-line functions
of one name.
-/

namespace BasicScript

open Script Lexer List

variable {tape : Tape} {level : Level} {s s₁ s' : State} {es : List Event}
    {sc sc' : Scopes} {ds : List Declaration}
  {d : Declaration} {scope : Scope} {e : Event}

/-! ### Repeated declarations -/

/-- The two cases in which a declaration may repeat the name of an earlier one. -/
def Declaration.MayRepeat (earlier later : Declaration) : Prop :=
  later.origin = .array ∨ earlier.origin = .function ∨ later.origin = .function

/-- A name that is declared again may be. -/
def Once (ds : List Declaration) : Prop := ds.Pairwise fun a b => a.key = b.key → a.MayRepeat b

theorem Once.append (h : Once ds) (hd : ∀ a ∈ ds, a.key = d.key → a.MayRepeat d) :
    Once (ds ++ [d]) :=
  pairwise_append.2 ⟨h, pairwise_singleton .., by simpa using hd⟩

/-- No name is declared twice if none is that may be. -/
theorem Once.nodup_iff (h : Once ds) :
    (ds.map (·.key)).Nodup ↔ ds.Pairwise fun a b => a.MayRepeat b → a.key ≠ b.key := by
  rw [Nodup, pairwise_map]
  constructor
  · intro hne
    refine hne.imp ?_
    exact fun hab _ => hab
  · exact fun hrepeats => (h.and hrepeats).imp fun ⟨hmay, hne⟩ hab => hne (hmay hab) hab

/-- The declarations of each scope: of the module, of the procedure at hand, of the procedures that
are over. -/
def Scopes.declarations (sc : Scopes) : List (List Declaration) :=
  (sc.root :: sc.inner).map (·.declared) ++ sc.closed

theorem Scopes.Renames.declarations (h : sc.Renames sc') : sc'.declarations = sc.declarations := by
  rw [Scopes.declarations, h.declared, h.closed, Scopes.declarations]

/-! ### Every list of declarations -/

/-- What holds of every list of declarations still does when a declaration is written, if it does of
the current list with the declaration. -/
theorem Scopes.forall_write {P : List Declaration → Prop}
    (h : ∀ ds ∈ sc.declarations, P ds)
    (hd : P sc.current.declared → P (sc.current.declared ++ [d])) :
    ∀ ds ∈ (sc.write d).declarations, P ds := by
  have hopen : ∀ scope ∈ sc.root :: sc.inner, P scope.declared := fun scope hscope =>
    h _ (mem_append_left _ (mem_map_of_mem hscope))
  intro ds hds
  rcases mem_append.1 hds with hds | hds
  · obtain ⟨scope, hscope, rfl⟩ := mem_map.1 hds
    exact Scopes.forall_mapCurrent (P := fun scope => P scope.declared) hopen hd scope hscope
  · exact h ds (mem_append_right _ (by rwa [Scopes.write, Scopes.closed_mapCurrent] at hds))

/-- A declaration that is admitted repeats a name only where it may. -/
theorem Scope.Admits.mayRepeat {cells : Nat} (h : scope.Admits d)
    (hcoherent : scope.Coherent cells) : ∀ a ∈ scope.declared, a.key = d.key → a.MayRepeat d := by
  intro a ha hkey
  rcases h.cases with hnew | ⟨harray, -⟩ | ⟨hnil, -⟩
  · -- A name that is declared is bound, unless it is a one-line function.
    by_cases hfunction : a.origin = .function
    · exact .inr (.inl hfunction)
    · rw [← hkey, hcoherent.bound _ ⟨a, ha, rfl, hfunction⟩] at hnew
      cases hnew
  · exact .inl harray
  · rw [hnil] at ha
    cases ha

/-- Changes of the scopes keep what holds of every list of declarations, if a declaration that is
admitted does. -/
theorem Scopes.Changes.forall_declarations {P : List Declaration → Prop}
    (h : sc.Changes tape sc') (hnil : P [])
    (hwrite : ∀ d, sc.current.Admits d ∨ d.origin = .function →
      tape.Called d.key (declaredName d.text) →
      P sc.current.declared → P (sc.current.declared ++ [d]))
    (hall : ∀ ds ∈ sc.declarations, P ds) : ∀ ds ∈ sc'.declarations, P ds := by
  cases h with
  | same => exact hall
  | names _ => rwa [(Renames.naming _).declarations]
  | introduces hkey hadmits hcalled hname =>
    refine forall_write (by rwa [(Renames.declare ..).declarations]) ?_
    rw [declared_declare]
    exact hwrite _ (.inl hadmits) (hname ▸ hcalled)
  | defines horigin hcalled => exact forall_write hall (hwrite _ (.inr horigin) hcalled)
  | opens hinner _ hdeclared _ =>
    simp only [declarations, hinner, map_cons, map_nil, cons_append, nil_append,
      forall_mem_cons] at hall ⊢
    exact ⟨hall.1, hdeclared ▸ hnil, hall.2⟩
  | closes hinner =>
    -- The list of the procedure moves to those of the procedures that are over.
    simp only [declarations, hinner, map_cons, map_nil, cons_append, nil_append,
      forall_mem_cons, forall_mem_append] at hall ⊢
    exact ⟨hall.1, hall.2.2, hall.2.1, by simp⟩

theorem Event.forall_declarations {P : List Declaration → Prop} (hs : Sound tape s)
    (hfit : e.Fits tape s) (hnil : P [])
    (hwrite : ∀ d, s.scopes.current.Admits d ∨ d.origin = .function →
      tape.Called d.key (declaredName d.text) →
      P s.scopes.current.declared → P (s.scopes.current.declared ++ [d]))
    (hall : ∀ ds ∈ s.scopes.declarations, P ds) : ∀ ds ∈ (e.apply s).scopes.declarations, P ds := by
  rcases Event.changes_or_renames hs hfit with hchanges | hrenames
  · exact hchanges.forall_declarations hnil hwrite hall
  · rwa [hrenames.declarations]

/-- **A run keeps names declared once**, where they may not be declared twice. -/
theorem Run.once (h : Run tape level s es s') (hs : Sound tape s)
    (honce : ∀ ds ∈ s.scopes.declarations, Once ds) : ∀ ds ∈ s'.scopes.declarations, Once ds := by
  refine h.invariant_of_sound (I := fun s => ∀ ds ∈ s.scopes.declarations, Once ds) ?_ hs honce
  intro s e hs honce hfit
  refine Event.forall_declarations hs hfit .nil (fun d hd _ hcurrent => hcurrent.append ?_) honce
  rcases hd with hadmits | horigin
  · exact hadmits.mayRepeat hs.scopes.current
  · exact fun _ _ _ => .inr (.inr horigin)

/-! ### A line for each declaration -/

namespace Script.Page

/-- The texts of the lines of a page. -/
def texts (page : Page) : List String := page.lines.toList.map (·.text)

@[simp] theorem texts_line (page : Page) (text : String) :
    (page.line text).texts = page.texts ++ [text] := by
  simp [texts, line]

@[simp] theorem texts_indentBy (page : Page) (levels : Int) :
    (page.indentBy levels).texts = page.texts := rfl

theorem texts_insert (page : Page) (place : Int) (texts : List String) (indent : Int) :
    (page.insert place texts indent).texts.Perm (page.texts ++ texts) := by
  have hcut : (page.insert place texts indent).texts =
      (page.texts.take (Sequence.bound page.lines.toList.length place) ++ texts) ++
        page.texts.drop (Sequence.bound page.lines.toList.length place) := by
    simp [Page.texts, insert, Sequence.insertAt, Function.comp_def]
  rw [hcut, append_assoc]
  exact (perm_append_comm.append_left _).trans (by rw [← append_assoc, take_append_drop])

theorem Appends.texts {page page' : Page} (h : page.Appends page') :
    page.texts.Sublist page'.texts := by
  obtain ⟨rows, hlines, -⟩ := h
  rw [Page.texts, Page.texts, hlines, map_append]
  exact sublist_append_left ..

end Script.Page

theorem Scope.texts_hoistOn (scope : Scope) (page : Page) :
    (scope.hoistOn page).texts.Perm (page.texts ++ scope.hoisted) := by
  unfold Scope.hoistOn
  split
  · rename_i hempty
    rw [List.isEmpty_iff.1 hempty, append_nil]
  · exact Page.texts_insert ..

/-- The texts of the declarations of all scopes. -/
def State.declaredTexts (s : State) : List String := s.scopes.declarations.flatten.map (·.text)

/-- The lines of the page, and those that wait for the top of their scope. -/
def State.lineTexts (s : State) : List String :=
  s.page.texts ++ ((s.scopes.root :: s.scopes.inner).map (·.hoisted)).flatten

/-- Between two states there are new declarations, with these texts, and a line for each of them.
There is one more list of declarations for each procedure that was begun. -/
structure Writes (s s' : State) (texts : List String) : Prop where
  declared : s'.declaredTexts.Perm (s.declaredTexts ++ texts)
  lines : (s.lineTexts ++ texts).Subperm s'.lineTexts
  lists : s'.scopes.declarations.length + s.headers.length = s.scopes.declarations.length +
    s'.headers.length

namespace Writes

theorem of_renames (hscopes : s.scopes.Renames s'.scopes) (hheaders : s'.headers = s.headers)
    (hpage : s.page.texts.Sublist s'.page.texts) : Writes s s' [] where
  declared := by rw [State.declaredTexts, hscopes.declarations, append_nil, State.declaredTexts]
  lines := by
    rw [State.lineTexts, State.lineTexts, hscopes.hoisted, append_nil]
    exact (hpage.append_right _).subperm
  lists := by rw [hscopes.declarations, hheaders]

theorem trans {texts texts' : List String} (h : Writes s s₁ texts) (h' : Writes s₁ s' texts') :
    Writes s s' (texts ++ texts') where
  declared := by
    rw [← append_assoc]
    exact h'.declared.trans (h.declared.append_right _)
  lines := by
    rw [← append_assoc]
    exact ((subperm_append_right _).2 h.lines).trans h'.lines
  lists := by
    have := h.lists
    have := h'.lists
    omega

theorem written (s : State) (d : Declaration) : Writes s (s.written d) [d.text] := by
  have hheaders : (s.written d).headers = s.headers := by
    obtain ⟨page, scopes, h⟩ := s.written_eq d
    rw [h]
  have hpage : (s.written d).page.texts = s.page.texts ++ if d.atTop then [] else [d.text] := by
    unfold State.written
    cases d.atTop <;> simp [State.addLine]
  -- The current list stands first or second among the lists, so the texts are counted.
  constructor
  · rw [perm_iff_count]
    intro text
    simp only [State.declaredTexts, State.scopes_written, Scopes.declarations,
      Scopes.write, Scopes.mapCurrent]
    cases s.scopes.inner with
    | nil => simp [count_cons]
    | cons scope rest => grind
  · rw [subperm_iff_count]
    intro text
    simp only [State.lineTexts, hpage, State.scopes_written, Scopes.write, Scopes.mapCurrent]
    cases s.scopes.inner <;> cases d.atTop <;> grind
  · rw [hheaders]
    simp only [State.scopes_written, Scopes.declarations, Scopes.write, Scopes.mapCurrent]
    cases s.scopes.inner <;> simp

theorem opens (hinner : s.scopes.inner = [])
    (hscopes : ∃ scope : Scope, s'.scopes = { s.scopes with inner := [scope] } ∧
      scope.declared = [] ∧ scope.hoisted = [])
    (hheaders : s'.headers.length = s.headers.length + 1)
    (hpage : s.page.texts.Sublist s'.page.texts) : Writes s s' [] := by
  obtain ⟨scope, hscopes, hdeclared, hhoisted⟩ := hscopes
  constructor
  · simp [State.declaredTexts, Scopes.declarations, hscopes, hinner, hdeclared]
  · simpa [State.lineTexts, hscopes, hinner, hhoisted]
      using (hpage.append_right s.scopes.root.hoisted).subperm
  · simp only [Scopes.declarations, hscopes, hinner, hheaders, length_append, length_map,
      length_cons, length_nil]
    omega

/-- What waited for the top of a procedure is there when the procedure is over. -/
theorem closes (h : s.Closes s') (hheaders : s'.headers = s.headers) : Writes s s' [] := by
  obtain ⟨scope, page, hinner, hfront, hback, hscopes⟩ := h
  have hpage : (s.page.texts ++ scope.hoisted).Subperm s'.page.texts :=
    ((hfront.texts.append_right _).subperm.trans (scope.texts_hoistOn page).symm.subperm).trans
      hback.texts.subperm
  constructor
  · rw [perm_iff_count]
    intro text
    simp [State.declaredTexts, Scopes.declarations, hscopes, hinner]
    omega
  · rw [subperm_iff_count] at hpage ⊢
    intro text
    have := hpage text
    simp only [count_append] at this
    simp [State.lineTexts, hscopes, hinner]
    omega
  · simp [Scopes.declarations, hscopes, hinner, hheaders]

end Writes

/-- **Every event** writes a line for each declaration that it makes. -/
theorem Event.writes (hs : Sound tape s) (hfit : e.Fits tape s) :
    ∃ texts, Writes s (e.apply s) texts := by
  have hnames (scopes : Scopes) (h : s.scopes.Renames scopes) : ∃ texts,
      Writes s { s with scopes } texts :=
    ⟨[], .of_renames h rfl (.refl _)⟩
  cases hchanges : e.changesScopes with
  | false =>
    have hheaders := Event.headers_of_changesScopes s hchanges
    rcases Event.emission hs hfit hchanges with ⟨hpage, hscopes⟩ | hcloses
    · exact ⟨[], .of_renames (by rw [hscopes]; exact .refl _) hheaders hpage.texts⟩
    · exact ⟨[], .closes hcloses hheaders⟩
  | true =>
    cases e with
    | names naming => exact hnames _ (.naming naming)
    | introduces name v d =>
      obtain ⟨texts, h⟩ := hnames _ (.declare name v)
      exact ⟨_, h.trans (.written _ d)⟩
    | defines d => exact ⟨_, .written s d⟩
    | begins kind name jsName parameters token =>
      have hinner : s.scopes.inner = [] := by
        simpa [hfit.2.2.2.1, expectedScopes] using hs.framed.inner
      refine ⟨[], .opens hinner ?_ rfl (by simp [Event.apply, State.pushBlock, State.openBrace])⟩
      simp only [Event.apply, State.pushBlock, State.openBrace, Scopes.push,
        Scopes.mapCurrent, hinner]
      exact ⟨_, rfl, rfl, rfl⟩
    | lends list => exact hnames _ (.lends list)
    | regains before => exact hnames _ (.regains before)
    | _ => cases hchanges

/-- **A run** writes a line for each declaration that it makes. -/
theorem Run.writes (h : Run tape level s es s') (hs : Sound tape s) :
    ∃ texts, Writes s s' texts := by
  refine h.invariant_of_sound (I := fun s₁ => ∃ texts, Writes s s₁ texts) ?_ hs
    ⟨[], .of_renames (.refl _) rfl (.refl _)⟩
  rintro s₁ e hs₁ ⟨texts, hwrites⟩ hfit
  obtain ⟨texts', hwrites'⟩ := e.writes hs₁ hfit
  exact ⟨_, hwrites.trans hwrites'⟩

/-! ### The end of the pass -/

theorem State.texts_hoisted (s : State) :
    s.hoisted.page.texts.Perm (s.page.texts ++ s.scopes.root.hoisted) := by
  rw [State.hoisted_page]
  exact s.scopes.root.texts_hoistOn s.page

/-- **Names that are declared once.**  At the end of a pass there is a list of declarations for the
module and one for each procedure, and each declaration has a line of its own on the page.  Such a
list declares no name twice exactly when it declares none again as an array that was never declared,
or for a one-line function, or behind one. -/
theorem declared_once_iff (source : String) (hread : (scan source).fault = none)
    (collector : Collector) (s : State)
    (hpass : Emit.pass (scan source).tokens.toArray collector = .ok () s) :
    s.scopes.inner = [] ∧ s.scopes.closed.length = s.headers.length ∧
      ((s.scopes.root.declared :: s.scopes.closed).flatten.map (·.text)).Subperm s.page.texts ∧
      ∀ ds ∈ s.scopes.root.declared :: s.scopes.closed,
        ((ds.map (·.key)).Nodup ↔ ds.Pairwise fun a b =>
          b.origin = .array ∨ a.origin = .function ∨ b.origin = .function → a.key ≠ b.key) := by
  obtain ⟨last, hlast, rfl⟩ := exists_finished hread hpass
  obtain ⟨es, hrun⟩ := hlast.path
  have hstart := sound_start (Tape.ofSource source hread) collector
  have hinner : last.scopes.inner = [] := by
    simpa [hlast.blocks, expectedScopes] using (hrun.sound hstart).framed.inner
  have honce := hrun.once hstart (by simp [Scopes.declarations, Scopes.start, Once])
  have hdeclarations : last.scopes.declarations = last.scopes.root.declared ::
      last.scopes.closed := by
    simp [Scopes.declarations, hinner]
  obtain ⟨texts, hwrites⟩ := hrun.writes hstart
  have htexts : last.declaredTexts.Perm texts := hwrites.declared
  have hlines : texts.Subperm (last.page.texts ++ last.scopes.root.hoisted) := by
    simpa [State.lineTexts, hinner, Scopes.start, Page.texts] using hwrites.lines
  have hlists := hwrites.lists
  rw [hdeclarations] at honce hlists
  -- What still waits goes to the top of the module behind the last event.
  have hpage := last.texts_hoisted
  obtain ⟨page, hhoisted⟩ := last.hoisted_eq
  rw [hhoisted] at hpage ⊢
  refine ⟨hinner, ?_, ?_, fun ds hds => (honce ds hds).nodup_iff⟩
  · have hlength : last.scopes.closed.length + 1 = 1 + last.headers.length := by
      simpa [Scopes.declarations, Scopes.start] using hlists
    dsimp only
    omega
  · rw [← hdeclarations]
    exact htexts.subperm.trans (hlines.trans hpage.symm.subperm)

/-- The declarations that the pass over a source makes, if it comes to its end, by scope: the name
and the line of each one.  And whether it reports an error. -/
def declarations? (source : String) : Option (List (List (String × String)) × Bool) :=
  match Emit.pass (scan source).tokens.toArray {} with
  | .ok _ s =>
    some ((s.scopes.root.declared :: s.scopes.closed).map (·.map fun d => (d.key, d.text)),
      decide (HasError s.collector.toList))
  | .error _ _ => none

theorem pass_of_declarations? {source : String} {lists : List (List (String × String))}
    (h : declarations? source = some (lists, false)) :
    ∃ s, Emit.pass (scan source).tokens.toArray {} = .ok () s ∧ ¬HasError s.collector.toList ∧
      (s.scopes.root.declared :: s.scopes.closed).map (·.map fun d => (d.key, d.text)) = lists := by
  unfold declarations? at h
  split at h
  · obtain ⟨hlists, herrs⟩ := Prod.mk.inj (Option.some.inj h)
    exact ⟨_, ‹_›, by simpa using herrs, hlists⟩
  · cases h

/-- A module and a procedure that use one name, with declarations in blocks. -/
def twoScopes : String :=
  "x = 1\nSUB f (y)\nIF y THEN z = y\nx = z\nEND SUB\nFOR i = 1 TO x\nDIM a(x)\nNEXT"

/-- Each of two scopes declares its names once. -/
theorem module_and_procedure_declare_once :
    ∃ s, Emit.pass (scan twoScopes).tokens.toArray {} = .ok () s ∧
      ¬HasError s.collector.toList ∧ s.headers.length = 1 ∧
      s.scopes.root.declared.map (fun d => (d.key, d.text)) =
        [("X", "let x = 1;"), ("I", "let i = 0;"), ("A", "let a = [];")] ∧
      s.scopes.closed.map (·.map fun d => (d.key, d.text)) =
        [[("Z", "let z = 0;"), ("X", "let x = z;")]] ∧
      s.scopes.root.declared.Pairwise fun a b =>
        b.origin = .array ∨ a.origin = .function ∨ b.origin = .function → a.key ≠ b.key := by
  have hlists : declarations? twoScopes =
      some ([[("X", "let x = 1;"), ("I", "let i = 0;"), ("A", "let a = [];")],
        [("Z", "let z = 0;"), ("X", "let x = z;")]], false) := by decide +kernel
  obtain ⟨s, hpass, hclean, hlists⟩ := pass_of_declarations? hlists
  obtain ⟨-, hlength, -, honce⟩ := declared_once_iff twoScopes (by decide +kernel) {} s hpass
  obtain ⟨hroot, hclosed⟩ := List.cons.inj hlists
  refine ⟨s, hpass, hclean, ?_, hroot, hclosed, (honce _ (by simp)).1 ?_⟩
  · rw [← hlength]
    simpa using congrArg List.length hclosed
  · have hkeys : s.scopes.root.declared.map (·.key) = ["X", "I", "A"] := by
      simpa [Function.comp_def] using congrArg (List.map (·.1)) hroot
    rw [hkeys]
    decide

/-- The index of an array that was never declared declares its name, and then the array does. -/
theorem array_in_its_index_declared_twice :
    ∃ s, Emit.pass (scan "PRINT a(a)").tokens.toArray {} = .ok () s ∧ ¬HasError s.collector.toList ∧
      s.scopes.root.declared.map (fun d => (d.key, d.text)) =
        [("A", "let a = 0;"), ("A", "let a = _makeArray(0, 10);")] := by
  have hlists : declarations? "PRINT a(a)" =
      some ([[("A", "let a = 0;"), ("A", "let a = _makeArray(0, 10);")]], false) :=
        by decide +kernel
  obtain ⟨s, hpass, hclean, hlists⟩ := pass_of_declarations? hlists
  exact ⟨s, hpass, hclean, (List.cons.inj hlists).1⟩

end BasicScript
