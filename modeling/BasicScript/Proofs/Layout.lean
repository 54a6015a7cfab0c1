import BasicScript.Proofs.Outline
import BasicScript.Proofs.Program
import BasicScript.Proofs.ScopeChange
import Mathlib.Data.List.Forall2

/-!
# The layout of the body

The page of the pass is nested at every moment: the lines that left a brace open are as many as the
blocks and the single-line `IF`s ask for, and the indentation is one more (`Drawn`).  The place for
the declarations of a procedure is marked when it begins, and the lines from there on stay nested,
so that declarations can be put there later.

Every event keeps this, also where the end of a procedure stands inside a single-line `IF`; so the
body of every program is laid out, with or without errors (`body_laidOut`).
-/

namespace BasicScript

open Script Emit Lexer List

/-! ### Marks -/

/-- The place for the declarations of a procedure is right below its first line, and what was
written since then is nested by itself. -/
structure Marked (ok : String → String → Prop) (opened : List String) (lines : List Line)
    (scope : Scope) : Prop where
  split : ∃ before header back inside, lines = before ++ ⟨1, header⟩ :: back ∧
    Nested ok 0 [] before [] ∧ OpensBrace header ∧ Nested ok 1 [] back inside ∧
    opened = inside ++ [header] ∧ scope.mark = before.length + 1
  indent : scope.indent = 2

namespace Marked

variable {ok : String → String → Prop} {opened opened' : List String} {lines : List Line}
  {scope : Scope} {text top : String}

/-- One more line, if it leaves the brace of the procedure open. -/
theorem snoc {line : Line} (h : Marked ok opened lines scope)
    (hline : ∀ inside header, opened = inside ++ [header] →
      ∃ inside', opened' = inside' ++ [header] ∧ Shift ok 1 inside line inside') :
    Marked ok opened' (lines ++ [line]) scope := by
  obtain ⟨hmarked, hindent⟩ := h
  obtain ⟨before, header, back, inside, rfl, hbefore, hheader, hback, hopened, hmark⟩ := hmarked
  obtain ⟨inside', hopened', hshift⟩ := hline inside header hopened
  exact ⟨⟨before, header, back ++ [line], inside', by simp, hbefore, hheader, hback.snoc hshift,
    hopened', hmark⟩, hindent⟩

theorem depth_eq (inside : List String) (header : String) :
    1 + (inside ++ [header]).length = 1 + (1 + inside.length) := by
  simp [Nat.add_comm]

theorem flat (h : Marked ok opened lines scope) (ht : Flat text) :
    Marked ok opened (lines ++ [⟨1 + opened.length, text⟩]) scope := by
  refine h.snoc fun inside header hopened => ⟨inside, hopened, ?_⟩
  rw [hopened, depth_eq]
  exact .flat ht

theorem opens (h : Marked ok opened lines scope) (ht : OpensBrace text) :
    Marked ok (text :: opened) (lines ++ [⟨1 + opened.length, text⟩]) scope := by
  refine h.snoc fun inside header hopened => ⟨text :: inside, by rw [hopened]; rfl, ?_⟩
  rw [hopened, depth_eq]
  exact .opens ht

/-- If another brace is left open, the one that is closed is not that of the procedure. -/
theorem inside_cons {inside : List String} {header : String}
    (h : top :: opened = inside ++ [header]) (hne : opened ≠ []) :
    ∃ inside', inside = top :: inside' ∧ opened = inside' ++ [header] := by
  cases inside with
  | nil => cases h; exact absurd rfl hne
  | cons first inside => cases h; exact ⟨inside, rfl, rfl⟩

theorem closes (h : Marked ok (top :: opened) lines scope)
    (hne : opened ≠ []) (ht : ClosesBrace text) (hok : ok top text) :
    Marked ok opened (lines ++ [⟨1 + opened.length, text⟩]) scope := by
  refine h.snoc fun inside header hopened => ?_
  obtain ⟨inside, rfl, rfl⟩ := inside_cons hopened hne
  rw [depth_eq]
  exact ⟨inside, rfl, .closes ht hok⟩

theorem turns (h : Marked ok (top :: opened) lines scope) (hne : opened ≠ []) (ht : TurnsBrace text)
    (hok : ok top text) :
    Marked ok (text :: opened) (lines ++ [⟨1 + opened.length, text⟩]) scope := by
  refine h.snoc fun inside header hopened => ?_
  obtain ⟨inside, rfl, rfl⟩ := inside_cons hopened hne
  rw [depth_eq]
  exact ⟨text :: inside, rfl, .turns ht hok⟩

end Marked

/-! ### Declarations on a page -/

/-- Declarations put in at a place of a page. -/
theorem Script.Page.insert_eq (front back : List Line) {page : Page} {place : Int}
    {texts : List String} {indent : Int} (hlines : page.lines.toList = front ++ back)
    (hplace : place = front.length) : (page.insert place texts indent).lines.toList =
      front ++ texts.map (Line.mk indent.toNat) ++ back := by
  have hbound : Sequence.bound (front ++ back).length place = front.length := by
    simp [Sequence.bound, hplace]
    omega
  simp only [Page.insert, Sequence.insertAt, hlines, hbound, take_left, drop_left]

/-- The page on which the declarations of a procedure stand at its top. -/
def Scope.hoistOn (scope : Scope) (page : Page) : Page :=
  if scope.hoisted.isEmpty then page else page.insert scope.mark scope.hoisted scope.indent

theorem Scope.hoistOn_indent (scope : Scope) (page : Page) :
    (scope.hoistOn page).indent = page.indent := by
  unfold Scope.hoistOn
  split <;> rfl

@[simp] theorem Scope.hoistOn_log (scope : Scope) (page : Page) :
    (scope.hoistOn page).log = page.log := by
  unfold Scope.hoistOn
  split <;> rfl

theorem Scope.hoistOn_append (front back : List Line) {scope : Scope} {page : Page}
    (hlines : page.lines.toList = front ++ back) (hmark : scope.mark = front.length) :
    (scope.hoistOn page).lines.toList = front ++ scope.hoisted.map
    (Line.mk scope.indent.toNat) ++ back := by
  unfold Scope.hoistOn
  split
  · rename_i hempty
    simp [hlines, List.isEmpty_iff.1 hempty]
  · exact Page.insert_eq front back hlines hmark

theorem Scope.hoistOn_lines {scope : Scope} {page : Page} {before back : List Line} {header : Line}
    (hlines : page.lines.toList = before ++ header :: back)
    (hmark : scope.mark = before.length + 1) : (scope.hoistOn page).lines.toList =
      before ++ header :: (scope.hoisted.map (Line.mk scope.indent.toNat) ++ back) := by
  rw [hoistOn_append (before ++ [header]) back (by simpa using hlines) (by simpa using hmark)]
  simp

theorem State.hoisted_page (s : State) : s.hoisted.page = s.scopes.root.hoistOn s.page := by
  unfold State.hoisted Scope.hoistOn
  split <;> rfl

/-! ### Nested pages -/

/-- The lines of a page are nested, and the indentation and the marks of the scopes belong to them.
`ok` says which line may close the brace of another. -/
structure Drawn (ok : String → String → Prop) (opened : List String) (page : Page)
    (scopes : Scopes) : Prop where
  lines : Nested ok 0 [] page.lines.toList opened
  indent : page.indent = 1 + opened.length
  root : scopes.root.mark = 0 ∧ scopes.root.indent = 1
  hoisted : ∀ scope ∈ scopes.root :: scopes.inner, ∀ text ∈ scope.hoisted, Flat text
  marks : ∀ scope ∈ scopes.inner, Marked ok opened page.lines.toList scope

namespace Drawn

variable {ok : String → String → Prop} {opened opened' : List String}
    {page : Page} {scopes : Scopes}
  {text top : String}

/-- One more line, and the indentation behind it. -/
theorem push {indent : Int} {log : Array Line} (h : Drawn ok opened page scopes) {depth : Nat}
    (hline : Shift ok 0 opened ⟨1 + (0 + depth), text⟩ opened')
    (hindent : indent = 1 + opened'.length)
    (hmarks : ∀ scope ∈ scopes.inner, Marked ok opened page.lines.toList scope →
      Marked ok opened' (page.lines.toList ++ [⟨1 + depth, text⟩]) scope) :
    Drawn ok opened' ⟨page.lines.push ⟨1 + depth, text⟩, indent, log⟩ scopes where
  lines := by
    rw [Nat.zero_add] at hline
    simpa using h.lines.snoc hline
  indent := hindent
  root := h.root
  hoisted := h.hoisted
  marks scope hscope := by simpa using hmarks scope hscope (h.marks scope hscope)

theorem depth_eq (h : Drawn ok opened page scopes) : page.indent.toNat = 1 + opened.length := by
  rw [h.indent]
  omega

/-- A line of the page, at its current indentation. -/
theorem line_eq (page : Page) (ht : text ≠ "") :
    page.line text = ⟨page.lines.push ⟨page.indent.toNat, text⟩, page.indent,
      page.log.push ⟨page.indent.toNat, text⟩⟩ := by
  simp [Page.line, ht]

theorem line (h : Drawn ok opened page scopes) (ht : Flat text) :
    Drawn ok opened (page.line text) scopes := by
  rw [line_eq page ht.ne_empty, h.depth_eq]
  exact h.push (.flat ht) h.indent fun _ _ hmark => hmark.flat ht

theorem openBrace (h : Drawn ok opened page scopes) (ht : OpensBrace text) :
    Drawn ok (text :: opened) ((page.line text).indentBy 1) scopes := by
  rw [line_eq page ht.ne_empty, h.depth_eq]
  refine h.push (.opens ht) ?_ fun _ _ hmark => hmark.opens ht
  simp only [h.indent, length_cons]
  omega

theorem dedent_eq (h : Drawn ok (top :: opened) page scopes) :
    page.dedent = ⟨page.lines, 1 + opened.length, page.log⟩ := by
  have hindent := h.indent
  simp only [length_cons] at hindent
  rw [Page.dedent, if_pos (by omega), Page.mk.injEq]
  exact ⟨rfl, by omega, rfl⟩

theorem closeBrace (h : Drawn ok (top :: opened) page scopes)
    (hne : scopes.inner ≠ [] → opened ≠ []) (ht : ClosesBrace text) (hok : ok top text) :
    Drawn ok opened (page.dedent.line text) scopes := by
  rw [h.dedent_eq, line_eq _ ht.ne_empty]
  exact h.push (.closes ht hok) rfl fun _ hscope hmark =>
    hmark.closes (hne (ne_nil_of_mem hscope)) ht hok

theorem turnBrace (h : Drawn ok (top :: opened) page scopes)
    (hne : scopes.inner ≠ [] → opened ≠ []) (ht : TurnsBrace text) (hok : ok top text) :
    Drawn ok (text :: opened) ((page.dedent.line text).indentBy 1) scopes := by
  rw [h.dedent_eq, line_eq _ ht.ne_empty]
  refine h.push (.turns ht hok) ?_ fun _ hscope hmark =>
    hmark.turns (hne (ne_nil_of_mem hscope)) ht hok
  simp only [length_cons]
  omega

/-! ### Scopes -/

theorem mapCurrent {f : Scope → Scope} (h : Drawn ok opened page scopes)
    (hf : ∀ scope, (f scope).mark = scope.mark ∧ (f scope).indent = scope.indent)
    (hhoisted : ∀ scope, (∀ text ∈ scope.hoisted, Flat text) →
      ∀ text ∈ (f scope).hoisted, Flat text) :
    Drawn ok opened page (scopes.mapCurrent f) := by
  unfold Scopes.mapCurrent
  split
  · rename_i hinner
    exact { h with
      root := by simpa only [hf] using h.root
      hoisted := by
        have := h.hoisted
        simp only [hinner, mem_singleton, forall_eq] at this ⊢
        exact hhoisted _ this }
  · rename_i scope rest hinner
    exact { h with
      hoisted := by
        have := h.hoisted
        simp only [hinner, forall_mem_cons] at this ⊢
        exact ⟨this.1, hhoisted _ this.2.1, this.2.2⟩
      marks := by
        have := h.marks
        simp only [hinner, forall_mem_cons] at this ⊢
        obtain ⟨⟨hsplit, hindent⟩, hrest⟩ := this
        exact ⟨⟨by simpa only [hf] using hsplit, by simpa only [hf] using hindent⟩, hrest⟩ }

theorem renames {scopes' : Scopes} (h : Drawn ok opened page scopes)
    (hnames : scopes.Renames scopes') : Drawn ok opened page scopes' := by
  obtain ⟨hroot, hinner⟩ := List.cons.inj hnames.unnamed
  obtain ⟨names, hroot⟩ := Scope.eq_of_unnamed hroot
  have hold {scope : Scope} (hscope : scope ∈ scopes'.inner) :
      ∃ old ∈ scopes.inner, ∃ names, scope = { old with names } := by
    have hmem := mem_map_of_mem (f := Scope.unnamed) hscope
    obtain ⟨old, hold, hsame⟩ := mem_map.1 (hinner ▸ hmem)
    exact ⟨old, hold, Scope.eq_of_unnamed hsame.symm⟩
  refine ⟨h.lines, h.indent, ?_, forall_mem_cons.2 ⟨?_, fun scope hscope => ?_⟩,
    fun scope hscope => ?_⟩
  · rw [hroot]
    exact h.root
  · rw [hroot]
    exact h.hoisted scopes.root (.head _)
  · obtain ⟨old, hmem, names, rfl⟩ := hold hscope
    exact h.hoisted old (.tail _ hmem)
  · obtain ⟨old, hmem, names, rfl⟩ := hold hscope
    exact ⟨(h.marks old hmem).split, (h.marks old hmem).indent⟩

/-- A declaration is a flat line, here or at the top of its scope. -/
theorem written {s : State} {d : Declaration} (h : Drawn ok opened s.page s.scopes)
    (hd : Flat d.text) : Drawn ok opened (s.written d).page (s.written d).scopes := by
  have hnoted : Drawn ok opened s.page (s.scopes.note d) :=
    h.mapCurrent (fun _ => ⟨rfl, rfl⟩) fun _ hh => hh
  unfold State.written
  dsimp only
  split
  · refine hnoted.mapCurrent (f := fun scope => { scope with hoisted := scope.hoisted ++ [d.text] })
      (fun _ => ⟨rfl, rfl⟩) fun scope hh => ?_
    simpa [or_imp, forall_and] using ⟨hh, hd⟩
  · exact hnoted.line hd

/-- A procedure begins with a line, and its scope is marked below it. -/
theorem begins {kind : ScopeKind} {name : Option String} {base start : Nat}
    (h : Drawn ok [] page scopes) (hinner : scopes.inner = []) (ht : OpensBrace text) :
    Drawn ok [text] ((page.line text).indentBy 1)
      ((scopes.push kind name ((page.line text).indentBy 1).mark
        ((page.line text).indentBy 1).indent).mapCurrent ({ · with base, start })) := by
  have hopen := h.openBrace ht
  have hlines : ((page.line text).indentBy 1).lines.toList = page.lines.toList ++ [⟨1, text⟩] := by
    rw [line_eq page ht.ne_empty, h.depth_eq]
    simp [Page.indentBy]
  refine mapCurrent { hopen with hoisted := ?_, marks := ?_ } (fun _ => ⟨rfl, rfl⟩) fun _ hh => hh
  · have := h.hoisted
    simp only [hinner, Scopes.push, forall_mem_cons] at this ⊢
    exact ⟨this.1, by simp, by simp⟩
  · simp only [Scopes.push, hinner, mem_singleton, forall_eq]
    refine ⟨⟨page.lines.toList, text, [], [], hlines, h.lines, ht, .nil, rfl, ?_⟩, hopen.indent⟩
    rw [Page.mark, ← Array.length_toList, hlines]
    simp

/-- What stands between the first line of a procedure and its end, with the declarations. -/
theorem hoisted_body {scope : Scope} {back : List Line} {inside : List String}
    (h : Drawn ok opened page scopes) (hscope : scope ∈ scopes.inner)
    (hback : Nested ok 1 [] back inside) :
    Nested ok 1 [] (scope.hoisted.map (Line.mk scope.indent.toNat) ++ back) inside := by
  rw [(h.marks scope hscope).indent]
  exact Nested.append (.flats (h.hoisted scope (by simp [hscope]))) hback

/-- A procedure is left: its declarations are put at its top, and its scope is closed. -/
theorem leave {scope : Scope} (h : Drawn ok opened page scopes) (hinner : scopes.inner = [scope]) :
    Drawn ok opened (scope.hoistOn page) { scopes with
        inner := []
        closed := scopes.closed ++ [scope.declared]
        tops := scopes.tops ++ [scope.top] } := by
  have hscope : scope ∈ scopes.inner := by simp [hinner]
  obtain ⟨before, header, back, inside, hlines, hbefore, hheader, hback, rfl, hmark⟩ :=
    (h.marks scope hscope).split
  have hbody : Nested ok 0 ([] ++ [header]) (scope.hoisted.map (Line.mk scope.indent.toNat) ++ back)
      (inside ++ [header]) :=
    (h.hoisted_body hscope hback).around
  refine ⟨?_, (scope.hoistOn_indent page).trans h.indent, h.root, ?_, by simp⟩
  · rw [Scope.hoistOn_lines hlines hmark, append_cons]
    exact (hbefore.snoc (.opens hheader)).append hbody
  · exact fun sc hsc => h.hoisted sc (by simp_all)

/-- The declarations of the module are put at its top. -/
theorem hoistModule {s : State} (h : Drawn ok opened s.page s.scopes) :
    Nested ok 0 [] s.hoisted.page.lines.toList opened := by
  rw [State.hoisted_page, Scope.hoistOn_append [] s.page.lines.toList rfl h.root.1, h.root.2]
  exact Nested.append (.flats (h.hoisted _ (by simp))) h.lines

end Drawn

/-! ### Lines that open and close braces -/

theorem flat_break : Flat "break;" := .intro (Reads.start rfl)

theorem opensBrace_if {test : String} (h : Inner test) : OpensBrace ("if (" ++ test ++ ") \x7b") :=
  (Reads.start rfl).within h rfl

theorem turnsBrace_elseIf {test : String} (h : Inner test) :
    TurnsBrace ("\x7d else if (" ++ test ++ ") \x7b") :=
  (Reads.start rfl).within h rfl

theorem turnsBrace_else : TurnsBrace "\x7d else \x7b" := Reads.start rfl

theorem closesBrace_plain : ClosesBrace "\x7d" := Reads.start rfl

theorem closesBrace_while {test : String} (h : Sealed test) :
    ClosesBrace ("\x7d while " ++ test ++ ";") :=
  Reads.around h rfl

theorem opensBrace_header {jsName parameters : String} (hj : Wordy jsName) (hp : Inner parameters) :
    OpensBrace (headerLine jsName parameters) :=
  (Reads.around hj.solid.1 rfl).within hp rfl

theorem flat_const {name value : String} (hn : Wordy name) (hv : Sealed value) :
    Flat ("const " ++ name ++ " = " ++ value ++ ";") :=
  .intro ((Reads.around hn.solid.1 rfl).piece hv rfl)

theorem Opener.opensBrace {form : BlockForm} {text : String} (h : Opener form text) :
    OpensBrace text := by
  cases h with
  | condition hc => exact opensBrace_if hc.inner
  | counting hv hstart hstop hstep =>
    have hv := hv.solid.1
    exact (((((((Reads.around hv rfl).piece hstart rfl).piece hstep rfl).piece hv rfl).piece hstop
      rfl).piece hv rfl).piece hstop rfl).piece hv rfl
      |>.piece hstep rfl
  | testing hc => exact Reads.around hc rfl
  | looping => exact Reads.start rfl
  | whileLoop hc => exact Reads.around hc rfl

/-- The line of the first case of a selection. -/
def firstCase (test : Option String) : String := "if (" ++ test.getD "true" ++ ") \x7b"

/-- The line of a case behind another. -/
def nextCase : Option String → String
  | some test => "\x7d else if (" ++ test ++ ") \x7b"
  | none => "\x7d else \x7b"

theorem State.caseLine_zero (s : State) (test : Option String) :
    s.caseLine 0 test = s.openBrace (firstCase test) := by
  cases test with
  | none => simp only [State.caseLine, firstCase, if_pos, Option.getD_none]; rfl
  | some test => rfl

theorem State.caseLine_succ (s : State) (n : Nat) (test : Option String) :
    s.caseLine (n + 1) test = s.turnBrace (nextCase test) := by
  cases test <;> rfl

theorem opensBrace_firstCase {test : Option String} (h : ∀ t ∈ test, Inner t) :
    OpensBrace (firstCase test) := by
  cases test with
  | none => exact opensBrace_if (Reads.start rfl)
  | some test => exact opensBrace_if (h test rfl)

theorem turnsBrace_nextCase {test : Option String} (h : ∀ t ∈ test, Inner t) :
    TurnsBrace (nextCase test) := by
  cases test with
  | none => exact turnsBrace_else
  | some test => exact turnsBrace_elseIf (h test rfl)

/-! ### Ends of blocks -/

/-- The lines that close the braces of a block, the innermost first. -/
def BlockForm.closings : BlockForm → List String
  | .selection _ (_ + 1) _ => ["\x7d", "\x7d"]
  | .looping true => ["\x7d while (true);"]
  | _ => ["\x7d"]

/-- The number of braces that a block has open. -/
def BlockForm.braces (form : BlockForm) : Nat := form.closings.length

@[simp] theorem BlockForm.braces_selection_zero (value : String) (hasElse : Bool) :
    (selection value 0 hasElse).braces = 1 :=
  rfl

@[simp] theorem BlockForm.braces_selection_succ (value : String) (n : Nat) (hasElse : Bool) :
    (selection value (n + 1) hasElse).braces = 2 :=
  rfl

/-- Only a selection has more than one brace open. -/
theorem BlockForm.braces_eq_one {form : BlockForm} (h : form.kind ≠ .selection) :
    form.braces = 1 := by
  cases form with
  | selection => exact absurd rfl h
  | looping testsBehind => cases testsBehind <;> rfl
  | _ => rfl

theorem BlockForm.braces_pos (form : BlockForm) : 0 < form.braces := by
  unfold braces closings
  split <;> simp

section Ends

variable {ok : String → String → Prop} {inside opened : List String} {s : State} {form : BlockForm}

theorem State.leaveProcedure_eq {scope : Scope} (h : s.scopes.inner = [scope]) :
    s.leaveProcedure = closeBrace { s with
      page := scope.hoistOn s.page
      scopes := { s.scopes with
        inner := []
        closed := s.scopes.closed ++ [scope.declared]
        tops := s.scopes.tops ++ [scope.top] } } "\x7d" := by
  simp [State.leaveProcedure, Scope.hoistOn, Scopes.current, h]

theorem Drawn.leaveProcedure {top : String} {scope : Scope}
    (h : Drawn ok (top :: opened) s.page s.scopes) (hinner : s.scopes.inner = [scope])
    (hok : ok top "\x7d") : Drawn ok opened s.leaveProcedure.page s.leaveProcedure.scopes := by
  rw [State.leaveProcedure_eq hinner]
  exact (h.leave hinner).closeBrace (fun hne => absurd rfl hne) closesBrace_plain hok

/-- **The end of a block** closes the braces that were opened inside it. -/
theorem Drawn.finish (h : Drawn ok (inside ++ opened) s.page s.scopes)
    (hok : Forall₂ ok inside form.closings)
    (hwordy : ∀ result, form = .function result → Wordy result)
    (hinner : (∃ kind, form.kind = .procedure kind) → ∃ scope, s.scopes.inner = [scope])
    (hne : (∀ kind, form.kind ≠ .procedure kind) → s.scopes.inner ≠ [] → opened ≠ []) :
    Drawn ok opened (s.finish form).page (s.finish form).scopes := by
  cases form with
  | sub =>
    obtain ⟨scope, hscope⟩ := hinner ⟨_, rfl⟩
    obtain _ | ⟨hok, _ | _⟩ := hok
    exact h.leaveProcedure hscope hok
  | function result =>
    obtain ⟨scope, hscope⟩ := hinner ⟨_, rfl⟩
    have hreturn : Flat ("return " ++ result ++ ";") :=
      .intro (.around (hwordy result rfl).solid.1 rfl)
    obtain _ | ⟨hok, _ | _⟩ := hok
    exact (h.line hreturn).leaveProcedure hscope hok
  | selection value cases hasElse =>
    cases cases with
    | zero =>
      obtain _ | ⟨hok, _ | _⟩ := hok
      exact h.closeBrace (hne nofun) closesBrace_plain hok
    | succ n =>
      obtain _ | ⟨hok, _ | ⟨hok', _ | _⟩⟩ := hok
      have houter := h.closeBrace (fun _ => cons_ne_nil _ _) closesBrace_plain hok
      exact houter.closeBrace (hne nofun) closesBrace_plain hok'
  | looping testsBehind =>
    cases testsBehind with
    | true =>
      obtain _ | ⟨hok, _ | _⟩ := hok
      exact h.closeBrace (hne nofun) (Reads.start rfl) hok
    | false =>
      obtain _ | ⟨hok, _ | _⟩ := hok
      exact h.closeBrace (hne nofun) closesBrace_plain hok
  | condition | counting | whileLoop =>
    obtain _ | ⟨hok, _ | _⟩ := hok
    exact h.closeBrace (hne nofun) closesBrace_plain hok

end Ends

/-! ### Braces that are owed -/

/-- The number of braces that some blocks have yet to close. -/
def bracesOf (blocks : List Block) : Nat :=
  blocks.foldr (fun block count => block.form.braces + count) 0

@[simp] theorem bracesOf_nil : bracesOf [] = 0 := rfl

@[simp] theorem bracesOf_cons (block : Block) (blocks : List Block) :
    bracesOf (block :: blocks) = block.form.braces + bracesOf blocks := rfl

/-- The number of braces that the open blocks and single-line `IF`s have yet to close. -/
def State.owed (s : State) : Nat := bracesOf s.blocks + s.floors.length

/-- The page is nested, whatever closes what, and the open braces are those that are owed. -/
def State.Tidy (s : State) : Prop :=
  ∃ opened, Drawn (fun _ _ => True) opened s.page s.scopes ∧ opened.length = s.owed

variable {tape : Tape} {s : State} {block : Block} {rest : List Block}
    {e : Event} {form : BlockForm}
  {collector : Collector} {source : String}

/-- While a scope is open inside the module's, the outermost block is a procedure. -/
theorem Sound.last_of_inner (hs : Sound tape s) (h : s.scopes.inner ≠ []) :
    ∃ front block kind, s.blocks = front ++ [block] ∧ block.form.kind = .procedure kind := by
  have hinner := hs.framed.inner
  cases hlast : s.blocks.getLast? with
  | none => simp [expectedScopes, hlast, h] at hinner
  | some block =>
    obtain ⟨front, hblocks⟩ := getLast?_eq_some_iff.1 hlast
    cases hk : block.kind with
    | procedure kind => exact ⟨front, block, kind, hblocks, hk⟩
    | _ => simp [expectedScopes, hlast, hk, h] at hinner

/-- A block inside a procedure is not the last one. -/
theorem Sound.rest_ne_nil (hs : Sound tape s) (hb : s.blocks = block :: rest)
    (hk : ∀ kind, block.form.kind ≠ .procedure kind) (h : s.scopes.inner ≠ []) : rest ≠ [] := by
  rintro rfl
  obtain ⟨front, last, kind, hblocks, hlast⟩ := hs.last_of_inner h
  rw [hb] at hblocks
  cases front with
  | nil => cases hblocks; exact hk kind hlast
  | cons first front => simp at hblocks

theorem bracesOf_pos {blocks : List Block} (h : blocks ≠ []) : 0 < bracesOf blocks := by
  cases blocks with
  | nil => exact absurd rfl h
  | cons block rest =>
    have := block.form.braces_pos
    simp only [bracesOf_cons]
    omega

/-- Events that leave the open braces as they are. -/
def Event.isFlat : Event → Bool
  | opens .. | selects .. | begins .. | tests _ | elseIfs _ | elses | ends _ | abandons => false
  | e => !e.isInline

/-- **An event that is flat** leaves the open braces as they are, and so the blocks that they belong
to. -/
theorem Drawn.flat {ok : String → String → Prop} {opened : List String}
    (h : Drawn ok opened s.page s.scopes) (hfit : e.Fits tape s) (hflat : e.isFlat = true) :
    Drawn ok opened (e.apply s).page (e.apply s).scopes ∧ (e.apply s).blocks = s.blocks ∧
      (e.apply s).floors = s.floors := by
  cases e with
  | records r =>
    obtain ⟨caught, recorded, line, ds, he⟩ := s.refused_eq r
    rw [Event.apply, he]
    exact ⟨h, rfl, rfl⟩
  | enrols entry => cases entry <;> exact ⟨h, rfl, rfl⟩
  | names naming => exact ⟨h.renames (.naming naming), rfl, rfl⟩
  | introduces name v d =>
    have hwritten := Drawn.written (s := { s with scopes := (s.scopes.declare name v).2 })
      (h.renames (.declare name v)) hfit.2.1
    obtain ⟨page, scopes, he⟩ := State.written_eq { s with scopes := (s.scopes.declare name v).2 } d
    exact ⟨hwritten, by rw [Event.apply, he], by rw [Event.apply, he]⟩
  | defines d =>
    obtain ⟨page, scopes, he⟩ := s.written_eq d
    exact ⟨h.written hfit.1, by rw [Event.apply, he], by rw [Event.apply, he]⟩
  | emits text => exact ⟨h.line hfit, rfl, rfl⟩
  | exits kind => exact ⟨h.line flat_break, rfl, rfl⟩
  | lends list => exact ⟨h.renames (.lends list), rfl, rfl⟩
  | regains before => exact ⟨h.renames (.regains before), rfl, rfl⟩
  | advances | breaks | reports | counts | passes => exact ⟨h, rfl, rfl⟩
  | _ => cases hflat

namespace State.Tidy

theorem finish {closed : Bool} (h : s.Tidy) (hs : Sound tape s) (hb : s.blocks = block :: rest) :
    ((s.without block rest closed).finish block.form).Tidy := by
  obtain ⟨opened, hdrawn, howed⟩ := h
  simp only [State.owed, hb, bracesOf_cons] at howed
  have hsplit := take_append_drop block.form.braces opened
  have hlength : (opened.take block.form.braces).length = block.form.braces := by
    simp only [length_take]
    omega
  refine ⟨opened.drop block.form.braces, ?_, ?_⟩
  · refine Drawn.finish (s := s.without block rest closed) (hsplit.symm ▸ hdrawn) ?_ ?_ ?_ ?_
    · exact forall₂_iff_get.2 ⟨hlength, fun _ _ _ => trivial⟩
    · exact (hs.blocks block (by simp [hb])).result
    · exact fun ⟨kind, hkind⟩ => (hs.scope_of_procedure hb hkind).2
    · intro hk hinner
      have := bracesOf_pos (hs.rest_ne_nil hb hk hinner)
      refine ne_nil_of_length_pos ?_
      simp only [length_drop]
      omega
  · obtain ⟨page, scopes, hfinish⟩ := (s.without block rest closed).finish_eq block.form
    rw [hfinish]
    simp only [State.owed, State.without, length_drop]
    omega

/-- A case of a selection opens the first branch or turns to the next. -/
theorem tests {test : Option String} (h : s.Tidy) (hfit : (Event.tests test).Fits tape s) :
    ((Event.tests test).apply s).Tidy := by
  obtain ⟨htest, value, cases, hasElse, ⟨-, htop⟩, -⟩ := hfit
  obtain ⟨opened, hdrawn, howed⟩ := h
  obtain ⟨block, hblock, hform⟩ := Option.map_eq_some_iff.1 htop
  obtain ⟨rest, hblocks⟩ := head?_eq_some_iff.1 hblock
  simp only [Event.apply, htop]
  simp only [State.owed, hblocks, bracesOf_cons, hform] at howed
  cases cases with
  | zero =>
    rw [State.caseLine_zero]
    simp only [State.reform, State.openBrace, hblocks]
    refine ⟨_, hdrawn.openBrace (opensBrace_firstCase htest), ?_⟩
    simp only [State.owed, bracesOf_cons, length_cons, howed,
      BlockForm.braces_selection_zero, BlockForm.braces_selection_succ]
    omega
  | succ n =>
    rw [State.caseLine_succ]
    simp only [State.reform, State.turnBrace, hblocks]
    simp only [BlockForm.braces_selection_succ] at howed
    obtain ⟨top, opened, rfl⟩ := exists_cons_of_length_pos (l := opened) (by omega)
    have hne : opened ≠ [] := ne_nil_of_length_pos (by simp only [length_cons] at howed; omega)
    refine ⟨_, hdrawn.turnBrace (fun _ => hne) (turnsBrace_nextCase htest) trivial, ?_⟩
    simpa [State.owed] using howed

/-- The brace that is closed, while one is owed besides that of a procedure. -/
theorem exists_cons (h : s.Tidy) (hpos : 0 < s.owed) (hne : s.scopes.inner ≠ [] → 1 < s.owed) :
    ∃ top opened, Drawn (fun _ _ => True) (top :: opened) s.page s.scopes ∧
      opened.length + 1 = s.owed ∧ (s.scopes.inner ≠ [] → opened ≠ []) := by
  obtain ⟨opened, hdrawn, howed⟩ := h
  obtain ⟨top, opened, rfl⟩ := exists_cons_of_length_pos (howed ▸ hpos)
  rw [length_cons] at howed
  refine ⟨top, opened, hdrawn, howed, fun hinner => ne_nil_of_length_pos ?_⟩
  have := hne hinner
  omega

theorem turn {text : String} (h : s.Tidy) (hpos : 0 < s.owed)
    (hne : s.scopes.inner ≠ [] → 1 < s.owed) (ht : TurnsBrace text) : (s.turnBrace text).Tidy := by
  obtain ⟨top, opened, hdrawn, howed, hne⟩ := h.exists_cons hpos hne
  exact ⟨_, hdrawn.turnBrace hne ht trivial, howed⟩

/-- What is owed while a block that is no procedure is the innermost one. -/
theorem owed_of_cons (hs : Sound tape s) (hb : s.blocks = block :: rest)
    (hk : ∀ kind, block.form.kind ≠ .procedure kind) :
    0 < s.owed ∧ (s.scopes.inner ≠ [] → 1 < s.owed) := by
  have hbraces := block.form.braces_pos
  simp only [State.owed, hb, bracesOf_cons]
  refine ⟨by omega, fun hinner => ?_⟩
  have := bracesOf_pos (hs.rest_ne_nil hb hk hinner)
  omega

theorem owed_of_tops (hs : Sound tape s) (h : s.Tops form)
    (hk : ∀ kind, form.kind ≠ .procedure kind) :
    0 < s.owed ∧ (s.scopes.inner ≠ [] → 1 < s.owed) := by
  obtain ⟨block, hblock, rfl⟩ := Option.map_eq_some_iff.1 h.2
  obtain ⟨rest, hblocks⟩ := head?_eq_some_iff.1 hblock
  exact owed_of_cons hs hblocks hk

theorem owed_of_floors {floor : Nat} {floors : List Nat} (hs : Sound tape s)
    (h : s.floors = floor :: floors) : 0 < s.owed ∧ (s.scopes.inner ≠ [] → 1 < s.owed) := by
  simp only [State.owed, h, length_cons]
  refine ⟨by omega, fun hinner => ?_⟩
  obtain ⟨front, block, kind, hblocks, -⟩ := hs.last_of_inner hinner
  have hne : s.blocks ≠ [] := by simp [hblocks]
  have := bracesOf_pos hne
  omega

theorem owed_reform {old : BlockForm} (htop : s.topForm? = some old)
    (h : form.braces = old.braces) : (s.reform form).owed = s.owed := by
  obtain ⟨block, hblock, hold⟩ := Option.map_eq_some_iff.1 htop
  obtain ⟨rest, hblocks⟩ := head?_eq_some_iff.1 hblock
  subst hold
  simp [State.reform, State.owed, hblocks, h]

/-- **Every event** keeps the page tidy. -/
theorem apply (hs : Sound tape s) (h : s.Tidy) (hfit : e.Fits tape s) : (e.apply s).Tidy := by
  cases e with
  | tests test => exact h.tests hfit
  | opens form text token =>
    obtain ⟨opened, hdrawn, howed⟩ := h
    have hone : form.braces = 1 := by
      obtain ⟨hopener, -⟩ := hfit
      refine BlockForm.braces_eq_one ?_
      cases hopener <;> simp [BlockForm.kind]
    refine ⟨_, hdrawn.openBrace hfit.1.opensBrace, ?_⟩
    simp only [State.owed] at howed
    simp only [Event.apply, State.pushBlock, State.openBrace, State.owed,
      bracesOf_cons, length_cons, hone]
    omega
  | selects value selector token =>
    obtain ⟨hvalue, hselector, -⟩ := hfit
    obtain ⟨opened, hdrawn, howed⟩ := h
    refine ⟨_, (hdrawn.openBrace (Reads.start rfl)).line (flat_const hvalue hselector), ?_⟩
    simp only [State.owed] at howed
    simp only [Event.apply, State.pushBlock, State.openBrace, State.addLine,
      State.owed, bracesOf_cons, length_cons, BlockForm.braces_selection_zero]
    omega
  | begins kind name jsName parameters token =>
    obtain ⟨hj, hp, -, hblocks, hfloors, -⟩ := hfit
    obtain ⟨opened, hdrawn, howed⟩ := h
    have hone : (kind.form jsName).braces = 1 := by cases kind <;> rfl
    have hinner : s.scopes.inner = [] := by simpa [hblocks, expectedScopes] using hs.framed.inner
    obtain rfl : opened = [] := by simpa [State.owed, hblocks, hfloors] using howed
    refine ⟨_, hdrawn.begins hinner (opensBrace_header hj hp), ?_⟩
    simp [Event.apply, State.pushBlock, State.openBrace, State.owed, hblocks, hfloors, hone]
  | elseIfs condition =>
    obtain ⟨hcondition, hasElse, htops, -⟩ := hfit
    obtain ⟨hpos, hne⟩ := owed_of_tops hs htops (by simp [BlockForm.kind])
    exact h.turn hpos hne (turnsBrace_elseIf hcondition.inner)
  | elses =>
    obtain ⟨hasElse, htops, -⟩ := hfit
    obtain ⟨opened, hdrawn, howed⟩ := h
    obtain ⟨blocks, hreform⟩ := s.reform_eq (.condition true)
    have hsame : (s.reform (.condition true)).owed = s.owed := owed_reform htops.2 rfl
    rw [hreform] at hsame
    obtain ⟨hpos, hne⟩ := owed_of_tops hs htops (by simp [BlockForm.kind])
    simp only [Event.apply, hreform]
    exact turn ⟨opened, hdrawn, howed.trans hsame.symm⟩ (hsame ▸ hpos) (hsame ▸ hne) turnsBrace_else
  | ends test =>
    obtain ⟨block, hblock, htest, -⟩ := hfit
    obtain ⟨rest, hblocks⟩ := head?_eq_some_iff.1 hblock
    simp only [Event.apply, hblocks]
    cases test with
    | none => exact h.finish hs hblocks
    | some test =>
      obtain ⟨hsealed, hform⟩ := htest test rfl
      have hone : block.form.braces = 1 := by rw [hform]; rfl
      obtain ⟨hpos, howes⟩ := owed_of_cons hs hblocks (by simp [hform, BlockForm.kind])
      obtain ⟨top, opened, hdrawn, howed, hne⟩ := h.exists_cons hpos howes
      refine ⟨opened, hdrawn.closeBrace hne (closesBrace_while hsealed) trivial, ?_⟩
      simp only [State.owed, hblocks, bracesOf_cons, hone] at howed
      simp only [State.finishWith, State.closeBrace, State.owed, State.without]
      omega
  | abandons =>
    obtain ⟨block, rest, hblocks⟩ := exists_cons_of_ne_nil hfit
    simp only [Event.apply, hblocks]
    exact finish (s := s.reported _) h (hs.collector _) hblocks
  | enters condition =>
    obtain ⟨opened, hdrawn, howed⟩ := h
    have hcondition : Sealed condition := hfit
    exact ⟨_, hdrawn.openBrace (opensBrace_if hcondition.inner), congrArg (· + 1) howed⟩
  | turns =>
    obtain ⟨floor, rest, hfloors, -⟩ := hfit
    obtain ⟨hpos, hne⟩ := owed_of_floors hs hfloors
    exact h.turn hpos hne turnsBrace_else
  | leaves =>
    obtain ⟨floor, rest, hfloors, -⟩ := hfit
    obtain ⟨hpos, howes⟩ := owed_of_floors hs hfloors
    obtain ⟨top, opened, hdrawn, howed, hne⟩ := h.exists_cons hpos howes
    refine ⟨opened, hdrawn.closeBrace hne closesBrace_plain trivial, ?_⟩
    simp only [State.owed, hfloors, length_cons] at howed
    simp only [Event.apply, State.closeBrace, State.owed, hfloors, drop_one, tail_cons]
    omega
  | _ =>
    obtain ⟨opened, hdrawn, howed⟩ := h
    obtain ⟨hdrawn, hblocks, hfloors⟩ := hdrawn.flat hfit rfl
    exact ⟨opened, hdrawn, by rwa [State.owed, hblocks, hfloors]⟩

end State.Tidy

/-! ### The body -/

/-- The page and the scopes that the pass starts with. -/
theorem Drawn.start (ok : String → String → Prop) (collector : Collector) :
    Drawn ok [] ({ collector } : State).page ({ collector } : State).scopes := by
  refine ⟨.nil, rfl, ⟨rfl, rfl⟩, ?_, ?_⟩ <;> simp [Scopes.start]

theorem Run.tidy {level : Level} {s' : State} {es : List Event} (h : Run tape level s es s')
    (hs : Sound tape s) (ht : s.Tidy) : s'.Tidy :=
  h.invariant_of_sound (I := State.Tidy) (fun hs h hfit => h.apply hs hfit) hs ht

/-- The braces of a program whose pass is over are all closed. -/
theorem Finished.owed_eq (h : Finished tape collector s) : s.owed = 0 := by
  have hfloors : s.floors = [] := h.path.grows.floors
  simp [State.owed, h.blocks, hfloors]

/-- What the pass over a source leaves, if it comes to its end. -/
theorem exists_finished (hread : (scan source).fault = none)
    (hpass : pass (scan source).tokens.toArray collector = .ok () s) :
    ∃ last, Finished (Tape.ofSource source hread) collector last ∧ s = last.hoisted := by
  rcases pass_cases (Tape.ofSource source hread) collector with ⟨last, hlast, hok⟩ |
    ⟨fault, s', herror, -⟩
  · cases hpass.symm.trans hok
    exact ⟨last, hlast, rfl⟩
  · cases hpass.symm.trans herror

/-- **The body is laid out.**  If the pass over a source comes to its end, with or without errors,
then between the lines in front of the body and those behind it stands a body whose lines are
balanced in round and square brackets, whose braces are balanced, and each of whose lines is
indented as the braces in front of it say. -/
theorem body_laidOut (source : String) (hread : (scan source).fault = none)
    (collector : Collector) (s : State)
    (hpass : pass (scan source).tokens.toArray collector = .ok () s) :
    (∀ target : Target, s.code target = Text.joinWith "\n"
        (target.preamble s.dataValues ++ s.page.render indentUnit ++ target.postamble)) ∧
      LaidOut (s.page.render indentUnit) := by
  refine ⟨fun target => rfl, ?_⟩
  obtain ⟨last, hlast, rfl⟩ := exists_finished hread hpass
  obtain ⟨es, hrun⟩ := hlast.path
  obtain ⟨opened, hdrawn, howed⟩ := hrun.tidy (sound_start _ _) ⟨[], .start _ collector, rfl⟩
  rw [hlast.owed_eq, length_eq_zero_iff] at howed
  subst howed
  exact hdrawn.hoistModule.laidOut

/-- The lines of the body that the pass over a source leaves, if it comes to its end, and whether it
reports an error. -/
def outcome? (source : String) : Option (List String × Bool) :=
  match pass (scan source).tokens.toArray {} with
  | .ok _ s => some (s.page.render indentUnit, decide (HasError s.collector.toList))
  | .error _ _ => none

theorem pass_of_outcome? {lines : List String} (errs : Bool)
    (h : outcome? source = some (lines, errs)) :
    ∃ s, pass (scan source).tokens.toArray {} = .ok () s ∧ s.page.render indentUnit = lines ∧
      (HasError s.collector.toList ↔ errs = true) := by
  unfold outcome? at h
  split at h
  · obtain ⟨hlines, herrs⟩ := Prod.mk.inj (Option.some.inj h)
    exact ⟨_, ‹_›, hlines, by simp [← herrs]⟩
  · cases h

/-- The layout holds even where `END SUB` ends a single-line `IF` and a selection is never
closed. -/
theorem laidOut_despite_errors :
    ∃ s,
      pass (scan "SUB f\nIF x THEN END SUB ELSE PRINT \"(\"\nSELECT CASE 1\nCASE 2").tokens.toArray
        {} = .ok () s ∧
      s.page.render indentUnit =
        ["  async function f() \x7b", "    let x = 0;", "    if (x) \x7b",
          "    \x7d", "  \x7d else \x7b", "    _print(\"(\", true);", "  \x7d", "  \x7b",
          "    const _select_1 = 1;", "    if (_select_1 === 2) \x7b", "    \x7d", "  \x7d"] ∧
      HasError s.collector.toList ∧ LaidOut (s.page.render indentUnit) := by
  refine (pass_of_outcome? true ?_).imp fun s ⟨hpass, hlines, herrs⟩ =>
    ⟨hpass, hlines, herrs.2 rfl, (body_laidOut _ (by decide +kernel) {} s hpass).2⟩
  decide +kernel

end BasicScript
