import BasicScript.Proofs.BlockReading
import BasicScript.Proofs.Naming
import BasicScript.Proofs.Spelling

/-!
# Reading programs

The emitter reads every program tree (`Body.read`): the lines of a body leave the stack of blocks as
they found it, so that the line which closes a block finds it on top.
-/

namespace BasicScript

open Emit Text Script List

variable {tokens : Array Token} {s s₁ s₂ s' : State} {l : Ledger} {rest written : List Token}
    {depth : Nat} {b : Block}
  {outer : List Block} {x : Stmt} {branches : Branches} {p : Body}

/-! ### Trees -/

/-- A statement is read wherever it stands. -/
def Stmt.Read (tokens : Array Token) (x : Stmt) : Prop :=
  ∀ (s : State) (l : Ledger) (depth : Nat) (e : Token) (rest : List Token),
    Tracks s l → Stands s depth → s.floors = [] → e.IsLineEnd →
      Ahead tokens s.position (x.spelling ++ e :: rest) →
    ∃ s', Passes tokens s s' (x.spelling.length + e.skips)
      (x.rows Ledger.nameOf depth l s.temporaries) 0
      x.selections s.blocks (x.ledger depth l)

/-- Statements that are written as tokens are read in front of others. -/
def Body.ReadFrom (tokens : Array Token) (x : Body) (written rest : List Token) : Prop :=
  ∀ (s : State) (l : Ledger) (depth : Nat), Tracks s l → Stands s depth → s.floors = [] →
    Ahead tokens s.position (written ++ rest) →
    ∃ s', Passes tokens s s' written.length (x.rows Ledger.nameOf depth l s.temporaries) 0
      x.selections s.blocks
      (x.ledger depth l)

/-- Statements are read wherever they stand. -/
def Body.Read (tokens : Array Token) (x : Body) : Prop := ∀ rest, x.ReadFrom tokens x.spelling rest

/-- Further branches are read with the end of their block. -/
def Branches.Read (tokens : Array Token) (x : Branches) : Prop :=
  ∀ (s : State) (l : Ledger) (depth : Nat) (i j : Int) (outer : List Block) (e : Token)
      (rest : List Token),
    Tracks s l → Stands s (depth + 1) → topDepth ≤ depth → s.floors = [] →
    s.blocks = ⟨.condition false, i, j⟩ :: outer → e.IsLineEnd →
    Ahead tokens s.position (x.spelling ++ .word "END" :: .word "IF" :: e :: rest) →
    ∃ s', Passes tokens s s' (x.spelling.length + (2 + e.skips))
      (x.rows Ledger.nameOf depth l s.temporaries ++ [⟨depth, "\x7d", false⟩]) (-1)
      x.selections outer (x.ledger depth l)

/-- Cases are read with the end of their selection. -/
def Cases.Read (tokens : Array Token) (x : Cases) : Prop :=
  ∀ (s : State) (l : Ledger) (depth : Nat) (value : String) (cases : Nat) (i j : Int)
      (outer : List Block) (e : Token) (rest : List Token),
    Tracks s l → s.page.indent = ((depth + 1 : Nat) : Int) + caseShift cases →
    topDepth ≤ depth → s.floors = [] → s.blocks = ⟨.selection value cases false, i, j⟩ :: outer →
    e.IsLineEnd →
    Ahead tokens s.position (x.spelling ++ .word "END" :: .word "SELECT" :: e :: rest) →
    ∃ s', Passes tokens s s' (x.spelling.length + (2 + e.skips))
      (x.rows Ledger.nameOf (depth + 1) value (cases = 0) l s.temporaries ++
        [⟨depth, "\x7d", false⟩])
      (-1 - caseShift cases) x.selections outer (x.ledger (depth + 1) l)

section Behind

variable {count made : Nat} {rows : List Row} {shift : Int} {blocks : List Block}
  (h : Passes tokens s s' count rows shift made blocks l)

include h

theorem Passes.ahead (front : List Token) (hahead : Ahead tokens s.position (front ++ rest))
    (hlength : front.length = count) : Ahead tokens s'.position rest := by
  rw [h.leaves.went.position, ← hlength]
  exact hahead.right

theorem Passes.floors (hfloors : s.floors = []) : s'.floors = [] :=
  h.leaves.went.floors.trans hfloors

theorem Passes.indent {depth : Int} (hindent : s.page.indent = depth) :
    s'.page.indent = depth + shift := by
  rw [h.leaves.went.indent, hindent]

theorem Passes.temporaries : s'.temporaries = s.temporaries + made := h.leaves.went.temporaries

end Behind

/-- A line in a block stands one level further in. -/
theorem stands_of_block (hpos : topDepth ≤ depth)
    (hindent : s.page.indent = (depth : Int) + 1) (hblocks : s.blocks = b :: outer) :
    Stands s (depth + 1) := by
  refine ⟨hindent, ⟨fun htop => ?_, fun htop => ?_⟩, Nat.le_succ_of_le hpos⟩
  · rw [hblocks] at htop
    cases htop.2
  · rw [topDepth] at hpos htop
    omega

/-- Behind the line that opens a block or one of its branches, its body. -/
theorem Passes.body {count made : Nat} {rows : List Row} {shift : Int}
    (h : Passes tokens s s₁ count rows shift made (b :: outer) l) (hpos : topDepth ≤ depth)
    (hindent : s₁.page.indent = (depth : Int) + 1) (hfloors : s.floors = []) {body : Body}
    (hbody : body.Read tokens) (front : List Token) (hlength : front.length = count)
    (hahead : Ahead tokens s.position (front ++ (body.spelling ++ rest))) :
    ∃ s₂, Passes tokens s s₂ (count + body.spelling.length)
        (rows ++ body.rows Ledger.nameOf (depth + 1) l (s.temporaries + made)) shift
        (made + body.selections) (b :: outer) (body.ledger (depth + 1) l) ∧
      s₂.page.indent = (depth : Int) + 1 ∧ s₂.floors = [] ∧ Ahead tokens s₂.position rest := by
  have hahead₁ := h.ahead front hahead hlength
  obtain ⟨s₂, hin⟩ :=
    hbody rest s₁ l (depth + 1) h.leaves.tracks (stands_of_block hpos hindent h.leaves.blocks)
    (h.floors hfloors) hahead₁
  rw [h.temporaries] at hin
  refine ⟨s₂, (h.trans hin).of_eq rfl rfl (Int.add_zero _) rfl h.leaves.blocks, ?_,
    hin.floors (h.floors hfloors), hin.ahead _ hahead₁ rfl⟩
  exact hin.leaves.went.indent_eq hindent

/-! ### One construct -/

theorem done_read : Body.Read tokens .done :=
  fun _ s _ _ h _ _ _ => ⟨s, .refl s, .refl s, rfl, h⟩

theorem next_readFrom (hx : x.Read tokens) {body : Body}
    (hbody : body.ReadFrom tokens written rest) :
    Body.ReadFrom tokens (.next x body) (x.spelling ++ .lineEnd :: written) rest := by
  intro s l depth h hstands hfloors hahead
  rw [append_assoc, cons_append] at hahead
  obtain ⟨s₁, hfirst⟩ := hx s l depth _ _ h hstands hfloors isLineEnd_lineEnd hahead
  have hstands₁ : Stands s₁ depth := hstands.congr (hfirst.leaves.went.indent_eq rfl)
    hfirst.leaves.went.floors hfirst.leaves.blocks
  have hahead₁ : Ahead tokens s₁.position (written ++ rest) :=
    hfirst.ahead (x.spelling ++ [Token.lineEnd]) (by simpa using hahead) (by simp)
  obtain ⟨s₂, hnext⟩ :=
    hbody s₁ _ depth hfirst.leaves.tracks hstands₁ (hfirst.floors hfloors) hahead₁
  have hall := hfirst.trans hnext
  rw [hfirst.temporaries] at hall
  refine ⟨s₂, hall.of_eq ?_ rfl rfl rfl hfirst.leaves.blocks⟩
  simp only [length_append, length_cons, Token.skips_lineEnd]
  omega

/-- The end of the input ends the last line. -/
theorem last_readFrom (hx : x.Read tokens) :
    Body.ReadFrom tokens (.next x .done) x.spelling [.inputEnd] := by
  intro s l depth h hstands hfloors hahead
  obtain ⟨s', hpasses⟩ := hx s l depth _ _ h hstands hfloors (.inr rfl) hahead
  exact ⟨s', hpasses.of_eq rfl (append_nil _).symm rfl rfl rfl⟩

theorem noBranches_read : Branches.Read tokens .done := by
  intro s l depth i j outer e rest h hstands hpos hfloors hblocks he hahead
  obtain ⟨s', hend⟩ := endIf_passes he h hfloors hstands.indent hblocks hahead
  exact ⟨s', hend.of_eq (Nat.zero_add _).symm rfl rfl rfl rfl⟩

theorem noCases_read : Cases.Read tokens .done := by
  intro s l depth value cases i j outer e rest h hindent hpos hfloors hblocks he hahead
  obtain ⟨s', hend⟩ := endSelect_passes he h hfloors hblocks hindent hahead
  refine ⟨s', hend.of_eq (Nat.zero_add _).symm ?_ rfl rfl rfl⟩
  simp only [Cases.rows, decide_eq_true_eq]

section Steps

variable (hplain : ∀ t ∈ tokens, t.Plain)

include hplain

theorem line_read (x : Inline false) : Stmt.Read tokens (.line x) := by
  intro s l depth e rest h hstands hfloors he hahead
  have hlength : x.spelling.length ≤ tokens.size + 1 := Nat.le_succ_of_le hahead.left.length_le
  obtain ⟨s₁, hgives, hleads⟩ := x.read hplain hlength s l depth e rest h hstands (.inl he) hahead
  have hbehind := hleads.went.behind hahead
  obtain ⟨first, back, hspelling, hbegins⟩ := x.exists_spelling
  have hlt : s.position < s₁.position := by
    rw [hleads.went.position, hspelling, length_cons]
    omega
  have hfirst : Ahead tokens s.position (first :: (back ++ e :: rest)) := by
    rw [← cons_append, ← hspelling]
    exact hahead
  have hruns := statement_runs hfirst ⟨hbegins.kind.2.2, hbegins.kind.2.1, hbegins.isColon⟩
    hgives hlt he hbehind
  refine ⟨_, hruns, ?_⟩
  exact (hleads.trans (Reached.moved hleads.tracks e.skips)).leaves.of_eq rfl
    (append_nil _) rfl rfl rfl

variable {body : Body} (hbody : body.Read tokens)

include hbody

theorem condition_read (c : Expr) (hbranches : branches.Read tokens) :
    Stmt.Read tokens (.condition c body branches) := by
  intro s l depth e rest h hstands hfloors he hahead
  simp only [Stmt.spelling, cons_append, append_assoc, nil_append] at hahead
  obtain ⟨s₁, i, j, hif⟩ := if_passes hplain h hstands.indent hahead
  obtain ⟨s₂, hin, hindent₂, hfloors₂, hahead₂⟩ :=
    hif.body hstands.pos (hif.indent hstands.indent) hfloors hbody
    (.word "IF" :: (c.written ++ [.word "THEN", .lineEnd])) (by simp) (by simpa using hahead)
  obtain ⟨s₃, hout⟩ := hbranches s₂ _ depth i j s.blocks e rest hin.leaves.tracks
    (stands_of_block hstands.pos hindent₂ hin.leaves.blocks) hstands.pos hfloors₂
      hin.leaves.blocks he hahead₂
  have hall := hin.trans hout
  rw [hin.temporaries] at hall
  refine ⟨s₃, hall.of_eq ?_ ?_ rfl ?_ rfl⟩
  · simp only [Stmt.spelling, length_cons, length_append, length_nil]
    omega
  · simp [Stmt.rows, braced]
  · simp [Stmt.selections]

theorem whileLoop_read (c : Expr) : Stmt.Read tokens (.whileLoop c body) := by
  intro s l depth e rest h hstands hfloors he hahead
  simp only [Stmt.spelling, cons_append, append_assoc, nil_append] at hahead
  obtain ⟨s₁, i, j, hwhile⟩ := while_passes hplain h hstands.indent hahead
  obtain ⟨s₂, hin, hindent₂, hfloors₂, hahead₂⟩ :=
    hwhile.body hstands.pos (hwhile.indent hstands.indent) hfloors
    hbody (.word "WHILE" :: (c.written ++ [.lineEnd])) (by simp) (by simpa using hahead)
  obtain ⟨s₃, hwend⟩ := wend_passes he hin.leaves.tracks hfloors₂ hindent₂ hin.leaves.blocks hahead₂
  refine ⟨s₃, (hin.trans hwend).of_eq ?_ ?_ rfl ?_ rfl⟩
  · simp only [Stmt.spelling, length_cons, length_append, length_nil]
    omega
  · simp [Stmt.rows, braced]
  · simp [Stmt.selections]

theorem doLoop_read (ends : LoopEnds) : Stmt.Read tokens (.doLoop ends body) := by
  intro s l depth e rest h hstands hfloors he hahead
  simp only [Stmt.spelling, cons_append, append_assoc] at hahead
  obtain ⟨s₁, i, j, hdo⟩ := do_passes hplain h hstands.indent hahead
  obtain ⟨s₂, hin, hindent₂, hfloors₂, hahead₂⟩ :=
    hdo.body hstands.pos (hdo.indent hstands.indent) hfloors hbody
    (.word "DO" :: (ends.frontSpelling ++ [.lineEnd])) (by simp) (by simpa using hahead)
  obtain ⟨s₃, hloop⟩ := loop_passes he hin.leaves.tracks hfloors₂ hindent₂ hplain
    hin.leaves.blocks hahead₂
  refine ⟨s₃, (hin.trans hloop).of_eq ?_ ?_ rfl ?_ rfl⟩
  · simp only [Stmt.spelling, length_cons, length_append]
    omega
  · simp [Stmt.rows, braced]
  · simp [Stmt.selections]

theorem counting_read (name : String) (start stop : Expr) (step : Option Expr)
    (closer : Option { other : String // upper other = upper name }) :
    Stmt.Read tokens (.counting name start stop step body closer) := by
  intro s l depth e rest h hstands hfloors he hahead
  simp only [Stmt.spelling, cons_append, append_assoc] at hahead
  obtain ⟨s₁, i, j, hfor⟩ := for_passes hplain h hstands.indent hahead rfl
  obtain ⟨s₂, hin, hindent₂, hfloors₂, hahead₂⟩ :=
    hfor.body hstands.pos (hfor.indent hstands.indent) hfloors hbody
    (.word "FOR" :: .named name :: .sign "=" ::
      (start.written ++ .word "TO" :: (stop.written ++ (stepSpelling step ++
      [.lineEnd])))) (by simp only [length_cons, length_append, length_nil]; omega)
    (by simpa using hahead)
  let inside := l.useAll (name :: (start.names ++ (stop.names ++ stepNames step)))
  have hcounter : inside.declared.get? (upper name) = some (inside.nameOf name) := by
    obtain ⟨js, hjs⟩ : ∃ js, inside.declared.get? (upper name) = some js :=
      Ledger.exists_get?_useAll mem_cons_self
    rw [Ledger.nameOf, hjs, Option.getD_some]
  obtain ⟨s₃, hnext⟩ := next_passes he hin.leaves.tracks hfloors₂ hindent₂
    ((body.grows .refl).declared hcounter)
    hin.leaves.blocks hahead₂
  refine ⟨s₃, (hin.trans hnext).of_eq ?_ ?_ rfl ?_ rfl⟩
  · simp only [Stmt.spelling, length_cons, length_append]
    omega
  · simp [Stmt.rows, braced]
  · simp [Stmt.selections]

omit hplain in
theorem otherwise_read : Branches.Read tokens (.otherwise body) := by
  intro s l depth i j outer e rest h hstands hpos hfloors hblocks he hahead
  simp only [Branches.spelling, cons_append] at hahead
  obtain ⟨s₁, helse⟩ := else_passes h hfloors hblocks hstands.indent hahead
  obtain ⟨s₂, hin, hindent₂, hfloors₂, hahead₂⟩ := helse.body hpos
    (helse.leaves.went.indent_eq hstands.indent) hfloors hbody [.word "ELSE", .lineEnd] rfl hahead
  obtain ⟨s₃, hend⟩ := endIf_passes he hin.leaves.tracks hfloors₂ hindent₂ hin.leaves.blocks hahead₂
  refine ⟨s₃, (hin.trans hend).of_eq ?_ ?_ rfl ?_ rfl⟩
  · simp only [Branches.spelling, length_cons]
    omega
  · simp [Branches.rows]
  · simp [Branches.selections]

theorem elseIf_read (c : Expr) (hbranches : branches.Read tokens) :
    Branches.Read tokens (.elseIf c body branches) := by
  intro s l depth i j outer e rest h hstands hpos hfloors hblocks he hahead
  simp only [Branches.spelling, cons_append, append_assoc] at hahead
  obtain ⟨s₁, hif⟩ := elseIf_passes h hfloors hplain hblocks hstands.indent hahead
  rw [hblocks] at hif
  obtain ⟨s₂, hin, hindent₂, hfloors₂, hahead₂⟩ := hif.body hpos
    (hif.leaves.went.indent_eq hstands.indent) hfloors hbody
    (.word "ELSEIF" :: (c.written ++ [.word "THEN", .lineEnd])) (by simp) (by simpa using hahead)
  obtain ⟨s₃, hout⟩ := hbranches s₂ _ depth i j outer e rest hin.leaves.tracks
    (stands_of_block hpos hindent₂ hin.leaves.blocks) hpos hfloors₂ hin.leaves.blocks he hahead₂
  have hall := hin.trans hout
  rw [hin.temporaries] at hall
  refine ⟨s₃, hall.of_eq ?_ ?_ rfl ?_ rfl⟩
  · simp only [Branches.spelling, length_cons, length_append]
    omega
  · simp [Branches.rows]
  · simp [Branches.selections]

theorem case_read (first : CaseTest) (more : List CaseTest) {others : Cases}
    (hothers : others.Read tokens) : Cases.Read tokens (.case first more body others) := by
  intro s l depth value cases i j outer e rest h hindent hpos hfloors hblocks he hahead
  simp only [Cases.spelling, cons_append, append_assoc] at hahead
  obtain ⟨s₁, hcase⟩ := case_passes h hfloors hblocks hindent hplain hahead rfl
  have hindent₁ : s₁.page.indent = ((depth + 1 : Nat) : Int) + 1 := by
    rw [hcase.indent hindent]
    omega
  obtain ⟨s₂, hin, hindent₂, hfloors₂, hahead₂⟩ :=
    hcase.body (Nat.le_succ_of_le hpos) hindent₁ hfloors hbody
    (.word "CASE" :: (CaseTest.listSpelling first more ++ [.lineEnd]))
      (by simp) (by simpa using hahead)
  obtain ⟨s₃, hout⟩ := hothers s₂ _ depth value (cases + 1) i j outer e rest
    hin.leaves.tracks hindent₂ hpos
    hfloors₂ hin.leaves.blocks he hahead₂
  have hall := hin.trans hout
  rw [hin.temporaries] at hall
  refine ⟨s₃, hall.of_eq ?_ ?_ ?_ ?_ rfl⟩
  · simp only [Cases.spelling, length_cons, length_append]
    omega
  · simp [Cases.rows]
  · rw [show caseShift (cases + 1) = 1 from rfl]
    omega
  · simp [Cases.selections]

omit hplain in
theorem caseElse_read : Cases.Read tokens (.otherwise body) := by
  intro s l depth value cases i j outer e rest h hindent hpos hfloors hblocks he hahead
  simp only [Cases.spelling, cons_append] at hahead
  obtain ⟨s₁, hcase⟩ := caseElse_passes h hfloors hblocks hindent hahead
  have hindent₁ : s₁.page.indent = ((depth + 1 : Nat) : Int) + 1 := by
    rw [hcase.indent hindent]
    omega
  obtain ⟨s₂, hin, hindent₂, hfloors₂, hahead₂⟩ :=
    hcase.body (Nat.le_succ_of_le hpos) hindent₁ hfloors hbody
    [.word "CASE", .word "ELSE", .lineEnd] rfl hahead
  obtain ⟨s₃, hend⟩ :=
    endSelect_passes he hin.leaves.tracks hfloors₂ hin.leaves.blocks hindent₂ hahead₂
  refine ⟨s₃, (hin.trans hend).of_eq ?_ ?_ ?_ ?_ rfl⟩
  · simp only [Cases.spelling, length_cons]
    omega
  · simp [Cases.rows]
  · rw [show caseShift (cases + 1) = 1 from rfl]
    omega
  · simp [Cases.selections]

end Steps

theorem selection_read (hplain : ∀ t ∈ tokens, t.Plain) (chosen : Expr) {cases : Cases}
    (hcases : cases.Read tokens) : Stmt.Read tokens (.selection chosen cases) := by
  intro s l depth e rest h hstands hfloors he hahead
  simp only [Stmt.spelling, cons_append, append_assoc, nil_append] at hahead
  obtain ⟨s₁, i, j, hselect⟩ := select_passes hplain h hstands.indent hahead
  have hahead₁ :=
    hselect.ahead (.word "SELECT" :: .word "CASE" :: (chosen.written ++ [Token.lineEnd]))
    (by simpa using hahead) (by simp)
  have hindent₁ : s₁.page.indent = ((depth + 1 : Nat) : Int) + caseShift 0 :=
    hselect.indent hstands.indent
  obtain ⟨s₂, hout⟩ :=
    hcases s₁ _ depth _ 0 i j s.blocks e rest hselect.leaves.tracks hindent₁ hstands.pos
    (hselect.floors hfloors) hselect.leaves.blocks he hahead₁
  have hall := hselect.trans hout
  rw [hselect.temporaries] at hall
  refine ⟨s₂, hall.of_eq ?_ ?_ rfl ?_ rfl⟩
  · simp only [Stmt.spelling, length_cons, length_append, length_nil]
    omega
  · simp [Stmt.rows, braced]
  · simp [Stmt.selections]

/-! ### Every tree is read -/

mutual

theorem Stmt.read (hplain : ∀ t ∈ tokens, t.Plain) : (x : Stmt) → x.Read tokens
  | .line x => line_read hplain x
  | .condition c body rest => condition_read hplain (body.read hplain) c (rest.read hplain)
  | .counting name start stop step body closer =>
    counting_read hplain (body.read hplain) name start stop step closer
  | .whileLoop c body => whileLoop_read hplain (body.read hplain) c
  | .doLoop ends body => doLoop_read hplain (body.read hplain) ends
  | .selection e cases => selection_read hplain e (cases.read hplain)

theorem Body.read (hplain : ∀ t ∈ tokens, t.Plain) : (x : Body) → x.Read tokens
  | .done => done_read
  | .next s rest => fun after => next_readFrom (s.read hplain) (rest.read hplain after)

theorem Branches.read (hplain : ∀ t ∈ tokens, t.Plain) : (x : Branches) → x.Read tokens
  | .done => noBranches_read
  | .elseIf c body rest => elseIf_read hplain (body.read hplain) c (rest.read hplain)
  | .otherwise body => otherwise_read (body.read hplain)

theorem Cases.read (hplain : ∀ t ∈ tokens, t.Plain) : (x : Cases) → x.Read tokens
  | .done => noCases_read
  | .case first more body rest => case_read hplain (body.read hplain) first more (rest.read hplain)
  | .otherwise body => caseElse_read (body.read hplain)

end

/-- The tokens of a program.  The end of the input may take the place of the last line end. -/
def Body.SpelledBy (p : Body) (written : List Token) : Prop :=
  written = p.spelling ∨ written = p.spelling.dropLast

theorem Body.spelling_next_ne_nil (x : Stmt) (body : Body) : (Body.next x body).spelling ≠ [] := by
  simp [Body.spelling]

theorem Body.SpelledBy.subset (h : p.SpelledBy written) : written ⊆ p.spelling := by
  rcases h with rfl | rfl
  · exact Subset.refl _
  · exact dropLast_subset _

/-- Statements are read up to the end of the input. -/
theorem Body.SpelledBy.readFrom (hplain : ∀ t ∈ tokens, t.Plain) :
    {x : Body} → {written : List Token} → x.SpelledBy written →
      x.ReadFrom tokens written [.inputEnd]
  | x, _, .inl rfl => x.read hplain [.inputEnd]
  | .done, _, .inr rfl => done_read [.inputEnd]
  | .next x .done, _, .inr rfl => by
    rw [Body.spelling, Body.spelling, dropLast_concat]
    exact last_readFrom (x.read hplain)
  | .next x (.next y body), _, .inr rfl => by
    rw [Body.spelling, dropLast_append_of_ne_nil (cons_ne_nil _ _),
      dropLast_cons_of_ne_nil (spelling_next_ne_nil y body)]
    exact next_readFrom (x.read hplain) (readFrom hplain (.inr rfl))

/-! ### The whole program -/

theorem Token.InTree.quiet {token : Token} (h : token.InTree) :
    token.isKeyword "DATA" = false ∧ headerKind? token = none := by
  cases h with
  | fixed hmem =>
    have hall : ∀ t ∈ treeTokens, t.isKeyword "DATA" = false ∧ headerKind? t = none := by
      decide +kernel
    exact hall token hmem
  | _ => exact ⟨rfl, rfl⟩

/-- Without `DATA` and procedures, a program announces nothing. -/
theorem announcements_eq_nil {tokens : List Token} {front : Option Token}
    (h : ∀ t ∈ tokens, t.isKeyword "DATA" = false ∧ headerKind? t = none) :
    announcements false front tokens = [] := by
  induction tokens generalizing front with
  | nil => rfl
  | cons token tokens ih =>
    obtain ⟨hdata, hheader⟩ := h token (by simp)
    rw [announcements, if_neg Bool.false_ne_true, if_neg (by simp [hdata]), hheader]
    exact ih fun t ht => h t (by simp [ht])

theorem announce_gives (h : ∀ t ∈ written, t.InTree)
    (htokens : tokens.toList.map Token.bare = written ++ [.inputEnd]) :
    Gives tokens s announce () s := by
  have hquiet : ∀ t ∈ tokens.toList, t.isKeyword "DATA" = false ∧ headerKind? t = none := by
    intro t ht
    have hmem : t.bare ∈ written ++ [Token.inputEnd] := htokens ▸ mem_map_of_mem ht
    rcases mem_append.1 hmem with hmem | hmem
    · exact (h _ hmem).quiet
    · have hkind : t.kind = .endOfInput := congrArg Token.kind (mem_singleton.1 hmem)
      simp [Token.isKeyword, headerKind?, hkind]
  have hread : Gives tokens s read tokens s := rfl
  refine hread.bind ?_
  rw [announcements_eq_nil hquiet]
  exact .pure

theorem tracks_start (collector : Collector) : Tracks ({ collector } : State) {} where
  inner := rfl
  base := rfl
  mark := rfl
  indent := rfl
  hoisted := rfl
  found _ := rfl
  free _ _ := rfl
  procedures := rfl
  functions := rfl

theorem stands_start (collector : Collector) : Stands ({ collector } : State) topDepth :=
  ⟨rfl, ⟨fun _ => rfl, fun _ => ⟨rfl, rfl⟩⟩, Nat.le_refl _⟩

/-- The declarations at the top of a program. -/
theorem hoistModule_gives (tokens : Array Token) (h : Tracks s l) (horderly : l.Orderly) :
    ∃ s', Gives tokens s hoistModule () s' ∧ s'.collector = s.collector ∧ s'.scopes = s.scopes ∧
      s'.page.lines.toList = (l.hoisted.map fun name =>
        ⟨topDepth, "let " ++ l.nameOf name ++ " = " ++
          (if isTextName name then "\"\"" else "0") ++ ";"⟩) ++
          s.page.lines.toList := by
  have hlines : l.hoisted.map (fun name => (⟨topDepth, "let " ++ l.nameOf name ++ " = " ++
        (if isTextName name then "\"\"" else "0") ++ ";"⟩ : Line)) =
      s.scopes.root.hoisted.map (Line.mk topDepth) := by
    rw [h.hoisted, map_map]
    refine map_congr_left fun name hname => ?_
    rw [Ledger.nameOf, horderly.hoisted name hname]
    rfl
  have hroot : Gives tokens s scopes s.scopes s := rfl
  by_cases hempty : s.scopes.root.hoisted.isEmpty = true
  · refine ⟨s, hroot.bind ?_, rfl, rfl, ?_⟩
    · simp only [hempty]
      exact .pure
    · rw [hlines, List.isEmpty_iff.1 hempty]
      rfl
  · let root := s.scopes.root
    refine ⟨{ s with page := s.page.insert root.mark root.hoisted root.indent },
      hroot.bind ?_, rfl, rfl, ?_⟩
    · simp only [hempty]
      exact rfl
    · rw [hlines]
      simp only [root, h.mark, h.indent, Page.insert, Sequence.insertAt, Sequence.bound]
      simp

/-- **A program tree is translated.**  Nothing is reported, the lines are those of the tree, and the
variables are those of its ledger. -/
theorem pass_tracks (hplain : ∀ t ∈ tokens, t.Plain)
    (hwritten : p.SpelledBy written)
    (htokens : tokens.toList.map Token.bare = written ++ [.inputEnd]) (collector : Collector) :
    ∃ s, Emit.pass tokens collector = .ok () s ∧ s.collector = collector ∧
      s.page.lines.toList = p.lines Ledger.nameOf ∧
      ∀ n, (s.scopes.find? n).map (·.name) = p.finalLedger.declared.get? (upper n) := by
  have hannounce : Gives tokens ({ collector } : State) announce () { collector } :=
    announce_gives (fun t ht => p.inTree t (hwritten.subset ht)) htokens
  have hahead : Ahead tokens ({ collector } : State).position (written ++ [Token.inputEnd]) :=
    ⟨0, rfl, htokens ▸ prefix_rfl⟩
  have hsize : tokens.size = written.length + 1 := by
    have hlength := congrArg List.length htokens
    simpa using hlength
  obtain ⟨s₁, hpasses⟩ := hwritten.readFrom hplain { collector } {} topDepth
    (tracks_start collector)
    (stands_start collector) rfl hahead
  have hend : Ahead tokens s₁.position [.inputEnd] := hpasses.ahead _ hahead rfl
  obtain ⟨t, ht, hcurrent⟩ := current_gives hend
  have hkind : t.kind = .endOfInput := congrArg Token.kind ht
  have hdone : Loops tokens statementTurn 1 () s₁ () s₁ := by
    refine .done (hcurrent.bind ?_)
    rw [if_pos hkind]
    exact .pure
  have hposition : s₁.position = 0 + (written.length : Int) := hpasses.leaves.went.position
  have hstatements : Gives tokens { collector } statements () s₁ := by
    rw [statements]
    refine (hpasses.runs.loops hdone).gives ?_
    rw [hposition, hsize]
    show 1 + (0 + (written.length : Int) - 0).toNat ≤ written.length + 1 + 1
    omega
  have habandon : Gives tokens s₁ abandonAll () s₁ := by
    refine .get_bind ?_
    rw [show s₁.blocks = [] from hpasses.leaves.blocks]
    exact .pure
  have htracks : Tracks s₁ p.finalLedger := hpasses.leaves.tracks
  obtain ⟨s₂, hhoist, hcollector, hscopes, hlines⟩ :=
    hoistModule_gives tokens htracks p.orderly_finalLedger
  refine ⟨s₂, hannounce.bind (hstatements.bind (habandon.bind hhoist)),
    hcollector.trans hpasses.leaves.went.collector, ?_, hscopes ▸ htracks.found⟩
  rw [hlines, hpasses.leaves.went.lines]
  rfl

end BasicScript
