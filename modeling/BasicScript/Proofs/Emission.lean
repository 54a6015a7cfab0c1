import BasicScript.Proofs.Layout
import BasicScript.Proofs.Target
import Mathlib.Data.List.Induction

/-!
# The order of emission

The pass appends lines one after another, and the log keeps them in that order.  Declarations at the
top of a procedure are put in only when the procedure ends, at a place of the page that was marked
when it began, and those of the module at the very end.  By then the tops of other procedures have
moved the lines; the marks are right all the same (`Emitted`).  So the lines of a body are those of
the log, with the declarations of each top put in where it was when it was opened (`weave`).

* `body_emitted_in_order`: the body of a program is the log with the declarations of the module at
  its start, and those of each procedure, in the order in which they were made, right below the
  first line of the procedure.
-/

namespace BasicScript

open Script Emit Text Lexer List

variable {scope : Scope} {s s' : State} {tape : Tape} {level : Level} {es : List Event}

/-! ### Declarations between lines -/

/-- The lines of the declarations at a top. -/
def Top.lines (top : Top) : List Line := top.hoisted.map (Line.mk top.indent.toNat)

/-- The declarations that belong behind as many lines. -/
def linesAt (tops : List Top) (place : Nat) : List Line :=
  (tops.filter (·.start = place)).flatMap Top.lines

/-- Lines, with declarations in front of each.  In front of all there are as many lines as `place`
says. -/
def weaveFrom (tops : List Top) : Nat → List Line → List Line
  | _, [] => []
  | place, line :: rest => linesAt tops place ++ line :: weaveFrom tops (place + 1) rest

/-- Lines with the declarations of tops put in, each behind as many lines as its top says. -/
def weave (tops : List Top) (log : List Line) : List Line :=
  weaveFrom tops 0 log ++ linesAt tops log.length

section Weave

variable {tops : List Top} {top : Top} {place : Nat} {log front back : List Line}

@[simp] theorem Top.length_lines (top : Top) : top.lines.length = top.hoisted.length := by
  simp [Top.lines]

theorem linesAt_eq_nil (h : ∀ top ∈ tops, top.start ≠ place) : linesAt tops place = [] := by
  have hnone : tops.filter (·.start = place) = [] := by simpa using h
  rw [linesAt, hnone, flatMap_nil]

theorem linesAt_concat (tops : List Top) (top : Top) (place : Nat) :
    linesAt (tops ++ [top]) place = linesAt tops place ++ if top.start =
      place then top.lines else [] := by
  by_cases h : top.start = place <;> simp [linesAt, h]

theorem weaveFrom_append (tops : List Top) (place : Nat) (front back : List Line) :
    weaveFrom tops place (front ++ back) =
      weaveFrom tops place front ++ weaveFrom tops (place + front.length) back := by
  induction front generalizing place with
  | nil => rfl
  | cons line front ih => simp [weaveFrom, ih, Nat.add_assoc, Nat.add_comm 1]

/-- Behind all tops no declaration is put in. -/
theorem weaveFrom_of_lt (h : ∀ top ∈ tops, top.start < place) : weaveFrom tops place log = log := by
  induction log generalizing place with
  | nil => rfl
  | cons line rest ih =>
    rw [weaveFrom, linesAt_eq_nil fun top htop => Nat.ne_of_lt (h top htop),
      ih fun top htop => Nat.lt_succ_of_lt (h top htop), nil_append]

/-- In front of a top its declarations are not put in. -/
theorem weaveFrom_concat (h : place + log.length ≤ top.start) :
    weaveFrom (tops ++ [top]) place log = weaveFrom tops place log := by
  induction log generalizing place with
  | nil => rfl
  | cons line rest ih =>
    rw [length_cons] at h
    rw [weaveFrom, weaveFrom, linesAt_concat, if_neg (by omega), append_nil, ih (by omega)]

/-- More lines behind all tops are woven as they are. -/
theorem weave_append (h : ∀ top ∈ tops, top.start ≤ front.length) :
    weave tops (front ++ back) = weave tops front ++ back := by
  cases back with
  | nil => simp
  | cons line rest =>
    have hlater : linesAt tops (front ++ line :: rest).length = [] := by
      refine linesAt_eq_nil fun top htop => ?_
      have := h top htop
      rw [length_append, length_cons]
      omega
    rw [weave, weave, hlater, weaveFrom_append, weaveFrom, Nat.zero_add,
      weaveFrom_of_lt fun top htop => Nat.lt_succ_of_le (h top htop)]
    simp

/-- The declarations of one more top, behind all lines. -/
theorem weave_concat (h : top.start = front.length) :
    weave (tops ++ [top]) front = weave tops front ++ top.lines := by
  rw [weave, weave, weaveFrom_concat (by omega), linesAt_concat, if_pos h, append_assoc]

/-- **One more top**, behind the others: its declarations are put in between the lines in front of
it and those behind it, and the others stay where they are. -/
theorem weave_concat_append (back : List Line) (hbelow : ∀ other ∈ tops, other.start < top.start)
    (hfront : top.start = front.length) : weave tops (front ++ back) = weave tops front ++ back ∧
      weave (tops ++ [top]) (front ++ back) = weave tops front ++ top.lines ++ back := by
  have hle : ∀ other ∈ tops, other.start ≤ front.length := fun other hother =>
    hfront ▸ Nat.le_of_lt (hbelow other hother)
  refine ⟨weave_append hle, ?_⟩
  rw [weave_append, weave_concat hfront]
  simpa [or_imp, forall_and, hfront] using hle

/-- A top at the very start. -/
theorem weave_cons (hstart : top.start = 0) (hbehind : ∀ other ∈ tops, 0 < other.start) :
    weave (top :: tops) log = top.lines ++ weave tops log := by
  have hzero : linesAt (top :: tops) 0 = top.lines := by
    have hnone : linesAt tops 0 = [] :=
      linesAt_eq_nil fun other hother => Nat.ne_of_gt (hbehind other hother)
    rw [linesAt] at hnone
    simp [linesAt, hstart, hnone]
  have hlater (place : Nat) : linesAt (top :: tops) (place + 1) = linesAt tops (place + 1) := by
    simp [linesAt, hstart]
  have hweave (place : Nat) (log : List Line) : weaveFrom (top :: tops) (place + 1) log =
      weaveFrom tops (place + 1) log := by
    induction log generalizing place with
    | nil => rfl
    | cons line rest ih => rw [weaveFrom, weaveFrom, hlater, ih]
  cases log with
  | nil =>
    simp [weave, weaveFrom, hzero, linesAt_eq_nil fun other hother =>
      Nat.ne_of_gt (hbehind other hother)]
  | cons line rest =>
    simp [weave, weaveFrom, hzero, hweave, hlater,
      linesAt_eq_nil fun other hother => Nat.ne_of_gt (hbehind other hother)]

/-- How many declarations tops have. -/
def hoistedCount (tops : List Top) : Nat := (tops.flatMap (·.hoisted)).length

/-- Every line and every declaration is woven once. -/
theorem length_weave (hrising : tops.Pairwise (·.start < ·.start))
    (hle : ∀ top ∈ tops, top.start ≤ log.length) :
    (weave tops log).length = log.length + hoistedCount tops := by
  induction tops using List.reverseRecOn generalizing log with
  | nil => simp [weave, weaveFrom_of_lt, linesAt, hoistedCount]
  | append_singleton tops top ih =>
    obtain ⟨hrest, -, hbelow⟩ := pairwise_append.1 hrising
    have hbelow : ∀ other ∈ tops, other.start < top.start :=
      fun other hother => hbelow other hother top (by simp)
    have htop := hle top (by simp)
    have hfront : (log.take top.start).length = top.start := length_take_of_le htop
    have hwoven := weave_concat_append (log.drop top.start) hbelow hfront.symm
    rw [take_append_drop] at hwoven
    have hlength := ih hrest fun other hother => hfront.symm ▸ Nat.le_of_lt (hbelow other hother)
    rw [hwoven.2, length_append, length_append, hlength, hfront, Top.length_lines, length_drop]
    simp only [hoistedCount, flatMap_append, flatMap_singleton, length_append]
    omega

theorem exists_weave (front : List Line) (line : Line) (back : List Line) :
    ∃ rest, weave tops (front ++ line :: back) = weave tops front ++ line :: rest := by
  refine ⟨weaveFrom tops (front.length + 1) back ++ linesAt tops (front ++ line :: back).length, ?_⟩
  rw [weave, weaveFrom_append, weaveFrom, Nat.zero_add, weave]
  simp only [append_assoc, cons_append]

end Weave

/-! ### Pages and scopes -/

/-- Lines are appended to a page. -/
def Script.Page.Appends (page page' : Page) : Prop :=
  ∃ rows, page'.lines.toList = page.lines.toList ++ rows ∧
    page'.log.toList = page.log.toList ++ rows

namespace Script.Page.Appends

variable {page page₁ page' : Page}

theorem refl (page : Page) : page.Appends page := ⟨[], by simp⟩

theorem trans (h : page.Appends page₁) (h' : page₁.Appends page') : page.Appends page' := by
  obtain ⟨rows, hlines, hlog⟩ := h
  obtain ⟨rows', hlines', hlog'⟩ := h'
  exact ⟨rows ++ rows', by rw [hlines', hlines, append_assoc], by rw [hlog', hlog, append_assoc]⟩

theorem line (h : page.Appends page') (text : String) : page.Appends (page'.line text) :=
  h.trans ⟨[_], Array.toList_push .., Array.toList_push ..⟩

theorem indentBy (h : page.Appends page') (levels : Int) : page.Appends (page'.indentBy levels) := h

theorem dedent (h : page.Appends page') : page.Appends page'.dedent := by
  unfold Page.dedent
  split <;> exact h

end Script.Page.Appends

/-- Where the declarations of a scope belong: its name, how many lines there are in front of it, and
its depth. -/
structure Spot where
  name : Option String
  start : Nat
  indent : Int

/-- Where the declarations at a top belong. -/
def Top.spot (top : Top) : Spot := ⟨top.name, top.start, top.indent⟩

/-- Where the declarations of a scope belong, on the page and in the log. -/
def Scope.seat (scope : Scope) : Int × Spot := (scope.mark, scope.top.spot)

/-- From some scopes to others whose declarations belong where they did. -/
structure Scopes.Stays (sc sc' : Scopes) : Prop where
  seats : (sc'.root :: sc'.inner).map Scope.seat = (sc.root :: sc.inner).map Scope.seat
  tops : sc'.tops = sc.tops

namespace Scopes.Stays

variable {sc sc₁ sc' : Scopes}

theorem refl (sc : Scopes) : sc.Stays sc := ⟨rfl, rfl⟩

theorem of_renames (h : sc.Renames sc') : sc.Stays sc' := ⟨h.map _ fun _ => rfl, h.tops⟩

theorem write (h : sc.Stays sc') (d : Declaration) : sc.Stays (sc'.write d) := by
  refine ⟨?_, (tops_mapCurrent _).trans h.tops⟩
  rw [← h.seats]
  exact map_mapCurrent fun _ => rfl

theorem root (h : sc.Stays sc') : sc'.root.seat = sc.root.seat := (List.cons.inj h.seats).1

theorem inner (h : sc.Stays sc') : sc'.inner.map Scope.seat = sc.inner.map Scope.seat :=
  (List.cons.inj h.seats).2

end Scopes.Stays

/-! ### The invariant -/

/-- The first line of a procedure stands right above a spot. -/
structure Heads (procedures : Table Procedure) (log : List Line) (header : Header) (spot : Spot) :
    Prop where
  name : spot.name.map upper = some header.key
  indent : spot.indent = 2
  line : ∃ place p, spot.start = place + 1 ∧ procedures.get? header.key = some p ∧
    log[place]? = some ⟨1, headerLine p.jsName (commas header.parameters)⟩

section Heads

variable {procedures procedures' : Table Procedure} {log rows : List Line}
    {header : Header} {spot : Spot}

theorem Heads.mono (h : Heads procedures log header spot)
    (hkept : ∀ key p, procedures.get? key = some p → procedures'.get? key = some p) :
    Heads procedures' (log ++ rows) header spot := by
  obtain ⟨place, p, hstart, hp, hline⟩ := h.line
  obtain ⟨hplace, -⟩ := List.getElem?_eq_some_iff.1 hline
  exact ⟨h.name, h.indent, place, p, hstart, hkept _ _ hp, by rwa [getElem?_append_left hplace]⟩

/-- The first line of a procedure stands in front of its spot. -/
theorem Heads.of_append (h : Heads procedures (log ++ rows) header spot)
    (hspot : spot.start ≤ log.length) : Heads procedures log header spot := by
  obtain ⟨place, p, hstart, hp, hline⟩ := h.line
  exact ⟨h.name, h.indent, place, p, hstart, hp, by rwa [getElem?_append_left (by omega)] at hline⟩

/-- A spot with a first line above it belongs behind that and in front of the next line. -/
theorem heads_bounds {headers : List Header} {spots : List Spot}
    (h : Forall₂ (Heads procedures log) headers spots) :
    ∀ spot ∈ spots, 0 < spot.start ∧ spot.start ≤ log.length := by
  induction h with
  | nil => simp
  | cons hheads _ ih =>
    obtain ⟨place, p, hstart, -, hline⟩ := hheads.line
    obtain ⟨hplace, -⟩ := List.getElem?_eq_some_iff.1 hline
    exact forall_mem_cons.2 ⟨by omega, ih⟩

theorem heads_lines {headers : List Header} {spots : List Spot}
    (h : Forall₂ (Heads procedures log) headers spots) : ∀ header ∈ headers,
      ∃ p, procedures.get? header.key = some p ∧
        ⟨1, headerLine p.jsName (commas header.parameters)⟩ ∈ log := by
  induction h with
  | nil => simp
  | cons hheads _ ih =>
    obtain ⟨place, p, -, hp, hline⟩ := hheads.line
    exact forall_mem_cons.2 ⟨⟨p, hp, mem_of_getElem? hline⟩, ih⟩

end Heads

/-- The lines of the page are those of the log, with the declarations of the procedures that are
over.  The first lines of procedures and the marks of open scopes belong to them. -/
structure Emitted (procedures : Table Procedure) (headers : List Header) (page : Page)
    (scopes : Scopes) : Prop where
  lines : page.lines.toList = weave scopes.tops page.log.toList
  headed : Forall₂ (Heads procedures page.log.toList) headers.reverse
    (scopes.tops.map Top.spot ++ scopes.inner.map (·.seat.2))
  rising : (scopes.tops.map Top.spot ++ scopes.inner.map (·.seat.2)).Pairwise (·.start < ·.start)
  marks : ∀ seat ∈ scopes.inner.map Scope.seat, seat.1 = seat.2.start + hoistedCount scopes.tops
  root : scopes.root.seat = (0, ⟨none, 0, 1⟩)

namespace Emitted

variable {procedures procedures' : Table Procedure} {headers : List Header} {page page' : Page}
    {scopes scopes' : Scopes}

theorem start : Emitted [] [] { indent := 1 } (.start 0 1) :=
  ⟨rfl, .nil, .nil, by simp [Scopes.start], rfl⟩

section

variable (h : Emitted procedures headers page scopes)

include h

theorem tops_bounds :
    ∀ top ∈ scopes.tops, 0 < top.start ∧ top.start ≤ page.log.toList.length := fun top htop =>
  heads_bounds h.headed top.spot (mem_append_left _ (mem_map_of_mem htop))

theorem tops_rising : scopes.tops.Pairwise (·.start < ·.start) := by
  have hspots := (pairwise_append.1 h.rising).1
  rwa [pairwise_map] at hspots

theorem grow (hpage : page.Appends page') (hscopes : scopes.Stays scopes')
    (hkept : ∀ key p, procedures.get? key = some p → procedures'.get? key = some p) :
    Emitted procedures' headers page' scopes' := by
  obtain ⟨rows, hlines, hlog⟩ := hpage
  have hspots := congrArg (List.map Prod.snd) hscopes.inner
  rw [map_map, map_map] at hspots
  constructor
  · rw [hlines, h.lines, hlog, hscopes.tops, weave_append fun top htop =>
      (h.tops_bounds top htop).2]
  · rw [hscopes.tops, hlog]
    exact hspots ▸ h.headed.imp fun _ _ hheads => hheads.mono hkept
  · rw [hscopes.tops]
    exact hspots ▸ h.rising
  · rw [hscopes.tops, hscopes.inner]
    exact h.marks
  · exact hscopes.root.trans h.root

theorem adds (hpage : page.Appends page') (hscopes : scopes.Stays scopes') :
    Emitted procedures headers page' scopes' :=
  h.grow hpage hscopes fun _ _ hp => hp

theorem length_lines :
    page.lines.toList.length = page.log.toList.length + hoistedCount scopes.tops := by
  rw [h.lines]
  exact length_weave h.tops_rising fun top htop => (h.tops_bounds top htop).2

/-- A procedure begins with its first line, and its scope is marked below it. -/
theorem begins {kind : ScopeKind} {name jsName : String} {parameters : List String}
    {base : Nat} {p : Procedure} (hinner : scopes.inner = []) (hindent : page.indent = 1)
    (hheader : OpensBrace (headerLine jsName (commas parameters)))
    (hp : procedures.get? (upper name) = some p) (hname : p.jsName = jsName) :
    let page' := (page.line (headerLine jsName (commas parameters))).indentBy 1
    Emitted procedures (⟨upper name, parameters⟩ :: headers) page'
      ((scopes.push kind (some name) page'.mark page'.indent).mapCurrent
        ({ · with base, start := page'.log.size })) := by
  intro page'
  have hpage : page.Appends page' := ((Page.Appends.refl page).line _).indentBy 1
  have hadds := h.adds hpage (.refl scopes)
  have hlog : page'.log.toList = page.log.toList ++
      [⟨1, headerLine jsName (commas parameters)⟩] := by
    simp [page', Page.line, Page.indentBy, hindent, hheader.ne_empty]
  have hmark : page'.mark = page.log.size + 1 + hoistedCount scopes.tops := by
    have hlength := hadds.length_lines
    rw [hlog] at hlength
    simpa [Page.mark] using hlength
  have hstart : page'.log.size = page.log.size + 1 := by simpa using congrArg List.length hlog
  have hbelow := fun top htop => (h.tops_bounds top htop).2
  -- no other procedure is open, so that the new scope is the only inner one
  obtain ⟨hlines, hheaded, hrising, -, hroot⟩ := hadds
  simp only [hinner, map_nil, append_nil, hlog] at hlines hheaded hrising
  have hheads : Heads procedures page'.log.toList ⟨upper name, parameters⟩
      ⟨some name, page'.log.size, page'.indent⟩ := by
    refine ⟨rfl, ?_, page.log.size, p, hstart, hp, ?_⟩
    · simp [page', Page.indentBy, Page.line, hindent]
    · simp [hlog, hname]
  simp only [Scopes.push, Scopes.mapCurrent, hinner]
  constructor
  · rwa [hlog]
  · rw [reverse_cons]
    exact rel_append (hlog ▸ hheaded) (.cons hheads .nil)
  · refine pairwise_append.2 ⟨hrising, pairwise_singleton .., fun spot hspot last hlast => ?_⟩
    obtain ⟨top, htop, rfl⟩ := mem_map.1 hspot
    obtain rfl := mem_singleton.1 hlast
    have := hbelow top htop
    simp only [Array.length_toList] at this
    show top.start < page'.log.size
    omega
  · simp only [map_cons, map_nil, mem_singleton, forall_eq]
    show (page'.mark : Int) = page'.log.size + hoistedCount scopes.tops
    omega
  · exact hroot

/-- A procedure ends: its declarations are put at its top, and its scope is closed. -/
theorem leave (hinner : scopes.inner = [scope]) :
    Emitted procedures headers (scope.hoistOn page) { scopes with
        inner := []
        closed := scopes.closed ++ [scope.declared]
        tops := scopes.tops ++ [scope.top] } := by
  have hlast : scope.top.spot ∈ scopes.tops.map Top.spot ++ scopes.inner.map (·.seat.2) :=
    mem_append_right _ (by simp [hinner, Scope.seat])
  have hbelow : ∀ top ∈ scopes.tops, top.start < scope.start := fun top htop =>
    (pairwise_append.1 h.rising).2.2 top.spot (mem_map_of_mem htop) scope.top.spot
      (by simp [hinner, Scope.seat])
  -- The lines appended before the procedure began and its first line, and those of its body.
  have hfront : (page.log.toList.take scope.start).length = scope.start :=
    length_take_of_le (heads_bounds h.headed _ hlast).2
  have hwoven : _ = _ ∧ weave (scopes.tops ++ [scope.top]) _ = _ :=
    weave_concat_append (page.log.toList.drop scope.start) hbelow hfront.symm
  rw [take_append_drop] at hwoven
  have hmark : scope.mark = (weave scopes.tops (page.log.toList.take scope.start)).length := by
    rw [length_weave h.tops_rising fun top htop => hfront.symm ▸
      Nat.le_of_lt (hbelow top htop), hfront]
    exact h.marks scope.seat (by simp [hinner])
  have hspots : (scopes.tops ++ [scope.top]).map Top.spot ++ ([] : List Scope).map (·.seat.2) =
      scopes.tops.map Top.spot ++ scopes.inner.map (·.seat.2) := by
    simp [hinner, Scope.seat]
  constructor
  · rw [Scope.hoistOn_log, Scope.hoistOn_append _ _ (h.lines.trans hwoven.1) hmark, hwoven.2]
    rfl
  · rw [Scope.hoistOn_log, hspots]
    exact h.headed
  · rw [hspots]
    exact h.rising
  · simp
  · exact h.root

end

/-- The declarations of the module are put at its top. -/
theorem hoistModule (h : Emitted procedures headers s.page s.scopes) :
    s.hoisted.page.lines.toList = weave (s.scopes.root.top :: s.scopes.tops) s.page.log.toList := by
  have hmark : s.scopes.root.mark = ([] : List Line).length := congrArg Prod.fst h.root
  have hstart : s.scopes.root.top.start = 0 := congrArg (·.2.start) h.root
  rw [weave_cons hstart fun top htop => (h.tops_bounds top htop).1, ← h.lines, State.hoisted_page,
    Scope.hoistOn_append [] s.page.lines.toList rfl hmark]
  rfl

end Emitted

/-! ### Events -/

/-- The scope of a procedure is closed: lines may be appended, its declarations are put at its top,
and lines may be appended again. -/
def State.Closes (s s' : State) : Prop :=
  ∃ scope page, s.scopes.inner = [scope] ∧ s.page.Appends page ∧
    (scope.hoistOn page).Appends s'.page ∧ s'.scopes = { s.scopes with
      inner := [], closed := s.scopes.closed ++ [scope.declared],
      tops := s.scopes.tops ++ [scope.top] }

/-- Events that change the scopes and close none. -/
def Event.changesScopes : Event → Bool
  | names _ | introduces _ _ _ | defines _ | begins _ _ _ _ _ | lends _ | regains _ => true
  | _ => false

section Events

variable {e : Event}

theorem State.caseLine_appends (s : State) (cases : Nat) (test : Option String) :
    s.page.Appends (s.caseLine cases test).page := by
  cases cases with
  | zero =>
    rw [State.caseLine_zero]
    exact ((Page.Appends.refl _).line _).indentBy 1
  | succ cases =>
    rw [State.caseLine_succ]
    exact ((Page.Appends.refl _).dedent.line _).indentBy 1

theorem State.leaveProcedure_closes {page : Page} (hinner : s.scopes.inner = [scope])
    (hpage : s.page.Appends page) : s.Closes { s with page }.leaveProcedure := by
  rw [State.leaveProcedure_eq (s := { s with page }) hinner]
  exact ⟨scope, page, hinner, hpage, (Page.Appends.refl _).dedent.line _, rfl⟩

/-- The end of a block appends lines, or closes the scope of a procedure. -/
theorem State.finish_emits {form : BlockForm}
    (hinner : (∃ kind, form.kind = .procedure kind) → ∃ scope, s.scopes.inner = [scope]) :
    s.page.Appends (s.finish form).page ∧ (s.finish form).scopes = s.scopes ∨
      s.Closes (s.finish form) := by
  have hclose := fun text => (Page.Appends.refl s.page).dedent.line text
  cases form with
  | sub =>
    obtain ⟨scope, hscope⟩ := hinner ⟨_, rfl⟩
    exact .inr (leaveProcedure_closes hscope (.refl _))
  | function result =>
    obtain ⟨scope, hscope⟩ := hinner ⟨_, rfl⟩
    exact .inr (leaveProcedure_closes hscope ((Page.Appends.refl _).line _))
  | selection value cases hasElse =>
    simp only [State.finish]
    split
    · exact .inl ⟨(hclose _).dedent.line _, rfl⟩
    · exact .inl ⟨hclose _, rfl⟩
  | looping testsBehind => cases testsBehind <;> exact .inl ⟨hclose _, rfl⟩
  | condition | counting | whileLoop => exact .inl ⟨hclose _, rfl⟩

/-- **What an event does to the page**, if it does not change the scopes otherwise: it appends
lines, or closes the scope of a procedure. -/
theorem Event.emission (hs : Sound tape s) (hfit : e.Fits tape s) (h : e.changesScopes = false) :
    s.page.Appends (e.apply s).page ∧ (e.apply s).scopes = s.scopes ∨ s.Closes (e.apply s) := by
  have hopen := fun text => ((Page.Appends.refl s.page).line text).indentBy 1
  have hturn := fun text => ((Page.Appends.refl s.page).dedent.line text).indentBy 1
  cases e with
  | names | introduces | defines | begins | lends | regains => cases h
  | records r =>
    obtain ⟨caught, recorded, line, ds, he⟩ := s.refused_eq r
    rw [Event.apply, he]
    exact .inl ⟨.refl _, rfl⟩
  | enrols entry => cases entry <;> exact .inl ⟨.refl _, rfl⟩
  | emits text => exact .inl ⟨(Page.Appends.refl _).line text, rfl⟩
  | exits kind => exact .inl ⟨(Page.Appends.refl _).line _, rfl⟩
  | opens form text token => exact .inl ⟨hopen text, rfl⟩
  | selects value selector token => exact .inl ⟨(hopen _).line _, rfl⟩
  | tests test =>
    obtain ⟨-, value, cases, hasElse, ⟨-, htop⟩, -⟩ := hfit
    have hcase := s.caseLine_appends cases test
    obtain ⟨page, hpage⟩ := s.caseLine_eq cases test
    obtain ⟨blocks, hreform⟩ :=
      State.reform_eq { s with page } (.selection value (cases + 1) (hasElse || test.isNone))
    simp only [Event.apply, htop]
    rw [hpage] at hcase ⊢
    rw [hreform]
    exact .inl ⟨hcase, rfl⟩
  | elseIfs condition => exact .inl ⟨hturn _, rfl⟩
  | elses =>
    obtain ⟨blocks, hreform⟩ := s.reform_eq (.condition true)
    rw [Event.apply, hreform]
    exact .inl ⟨hturn _, rfl⟩
  | ends test =>
    obtain ⟨block, hblock, -⟩ := hfit
    obtain ⟨rest, hb⟩ := head?_eq_some_iff.1 hblock
    simp only [Event.apply, hb]
    cases test with
    | none =>
      exact State.finish_emits (s := s.without block rest true) fun hkind =>
        hkind.elim fun _ hkind => (hs.scope_of_procedure hb hkind).2
    | some test => exact .inl ⟨(Page.Appends.refl _).dedent.line _, rfl⟩
  | abandons =>
    obtain ⟨block, rest, hb⟩ := exists_cons_of_ne_nil hfit
    simp only [Event.apply, hb]
    exact State.finish_emits (s := (s.without block rest false).reported _) fun hkind =>
      hkind.elim fun _ hkind => (hs.scope_of_procedure hb hkind).2
  | enters condition => exact .inl ⟨hopen _, rfl⟩
  | turns => exact .inl ⟨hturn _, rfl⟩
  | leaves => exact .inl ⟨(Page.Appends.refl _).dedent.line _, rfl⟩
  | advances | breaks | reports | counts | passes => exact .inl ⟨.refl _, rfl⟩

theorem Event.headers_of_changesScopes (s : State) (h : e.changesScopes = false) :
    (e.apply s).headers = s.headers := by
  refine (e.owns s).headers.resolve_left ?_
  rintro ⟨kind, name, jsName, parameters, token, rfl⟩
  cases h

/-- A declaration is appended, or waits for the top of its scope. -/
theorem State.written_appends (s : State) (d : Declaration) :
    s.page.Appends (s.written d).page := by
  unfold State.written
  dsimp only
  split
  · exact .refl _
  · exact (Page.Appends.refl _).line d.text

end Events

/-- What was emitted in a state stands in order. -/
abbrev State.Emitted (s : State) : Prop :=
  BasicScript.Emitted s.procedures s.headers s.page s.scopes

namespace Emitted

variable {e : Event}

theorem written (h : s.Emitted) (d : Declaration) : (s.written d).Emitted := by
  have hpage := s.written_appends d
  have hscopes : s.scopes.Stays (s.written d).scopes := by
    rw [State.scopes_written]
    exact (Scopes.Stays.refl _).write d
  obtain ⟨page, scopes, he⟩ := s.written_eq d
  rw [he] at hscopes hpage ⊢
  exact h.adds hpage hscopes

theorem renames {scopes : Scopes} (h : s.Emitted) (hscopes : s.scopes.Renames scopes) :
    { s with scopes }.Emitted :=
  h.adds (.refl _) (.of_renames hscopes)

theorem closes (h : Emitted procedures headers s.page s.scopes) (hcloses : s.Closes s') :
    Emitted procedures headers s'.page s'.scopes := by
  obtain ⟨scope, page, hinner, hfront, hback, hscopes⟩ := hcloses
  rw [hscopes]
  exact ((h.adds hfront (.refl _)).leave hinner).adds hback (.refl _)

/-- **Every event** keeps the order. -/
theorem apply (hs : Sound tape s) (ht : s.Tidy) (h : s.Emitted) (hfit : e.Fits tape s) :
    (e.apply s).Emitted := by
  have hkept := Event.keeps_procedures hfit
  cases hchanges : e.changesScopes with
  | false =>
    have hheaders := Event.headers_of_changesScopes s hchanges
    have hgrown : BasicScript.Emitted (e.apply s).procedures (e.apply s).headers s.page s.scopes :=
      hheaders ▸ h.grow (.refl _) (.refl _) hkept
    rcases Event.emission hs hfit hchanges with ⟨hpage, hscopes⟩ | hcloses
    · exact hgrown.adds hpage (hscopes ▸ .refl _)
    · exact hgrown.closes hcloses
  | true =>
    cases e with
    | names naming => exact h.renames (.naming naming)
    | introduces name v d => exact (h.renames (.declare name v)).written d
    | defines d => exact h.written d
    | begins kind name jsName parameters token =>
      obtain ⟨hj, hp, -, hblocks, hfloors, -, -, p, hget, hname⟩ := hfit
      obtain ⟨opened, hdrawn, howed⟩ := ht
      obtain rfl : opened = [] := by simpa [State.owed, hblocks, hfloors] using howed
      have hinner : s.scopes.inner = [] := by simpa [hblocks, expectedScopes] using hs.framed.inner
      exact h.begins hinner hdrawn.indent (opensBrace_header hj hp) hget hname
    | lends list => exact h.renames (.lends list)
    | regains before => exact h.renames (.regains before)
    | _ => cases hchanges

end Emitted

/-- **A run** keeps the order. -/
theorem Run.emitted (h : Run tape level s es s')
    (hs : Sound tape s) (ht : s.Tidy) (hemitted : s.Emitted) : s'.Emitted :=
  (h.invariant_of_sound (I := fun s => s.Tidy ∧ s.Emitted)
    (fun hs ⟨ht, he⟩ hfit => ⟨ht.apply hs hfit, he.apply hs ht hfit⟩) hs ⟨ht, hemitted⟩).2

/-! ### The order of declarations -/

/-- The texts of the declarations for the top, in the order in which they were made. -/
def topTexts (ds : List Declaration) : List String := (ds.filter (·.atTop)).map (·.text)

/-- What is put at the top of each scope are its declarations for the top, in order. -/
structure Scopes.Hoists (sc : Scopes) : Prop where
  opened : ∀ scope ∈ sc.root :: sc.inner, scope.hoisted = topTexts scope.declared
  closed : sc.tops.map Top.hoisted = sc.closed.map topTexts

namespace Scopes.Hoists

variable {sc sc' : Scopes}

theorem renames (h : sc.Hoists) (hrenames : sc.Renames sc') : sc'.Hoists := by
  refine ⟨map_inj_left.1 ?_, by rw [hrenames.tops, hrenames.closed]; exact h.closed⟩
  rw [hrenames.hoisted, hrenames.map (topTexts ·.declared) fun _ => rfl]
  exact map_inj_left.2 h.opened

theorem write (h : sc.Hoists) (d : Declaration) : (sc.write d).Hoists := by
  refine ⟨forall_mapCurrent h.opened fun hcurrent => ?_, ?_⟩
  · cases hd : d.atTop <;> simp [topTexts, hd, hcurrent]
  · rw [Scopes.write, tops_mapCurrent, closed_mapCurrent]
    exact h.closed

theorem changes (h : sc.Hoists) (hchanges : sc.Changes tape sc') : sc'.Hoists := by
  cases hchanges with
  | same => exact h
  | names _ => exact h.renames (.naming _)
  | introduces => exact (h.renames (.declare ..)).write _
  | defines => exact h.write _
  | opens hinner _ hdeclared hhoisted =>
    refine ⟨forall_mem_cons.2 ⟨h.opened _ (by simp), ?_⟩, h.closed⟩
    simp [hdeclared, hhoisted, topTexts]
  | @closes scope hinner =>
    refine ⟨fun other hother => h.opened other (by simp_all), ?_⟩
    have hscope : scope.hoisted = topTexts scope.declared := h.opened scope (by simp [hinner])
    simp [h.closed, Scope.top, hscope]

end Scopes.Hoists

theorem Event.hoists {e : Event} (hs : Sound tape s) (hfit : e.Fits tape s)
    (h : s.scopes.Hoists) : (e.apply s).scopes.Hoists := by
  rcases Event.changes_or_renames hs hfit with hchanges | hrenames
  · exact h.changes hchanges
  · exact h.renames hrenames

theorem Run.hoists (h : Run tape level s es s') (hs : Sound tape s) (hoists : s.scopes.Hoists) :
    s'.scopes.Hoists :=
  h.invariant_of_sound (I := fun s => s.scopes.Hoists)
    (fun hs ho hfit => Event.hoists hs hfit ho) hs hoists

/-! ### The body -/

/-- What a pass that comes to its end has emitted. -/
theorem Finished.emitted {collector : Collector} (h : Finished tape collector s) :
    s.Emitted ∧ s.scopes.Hoists ∧ s.scopes.inner = [] := by
  obtain ⟨es, hrun⟩ := h.path
  have hs := sound_start tape collector
  refine ⟨hrun.emitted hs ⟨[], .start _ collector, rfl⟩ .start, hrun.hoists hs ⟨?_, rfl⟩, ?_⟩
  · simp [Scopes.start, topTexts]
  · simpa [h.blocks, expectedScopes] using (hrun.sound hs).framed.inner

/-- **The body in the order of emission.**  Either nothing is generated for a source, as it cannot
be read or has a number with too many digits, or for every target the body has the lines of the log
in their order, with the declarations of the tops put in: those of the module at the very start, and
those of each procedure at its depth right below its first line, as one block, in the order in which
they were made. -/
theorem body_emitted_in_order (source : String) :
    (∃ fault, Fails source fault ∧ ∀ target,
        (Generated.ofScan target (scan source)).failure = some (.fault fault) ∧
        (Generated.ofScan target (scan source)).code = "") ∨
      ∃ values : List String,
        (∀ target, (Generated.ofScan target (scan source)).failure = none ∧
          (Generated.ofScan target (scan source)).code = joinWith "\n" (target.preamble values ++
            (weave ((lastState source).scopes.root.top :: (lastState source).scopes.tops)
              (lastState source).page.log.toList).map (Line.render indentUnit) ++
                target.postamble)) ∧
        (lastState source).scopes.root.top.spot = ⟨none, 0, 1⟩ ∧
        (lastState source).scopes.root.hoisted = topTexts (lastState source).scopes.root.declared ∧
        Forall₂ (Heads (lastState source).procedures (lastState source).page.log.toList)
          (lastState source).headers.reverse ((lastState source).scopes.tops.map Top.spot) ∧
        (lastState source).scopes.tops.Pairwise (·.start < ·.start) ∧
        (lastState source).scopes.tops.map Top.hoisted =
          (lastState source).scopes.closed.map topTexts := by
  rcases generated_cases source with
    ⟨fault, hfails, hfailed⟩ | ⟨hread, s, values, hfinished, -, hlast, hgenerated⟩
  · refine .inl ⟨fault, hfails, fun target => ?_⟩
    rw [hfailed target]
    exact ⟨rfl, rfl⟩
  · obtain ⟨hemitted, hhoists, hinner⟩ := hfinished.emitted
    have hlines := hemitted.hoistModule
    have hlog : s.hoisted.page.log = s.page.log := by rw [State.hoisted_page, Scope.hoistOn_log]
    have hheaded := hemitted.headed
    rw [hinner, map_nil, append_nil, ← hlog] at hheaded
    rw [← hlog] at hlines
    obtain ⟨page, hpage⟩ := s.hoisted_eq
    rw [hlast]
    rw [hpage] at hlines hheaded hgenerated ⊢
    refine .inr ⟨values, fun target => ?_, congrArg Prod.snd hemitted.root,
      hhoists.opened _ (by simp), hheaded, hemitted.tops_rising, hhoists.closed⟩
    rw [hgenerated, ← hlines]
    exact ⟨rfl, rfl⟩

-- The variable of the procedure belongs behind the third line, the first one of the procedure.
example :
    (lastState "a = 1\nPRINT c\nSUB f\nPRINT b\nEND SUB").scopes.tops =
    [⟨some "f", 3, 2, ["let b = 0;"]⟩] := by
  decide +kernel

end BasicScript
