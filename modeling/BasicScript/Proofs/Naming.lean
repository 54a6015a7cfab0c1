import BasicScript.Proofs.ProgramTree

/-!
# Names in program trees

A variable has many spellings, and its JavaScript name should be the one for the spelling that
stands first in the program.  The name that is used is the one for the spelling that declared it.
The two agree for the variables that an assignment declares, so a program is translated with the
first spellings if and only if they agree for the others (`lines_nameOf_iff`), the variables that
are declared at the top.

A ledger grows by the names in expressions and by assignments (`Ledger.Grows`), and what holds of it
(`Ledger.Orderly`) follows from these two steps.
-/

namespace BasicScript

open Text Script List

variable {closed : Bool} {js js' : String → String} {ends : LoopEnds} {name : String}

namespace Ledger

variable {l l₀ l' : Ledger} {key js : String} {names : List String} {atTop : Bool}

/-! ### Growing ledgers -/

/-- What parts of a program do to a ledger. -/
inductive Grows (l₀ : Ledger) : Ledger → Prop where
  | refl : Grows l₀ l₀
  | useAll {l : Ledger} (h : Grows l₀ l) (names : List String) : Grows l₀ (l.useAll names)
  | assign {l : Ledger} (h : Grows l₀ l) (name : String) (names : List String) (atTop : Bool) :
    Grows l₀ (((l.meet name).useAll names).assign atTop name)

theorem get?_met_meet (h : l.met.get? key = some js) : (l.meet name).met.get? key = some js := by
  unfold meet
  split
  · exact h
  · rw [Table.get?_insert, if_neg]
    · exact h
    · rintro rfl
      simp_all

@[simp] theorem met_assign : (l.assign atTop name).met = l.met := by
  unfold assign
  split <;> rfl

theorem get?_met_useAll (h : l.met.get? key = some js) :
    (l.useAll names).met.get? key = some js := by
  induction names generalizing l with
  | nil => exact h
  | cons name names ih =>
    refine ih ?_
    rw [use, met_assign]
    exact get?_met_meet h

theorem Grows.declared (h : Grows l l') (hjs : l.declared.get? key = some js) :
    l'.declared.get? key = some js := by
  induction h with
  | refl => exact hjs
  | useAll _ names ih => exact get?_useAll_of_some ih
  | assign _ name names atTop ih =>
    refine get?_assign_of_some (get?_useAll_of_some ?_)
    rwa [declared_meet]

theorem Grows.met (h : Grows l l') (hjs : l.met.get? key = some js) :
    l'.met.get? key = some js := by
  induction h with
  | refl => exact hjs
  | useAll _ names ih => exact get?_met_useAll ih
  | assign _ name names atTop ih =>
    rw [met_assign]
    exact get?_met_useAll (get?_met_meet ih)

theorem Grows.trans (h : Grows l₀ l) (h' : Grows l l') : Grows l₀ l' := by
  induction h' with
  | refl => exact h
  | useAll _ names ih => exact ih.useAll names
  | assign _ name names atTop ih => exact ih.assign name names atTop

/-! ### Orderly ledgers -/

/-- A ledger in which everything that was met is declared, up to pending names, and a name is
declared with its first spelling or at the top. -/
structure OrderlyBut (pending : List String) (l : Ledger) : Prop where
  met : ∀ key, l.declared.holds key = true → l.met.holds key = true
  declared : ∀ key, l.met.holds key = true → key ∈ pending ∨ l.declared.holds key = true
  hoisted : ∀ n ∈ l.hoisted, l.declared.get? (upper n) = some (identifier n)
  first : ∀ key js, l.declared.get? key = some js → l.met.get? key = some js ∨
    ∃ n ∈ l.hoisted, upper n = key

/-- A ledger between statements. -/
abbrev Orderly (l : Ledger) : Prop := l.OrderlyBut []

theorem orderly_empty : ({} : Ledger).Orderly where
  met _ h := h
  declared _ h := .inr h
  hoisted _ h := nomatch h
  first _ _ h := nomatch h

theorem holds_met_meet :
    (l.meet name).met.holds key = (decide (key = upper name) || l.met.holds key) := by
  unfold meet
  split
  · by_cases hkey : key = upper name <;> simp_all [Table.holds]
  · by_cases hkey : key = upper name <;> simp [Table.holds, Table.get?_insert, hkey]

theorem get?_declared_assign (h : l.declares name = false) :
    (l.assign atTop name).declared.get? key =
      if key = upper name then some (identifier name) else l.declared.get? key := by
  rw [assign, if_neg (by simp [h]), Table.get?_insert]

namespace OrderlyBut

variable {pending : List String}

theorem meet (h : l.OrderlyBut pending) (name : String) :
    (l.meet name).OrderlyBut (upper name :: pending) where
  met key hkey := by
    rw [declared_meet] at hkey
    rw [holds_met_meet, h.met key hkey, Bool.or_true]
  declared key hkey := by
    rw [holds_met_meet, Bool.or_eq_true, decide_eq_true_eq] at hkey
    rw [declared_meet, mem_cons, or_assoc]
    exact hkey.imp_right (h.declared key)
  hoisted n hn := by
    rw [hoisted_meet] at hn
    rw [declared_meet]
    exact h.hoisted n hn
  first key js hjs := by
    rw [declared_meet] at hjs
    rw [hoisted_meet]
    exact (h.first key js hjs).imp_left get?_met_meet

/-- A name that was met is declared, at the top or with its first spelling. -/
theorem assign (h : l.OrderlyBut (upper name :: pending)) (hmet : l.met.holds (upper name) = true)
    (hfirst : l.declares name = true ∨ atTop = true ∨
      l.met.get? (upper name) = some (identifier name)) :
    (l.assign atTop name).OrderlyBut pending := by
  by_cases hdeclared : l.declares name = true
  · have hsame : l.assign atTop name = l := by rw [Ledger.assign, if_pos hdeclared]
    rw [hsame]
    refine ⟨h.met, fun key hkey => ?_, h.hoisted, h.first⟩
    rcases h.declared key hkey with hpending | hkey
    · rcases mem_cons.1 hpending with rfl | hpending
      · exact .inr hdeclared
      · exact .inl hpending
    · exact .inr hkey
  · -- one key is new, that of the name, and it was pending
    rw [Bool.not_eq_true] at hdeclared
    have hget (key : String) : (l.assign atTop name).declared.get? key =
        if key = upper name then some (identifier name) else l.declared.get? key :=
      get?_declared_assign hdeclared
    have hhoisted : (l.assign atTop name).hoisted = if atTop then l.hoisted ++
        [name] else l.hoisted := by
      rw [Ledger.assign, if_neg (by simp [hdeclared])]
    have hmem {n : String} (hn : n ∈ (l.assign atTop name).hoisted) : n ∈ l.hoisted ∨ n = name := by
      rw [hhoisted] at hn
      split at hn
      · simpa using hn
      · exact .inl hn
    constructor
    case met =>
      intro key hkey
      rw [met_assign]
      by_cases heq : key = upper name
      · exact heq ▸ hmet
      · rw [Table.holds, hget, if_neg heq] at hkey
        exact h.met key hkey
    case declared =>
      intro key hkey
      rw [met_assign] at hkey
      rw [Table.holds, hget]
      rcases h.declared key hkey with hpending | hkey
      · rcases mem_cons.1 hpending with rfl | hpending
        · exact .inr (by rw [if_pos rfl]; rfl)
        · exact .inl hpending
      · refine .inr ?_
        split
        · rfl
        · exact hkey
    case hoisted =>
      intro n hn
      rw [hget]
      rcases hmem hn with hn | rfl
      · have hold := h.hoisted n hn
        rw [if_neg]
        · exact hold
        · intro heq
          simp [declares, Table.holds, ← heq, hold] at hdeclared
      · rw [if_pos rfl]
    case first =>
      intro key js hjs
      rw [hget] at hjs
      rw [met_assign, hhoisted]
      split at hjs
      · subst key
        rcases hfirst with hold | rfl | hfirst
        · simp [hold] at hdeclared
        · exact .inr ⟨name, by simp, rfl⟩
        · exact .inl (hfirst.trans hjs)
      · refine (h.first key js hjs).imp_right ?_
        rintro ⟨n, hn, hkey⟩
        refine ⟨n, ?_, hkey⟩
        split
        · exact mem_append_left _ hn
        · exact hn

theorem use (h : l.OrderlyBut pending) (name : String) : (l.use name).OrderlyBut pending :=
  (h.meet name).assign (by simp [holds_met_meet]) (.inr (.inl rfl))

theorem useAll (h : l.OrderlyBut pending) (names : List String) :
    (l.useAll names).OrderlyBut pending := by
  induction names generalizing l with
  | nil => exact h
  | cons name names ih => exact ih (h.use name)

end OrderlyBut

namespace Orderly

theorem met_none (h : l.Orderly) (hname : l.declares name = false) :
    l.met.get? (upper name) = none := by
  have hmet : l.met.holds (upper name) = false := by
    by_contra hmet
    rcases h.declared _ (Bool.not_eq_false _ ▸ hmet) with hpending | hdeclared
    · cases hpending
    · rw [declares, hdeclared] at hname
      cases hname
  simpa [Table.holds] using hmet

/-- A name that is not declared is met first where it is assigned to. -/
theorem get?_met (h : l.Orderly) (hname : l.declares name = false) :
    (l.meet name).met.get? (upper name) = some (identifier name) := by
  rw [Ledger.meet, h.met_none hname, Table.get?_insert, if_pos rfl]

theorem assignment (h : l.Orderly) (name : String) (names : List String) (atTop : Bool) :
    (((l.meet name).useAll names).assign atTop name).Orderly := by
  refine ((h.meet name).useAll names).assign ?_ ?_
  · have hmet : (l.meet name).met.holds (upper name) = true := by simp [holds_met_meet]
    obtain ⟨js, hjs⟩ := Option.isSome_iff_exists.1 hmet
    exact Option.isSome_iff_exists.2 ⟨js, get?_met_useAll hjs⟩
  · by_cases hdeclared : l.declares name = true
    · refine .inl (declares_useAll_of_declares ?_)
      rwa [declares, declared_meet]
    · exact .inr (.inr (get?_met_useAll (h.get?_met (by simpa using hdeclared))))

theorem grows (h : l.Orderly) (hgrows : l.Grows l') : l'.Orderly := by
  induction hgrows with
  | refl => exact h
  | useAll _ names ih => exact ih.useAll names
  | assign _ name names atTop ih => exact ih.assignment name names atTop

/-- If the names that are declared at the top are declared with their first spelling, all names
are. -/
theorem nameOf_eq (h : l.Orderly) (hhoisted : ∀ n ∈ l.hoisted, l.firstName n = identifier n)
    (hname : l.declares name = true) : l.nameOf name = l.firstName name := by
  obtain ⟨js, hjs⟩ := Option.isSome_iff_exists.1 hname
  obtain ⟨first, hfirst⟩ := Option.isSome_iff_exists.1 (h.met _ hname)
  rw [nameOf, firstName, hjs, hfirst, Option.getD_some, Option.getD_some]
  rcases h.first _ js hjs with hmet | ⟨n, hn, hkey⟩
  · exact Option.some.inj (hmet.symm.trans hfirst)
  · have hthis := hhoisted n hn
    have hdeclared := h.hoisted n hn
    rw [firstName, hkey, hfirst, Option.getD_some] at hthis
    rw [hkey, hjs] at hdeclared
    exact (Option.some.inj hdeclared).trans hthis.symm

end Orderly

end Ledger

/-! ### Trees -/

section Trees

variable {l₀ l : Ledger} {depth : Nat}

theorem Inline.grows (x : Inline closed) (h : l₀.Grows l) : l₀.Grows (x.ledger depth l) := by
  induction x generalizing depth l with
  | print e => exact h.useAll e.names
  | assign name e => exact h.assign name e.names _
  | ifThen c body ih => exact ih (h.useAll c.names)
  | ifElse c body other ihb iho => exact iho (ihb (h.useAll c.names))

mutual

theorem Stmt.grows {l : Ledger} {depth : Nat} (h : l₀.Grows l) :
    (x : Stmt) → l₀.Grows (x.ledger depth l)
  | .line x => x.grows h
  | .condition c body rest => rest.grows (body.grows (h.useAll c.names))
  | .counting _ _ _ _ body _ => body.grows (h.useAll _)
  | .whileLoop c body => body.grows (h.useAll c.names)
  | .doLoop ends body => (body.grows (h.useAll ends.frontNames)).useAll ends.backNames
  | .selection e cases => cases.grows (h.useAll e.names)

theorem Body.grows {l : Ledger} {depth : Nat} (h : l₀.Grows l) :
    (x : Body) → l₀.Grows (x.ledger depth l)
  | .done => h
  | .next s rest => rest.grows (s.grows h)

theorem Branches.grows {l : Ledger} {depth : Nat} (h : l₀.Grows l) :
    (x : Branches) → l₀.Grows (x.ledger depth l)
  | .done => h
  | .elseIf c body rest => rest.grows (body.grows (h.useAll c.names))
  | .otherwise body => body.grows h

theorem Cases.grows {l : Ledger} {depth : Nat} (h : l₀.Grows l) :
    (x : Cases) → l₀.Grows (x.ledger depth l)
  | .done => h
  | .case _ _ body rest => rest.grows (body.grows (h.useAll _))
  | .otherwise body => body.grows h

end

end Trees

/-! ### Translations with the first spellings -/

namespace Expr

variable {e : Expr}

theorem script_congr (h : ∀ n ∈ e.names, js n = js' n) : e.script js = e.script js' := by
  induction e with
  | number | string => rfl
  | name text => exact h text (by simp [names])
  | parens inner ih => rw [script, script, ih h]
  | signed sign operand ih => rw [script, script, ih h]
  | binary o left right ihl ihr =>
    rw [script, script, ihl fun n hn => h n (mem_append_left _ hn),
      ihr fun n hn => h n (mem_append_right _ hn)]

theorem rendered_congr (h : ∀ n ∈ e.names, js n = js' n) : e.rendered js = e.rendered js' :=
  script_congr (by rwa [names_explicit])

end Expr

theorem LoopTest.rendered_congr {test : LoopTest}
    (h : ∀ n ∈ test.condition.names, js n = js' n) : test.rendered js = test.rendered js' := by
  rw [rendered, rendered, Expr.rendered_congr h]

theorem LoopEnds.frontText_congr
    (h : ∀ n ∈ ends.frontNames, js n = js' n) : ends.frontText js = ends.frontText js' := by
  cases ends with
  | front test => rw [frontText, frontText, LoopTest.rendered_congr h]
  | _ => rfl

theorem LoopEnds.backText_congr (h : ∀ n ∈ ends.backNames, js n = js' n) :
    ends.backText js = ends.backText js' := by
  cases ends with
  | back test => rw [backText, backText, LoopTest.rendered_congr h]
  | _ => rfl

theorem countingText_congr {start stop : Expr} {step : Option Expr}
    (h : ∀ n ∈ name :: (start.names ++ (stop.names ++ stepNames step)), js n = js' n) :
    countingText js name start stop step = countingText js' name start stop step := by
  have hstep : step.elim "1" (Expr.rendered js) = step.elim "1" (Expr.rendered js') := by
    cases step with
    | none => rfl
    | some e => exact Expr.rendered_congr fun n hn => h n (by simp [stepNames, hn])
  have hname : js name = js' name := h name (by simp)
  have hstart : start.rendered js = start.rendered js' :=
    Expr.rendered_congr fun n hn => h n (by simp [hn])
  have hstop : stop.rendered js = stop.rendered js' :=
    Expr.rendered_congr fun n hn => h n (by simp [hn])
  rw [countingText, countingText, hname, hstart, hstop, hstep]

theorem CaseTest.rendered_congr {test : CaseTest} {value : String}
    (h : ∀ n ∈ test.names, js n = js' n) : test.rendered js value = test.rendered js' value := by
  cases test with
  | value e => rw [rendered, rendered, Expr.rendered_congr h]
  | range low high =>
    rw [rendered, rendered, Expr.rendered_congr (e := low) fun n hn => h n (mem_append_left _ hn),
      Expr.rendered_congr (e := high) fun n hn => h n (mem_append_right _ hn)]
  | compare hasIs c e => rw [rendered, rendered, Expr.rendered_congr h]

/-- Each declared name has the JavaScript name for its first spelling. -/
def Ledger.Faithful (l : Ledger) : Prop :=
  ∀ name, l.declares name = true → l.nameOf name = l.firstName name

section First

variable {final l : Ledger} (hfinal : final.Faithful)

include hfinal

/-- A declared name keeps its JavaScript name up to the end, where it is the first one. -/
theorem nameOf_eq_firstName
    (h : ∀ key js, l.declared.get? key = some js → final.declared.get? key = some js)
    (hname : l.declares name = true) : l.nameOf name = final.firstName name := by
  obtain ⟨js, hjs⟩ := Option.isSome_iff_exists.1 hname
  have hjs' := h _ js hjs
  rw [← hfinal name (Option.isSome_iff_exists.2 ⟨js, hjs'⟩), Ledger.nameOf,
    Ledger.nameOf, hjs, hjs']

theorem nameOf_useAll_first {names : List String} (h : (l.useAll names).Grows final) :
    ∀ n ∈ names, (l.useAll names).nameOf n = final.firstName n :=
  fun _ hn => nameOf_eq_firstName hfinal (fun _ _ => h.declared) (Ledger.declares_useAll hn)

theorem rendered_first {e : Expr} (h : (l.useAll e.names).Grows final) :
    e.rendered (l.useAll e.names).nameOf = e.rendered final.firstName :=
  Expr.rendered_congr (nameOf_useAll_first hfinal h)

theorem Inline.rows_first (x : Inline closed) {depth : Nat} (hl : l.Orderly)
    (h : (x.ledger depth l).Grows final) :
    x.rows Ledger.nameOf depth l = x.rows (fun _ => final.firstName) depth l := by
  induction x generalizing depth l with
  | print e => rw [rows, rows, rendered_first hfinal h]
  | assign name e =>
    have hvalue : e.rendered ((l.meet name).useAll e.names).nameOf = e.rendered final.firstName :=
      Expr.rendered_congr fun _ hn => nameOf_eq_firstName hfinal
        (fun _ _ hjs => h.declared (Ledger.get?_assign_of_some hjs)) (Ledger.declares_useAll hn)
    have htarget : l.nameOf name = final.firstName name := by
      by_cases hname : l.declares name = true
      · exact nameOf_eq_firstName hfinal
          (fun _ _ => ((Ledger.Grows.refl.assign name e.names _).trans h).declared) hname
      · rw [Bool.not_eq_true] at hname
        have hmet : ((l.meet name).useAll e.names).met.get? (upper name) = _ :=
          Ledger.get?_met_useAll (hl.get?_met hname)
        have hlast := h.met (Ledger.met_assign.symm ▸ hmet)
        rw [Ledger.nameOf_of_not_declares hname, Ledger.firstName, hlast, Option.getD_some]
    rw [rows, rows, hvalue, htarget]
  | ifThen c body ih =>
    have hc : (l.useAll c.names).Grows final := (body.grows .refl).trans h
    rw [rows, rows, rendered_first hfinal hc, ih (hl.useAll _) h]
  | ifElse c body other ihb iho =>
    have hb : (body.ledger (depth + 1) (l.useAll c.names)).Grows final :=
      (other.grows .refl).trans h
    have hc : (l.useAll c.names).Grows final := (body.grows .refl).trans hb
    have hl' : (l.useAll c.names).Orderly := hl.useAll _
    rw [rows, rows, rendered_first hfinal hc, ihb hl' hb, iho (hl'.grows (body.grows .refl)) h]

end First

section Trees

variable {final : Ledger}

mutual

theorem Stmt.rows_first {l : Ledger} {depth : Nat} (hfinal : final.Faithful)
    (hl : l.Orderly) (n : Nat) : (x : Stmt) → (x.ledger depth l).Grows final →
      x.rows Ledger.nameOf depth l n = x.rows (fun _ => final.firstName) depth l n
  | .line x, h => x.rows_first hfinal hl h
  | .condition c body rest, h => by
    have hb : (body.ledger (depth + 1) (l.useAll c.names)).Grows final := (rest.grows .refl).trans h
    have hc : (l.useAll c.names).Grows final := (body.grows .refl).trans hb
    rw [Stmt.rows, Stmt.rows, rendered_first hfinal hc, body.rows_first hfinal (hl.useAll _) n hb,
      rest.rows_first hfinal (hl.grows (body.grows (.useAll .refl _))) _ h]
  | .counting name start stop step body closer, h => by
    have hc : (l.useAll (name :: (start.names ++ (stop.names ++ stepNames step)))).Grows final :=
      (body.grows .refl).trans h
    rw [Stmt.rows, Stmt.rows, body.rows_first hfinal (hl.useAll _) n h,
      countingText_congr (nameOf_useAll_first hfinal hc)]
  | .whileLoop c body, h => by
    have hc : (l.useAll c.names).Grows final := (body.grows .refl).trans h
    rw [Stmt.rows, Stmt.rows, rendered_first hfinal hc, body.rows_first hfinal (hl.useAll _) n h]
  | .doLoop ends body, h => by
    have hb : (body.ledger (depth + 1) (l.useAll ends.frontNames)).Grows final :=
      (Ledger.Grows.refl.useAll ends.backNames).trans h
    have hc : (l.useAll ends.frontNames).Grows final := (body.grows .refl).trans hb
    have hfront : ends.frontText (l.useAll ends.frontNames).nameOf =
        ends.frontText final.firstName :=
      LoopEnds.frontText_congr (nameOf_useAll_first hfinal hc)
    have hback : ends.backText
        ((body.ledger (depth + 1) (l.useAll ends.frontNames)).useAll ends.backNames).nameOf =
          ends.backText final.firstName :=
      LoopEnds.backText_congr (nameOf_useAll_first hfinal h)
    rw [Stmt.rows, Stmt.rows, body.rows_first hfinal (hl.useAll _) n hb, hfront, hback]
  | .selection e cases, h => by
    have hc : (l.useAll e.names).Grows final := (cases.grows .refl).trans h
    rw [Stmt.rows, Stmt.rows, rendered_first hfinal hc,
      cases.rows_first hfinal (hl.useAll _) _ _ _ h]

theorem Body.rows_first {l : Ledger} {depth : Nat} (hfinal : final.Faithful)
    (hl : l.Orderly) (n : Nat) : (x : Body) → (x.ledger depth l).Grows final →
      x.rows Ledger.nameOf depth l n = x.rows (fun _ => final.firstName) depth l n
  | .done, _ => rfl
  | .next s rest, h => by
    have hs : (s.ledger depth l).Grows final := (rest.grows .refl).trans h
    rw [Body.rows, Body.rows, s.rows_first hfinal hl n hs,
      rest.rows_first hfinal (hl.grows (s.grows .refl)) _ h]

theorem Branches.rows_first {l : Ledger} {depth : Nat} (hfinal : final.Faithful)
    (hl : l.Orderly) (n : Nat) : (x : Branches) → (x.ledger depth l).Grows final →
      x.rows Ledger.nameOf depth l n = x.rows (fun _ => final.firstName) depth l n
  | .done, _ => rfl
  | .elseIf c body rest, h => by
    have hb : (body.ledger (depth + 1) (l.useAll c.names)).Grows final := (rest.grows .refl).trans h
    have hc : (l.useAll c.names).Grows final := (body.grows .refl).trans hb
    rw [Branches.rows, Branches.rows, rendered_first hfinal hc,
      body.rows_first hfinal (hl.useAll _) n hb,
      rest.rows_first hfinal (hl.grows (body.grows (.useAll .refl _))) _ h]
  | .otherwise body, h => by rw [Branches.rows, Branches.rows, body.rows_first hfinal hl n h]

theorem Cases.rows_first {l : Ledger} {depth : Nat} (hfinal : final.Faithful) (hl : l.Orderly)
    (n : Nat) (value : String) (isFirst : Bool) :
    (x : Cases) → (x.ledger depth l).Grows final →
      x.rows Ledger.nameOf depth value isFirst l n =
        x.rows (fun _ => final.firstName) depth value isFirst l n
  | .done, _ => rfl
  | .case first more body rest, h => by
    let tests := first :: more
    have hb : (body.ledger (depth + 1) (l.useAll (tests.flatMap CaseTest.names))).Grows final :=
      (rest.grows .refl).trans h
    have hc : (l.useAll (tests.flatMap CaseTest.names)).Grows final := (body.grows .refl).trans hb
    have htests :
        tests.map (CaseTest.rendered (l.useAll (tests.flatMap CaseTest.names)).nameOf value) =
        tests.map (CaseTest.rendered final.firstName value) :=
      map_congr_left fun test htest => CaseTest.rendered_congr fun n hn =>
        nameOf_useAll_first hfinal hc n (mem_flatMap.2 ⟨test, htest, hn⟩)
    rw [Cases.rows, Cases.rows, htests, body.rows_first hfinal (hl.useAll _) n hb,
      rest.rows_first hfinal (hl.grows (body.grows (.useAll .refl _))) _ _ _ h]
  | .otherwise body, h => by rw [Cases.rows, Cases.rows, body.rows_first hfinal hl n h]

end

end Trees

theorem Body.orderly_finalLedger (p : Body) : p.finalLedger.Orderly :=
  Ledger.orderly_empty.grows (p.grows .refl)

/-- A program is translated with the first spellings of its names if and only if each name that is
declared at the top is declared with its first spelling. -/
theorem Body.lines_nameOf_iff (p : Body) :
    p.lines Ledger.nameOf = p.lines (fun _ => p.finalLedger.firstName) ↔
      ∀ n ∈ p.finalLedger.hoisted, p.finalLedger.firstName n = identifier n := by
  have horderly := p.orderly_finalLedger
  constructor
  · intro h n hn
    have hfront := (append_inj h (by simp)).1
    have hline := congrArg Line.text (map_inj_left.1 hfront n hn)
    have hname : p.finalLedger.nameOf n = p.finalLedger.firstName n := by
      simpa [String.append_assoc, String.append_right_inj, String.append_left_inj] using hline
    rw [← hname, Ledger.nameOf, horderly.hoisted n hn, Option.getD_some]
  · intro h
    have hfinal : p.finalLedger.Faithful := fun name hname => horderly.nameOf_eq h hname
    have hhoisted {n : String} (hn : n ∈ p.finalLedger.hoisted) :
        p.finalLedger.nameOf n = p.finalLedger.firstName n := by
      rw [Ledger.nameOf, horderly.hoisted n hn, Option.getD_some, h n hn]
    rw [Body.lines, Body.lines, p.rows_first hfinal Ledger.orderly_empty 0 .refl]
    congr 1
    exact map_congr_left fun n hn => by rw [hhoisted hn]

end BasicScript
