import BasicScript.Proofs.Ahead

/-!
# Names at their first use

A name that is used as a plain variable before anything declares it is declared by its use: it gets
a cell in the current scope and a declaration at the top of the scope (`Scopes.use`).  A name that
has a variable keeps it, whatever other names are used (`find?_useAll`), so its JavaScript name is
settled by its first use.
-/

namespace BasicScript

open Script Text Emit

/-- The plain variable of a name that was never declared. -/
def Variable.implicit (name : String) : Variable :=
  { name := identifier name, isText := isTextName name }

theorem Variable.name_implicit (name : String) :
    (Variable.implicit name).name = identifier name := by
  rw [Variable.implicit]

/-- The declaration of a variable at the top of its scope. -/
def Variable.declaration (v : Variable) : String := "let " ++ v.name ++ " = " ++ initialOf v ++ ";"

/-- What is noted of it. -/
def Declaration.implicit (name : String) : Declaration :=
  { key := upper name, origin := .plain, text := (Variable.implicit name).declaration,
    atTop := true }

/-! ### Scopes -/

namespace Scopes

variable {sc : Scopes} {name other : String} {v : Variable}

section MapCurrent

variable {f : Scope → Scope} (hf : ∀ scope, (f scope).names = scope.names)

include hf

/-- Only the names of a scope matter for what a name refers to. -/
theorem local?_mapCurrent : (sc.mapCurrent f).local? name = sc.local? name := by
  rw [local?, current_mapCurrent, hf, local?]

theorem find?_mapCurrent : (sc.mapCurrent f).find? name = sc.find? name := by
  rw [find?, lookup?, local?_mapCurrent hf, isModule_mapCurrent, shared_mapCurrent,
    cell?_mapCurrent, find?, lookup?]

end MapCurrent

@[simp] theorem local?_hoist (text : String) : (sc.hoist text).local? name = sc.local? name :=
  local?_mapCurrent fun _ => rfl

@[simp] theorem find?_hoist (text : String) : (sc.hoist text).find? name = sc.find? name :=
  find?_mapCurrent fun _ => rfl

@[simp] theorem local?_note (d : Declaration) : (sc.note d).local? name = sc.local? name :=
  local?_mapCurrent fun _ => rfl

@[simp] theorem find?_note (d : Declaration) : (sc.note d).find? name = sc.find? name :=
  find?_mapCurrent fun _ => rfl

/-- A name declared anew refers to its new variable, and no other name changes. -/
theorem lookup?_declare (h : sc.local? name = none) (v : Variable) (other : String) :
    (sc.declare name v).2.lookup? other =
      if upper other = upper name then some sc.cells.size else sc.lookup? other := by
  rw [lookup?, local?_declare h]
  by_cases hsame : upper other = upper name
  · rw [if_pos hsame, if_pos hsame]
  · rw [if_neg hsame, if_neg hsame, declare_of_local? h, bind, isModule_mapCurrent,
      shared_mapCurrent]
    rfl

theorem cell?_declare (h : sc.local? name = none) (v : Variable) (ref : Ref) :
    (sc.declare name v).2.cell? ref = (sc.cells.push v)[ref]? := by
  rw [declare_of_local? h, bind, cell?_mapCurrent]
  rfl

theorem find?_declare_self (h : sc.local? name = none) (hother : upper other = upper name) :
    (sc.declare name v).2.find? other = some v := by
  simp [find?, lookup?_declare h, hother, cell?_declare h]

theorem find?_declare_of_some {w : Variable} (h : sc.local? name = none)
    (hne : sc.find? name = none) (hw : sc.find? other = some w) :
    (sc.declare name v).2.find? other = some w := by
  have hdiffer : ¬ upper other = upper name := by
    intro heq
    rw [find?_congr heq, hne] at hw
    cases hw
  simp only [find?, Option.bind_eq_some_iff, cell?] at hw
  obtain ⟨ref, href, hcell⟩ := hw
  have hlt : ref < sc.cells.size := (Array.getElem?_eq_some_iff.1 hcell).1
  simp [find?, lookup?_declare h, if_neg hdiffer, href, cell?_declare h,
    Array.getElem?_push_lt hlt, ← hcell]

/-! ### Using names -/

/-- A name that refers to no variable is not in the current scope either. -/
def Free (sc : Scopes) (name : String) : Prop := sc.find? name = none → sc.local? name = none

/-- The scopes after a plain variable was declared at the top. -/
def declareTop (sc : Scopes) (name : String) : Scopes :=
  ((sc.declare name (.implicit name)).2.note (.implicit name)).hoist
    (Variable.implicit name).declaration

/-- The scopes after a name was used as a plain variable. -/
def use (sc : Scopes) (name : String) : Scopes :=
  match sc.find? name with
  | some _ => sc
  | none => sc.declareTop name

/-- The scopes after several names were used. -/
def useAll (sc : Scopes) (names : List String) : Scopes := names.foldl use sc

/-- The JavaScript name of a plain variable. -/
def scriptName (sc : Scopes) (name : String) : String :=
  ((sc.find? name).map (·.name)).getD (identifier name)

@[simp] theorem useAll_nil : sc.useAll [] = sc := rfl

theorem useAll_cons (names : List String) :
    sc.useAll (name :: names) = (sc.use name).useAll names :=
  rfl

theorem useAll_append (a b : List String) : sc.useAll (a ++ b) = (sc.useAll a).useAll b :=
  List.foldl_append ..

theorem use_of_some (h : sc.find? name = some v) : sc.use name = sc := by
  rw [use, h]

theorem use_of_none (h : sc.find? name = none) : sc.use name = sc.declareTop name := by
  rw [use, h]

@[simp] theorem find?_declareTop :
    (sc.declareTop name).find? other = (sc.declare name (.implicit name)).2.find? other := by
  rw [declareTop, find?_hoist, find?_note]

@[simp] theorem local?_declareTop :
    (sc.declareTop name).local? other = (sc.declare name (.implicit name)).2.local? other := by
  rw [declareTop, local?_hoist, local?_note]

theorem find?_use_self (h : sc.Free name) :
    (sc.use name).find? name = some ((sc.find? name).getD (.implicit name)) := by
  cases hfind : sc.find? name with
  | some v => rw [use_of_some hfind, hfind]; rfl
  | none => rw [use_of_none hfind, find?_declareTop, find?_declare_self (h hfind) rfl]; rfl

/-- A variable stays what it is when another name is used. -/
theorem find?_use_of_some (h : sc.Free name) (hv : sc.find? other = some v) :
    (sc.use name).find? other = some v := by
  cases hfind : sc.find? name with
  | some w => rwa [use_of_some hfind]
  | none =>
    rw [use_of_none hfind, find?_declareTop]
    exact find?_declare_of_some (h hfind) hfind hv

theorem Free.use (h : sc.Free name) (hother : sc.Free other) : (sc.use name).Free other := by
  cases hfind : sc.find? name with
  | some w => rwa [use_of_some hfind]
  | none =>
    intro hnone
    have hdiffer : ¬ upper other = upper name := by
      intro heq
      rw [find?_congr heq, find?_use_self h] at hnone
      cases hnone
    have hlocal : sc.local? other = none := by
      refine hother ?_
      cases hv : sc.find? other with
      | none => rfl
      | some v => rw [find?_use_of_some h hv] at hnone; cases hnone
    rw [use_of_none hfind, local?_declareTop, local?_declare (h hfind), if_neg hdiffer, hlocal]

section UseAll

variable {names : List String} (h : ∀ n ∈ names, sc.Free n)

include h

theorem Free.useAll (hother : sc.Free other) : (sc.useAll names).Free other := by
  induction names generalizing sc with
  | nil => exact hother
  | cons name names ih =>
    have hname : sc.Free name := h name (by simp)
    exact ih (fun n hn => hname.use (h n (by simp [hn]))) (hname.use hother)

theorem find?_useAll_of_some (hv : sc.find? other = some v) :
    (sc.useAll names).find? other = some v := by
  induction names generalizing sc with
  | nil => exact hv
  | cons name names ih =>
    have hname : sc.Free name := h name (by simp)
    exact ih (fun n hn => hname.use (h n (by simp [hn]))) (find?_use_of_some hname hv)

/-- Names that were used have a variable. -/
theorem exists_find?_useAll (hmem : name ∈ names) : ∃ v, (sc.useAll names).find? name = some v := by
  induction names generalizing sc with
  | nil => cases hmem
  | cons first names ih =>
    have hfirst : sc.Free first := h first (by simp)
    have hrest : ∀ n ∈ names, (sc.use first).Free n := fun n hn => hfirst.use (h n (by simp [hn]))
    rcases List.mem_cons.1 hmem with rfl | hmem
    · rw [useAll_cons]
      exact ⟨_, find?_useAll_of_some hrest (find?_use_self hfirst)⟩
    · exact ih hrest hmem

end UseAll

theorem useAll_of_some {names : List String} (h : ∀ n ∈ names, ∃ v, sc.find? n = some v) :
    sc.useAll names = sc := by
  induction names with
  | nil => rfl
  | cons name names ih =>
    obtain ⟨v, hv⟩ := h name (by simp)
    rw [useAll_cons, use_of_some hv]
    exact ih fun n hn => h n (by simp [hn])

theorem scriptName_of_some (h : sc.find? name = some v) : sc.scriptName name = v.name := by
  simp [scriptName, h]

theorem scriptName_of_none (h : sc.find? name = none) : sc.scriptName name = identifier name := by
  simp [scriptName, h]

theorem scriptName_use (h : sc.Free name) : (sc.use name).scriptName name = sc.scriptName name := by
  rw [scriptName_of_some (find?_use_self h), scriptName]
  cases sc.find? name <;> rfl

end Scopes

/-- The first use of a name declares it. -/
theorem implicitVariable_gives {tokens : Array Token} {s : State} {name : String}
    (h : s.scopes.find? name = none) :
    Gives tokens s (implicitVariable name) (.implicit name)
      { s with scopes := s.scopes.use name } := by
  rw [Scopes.use_of_none h]
  rfl

end BasicScript
