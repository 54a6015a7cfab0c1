import BasicScript.Proofs.Between

/-!
# Shared names

A procedure sees its own names and the shared ones.  A shared name is meant to be one of the module:
the module has it, bound to the variable that is shared.  Two kinds of name stray from that.  A
procedure can share a name of its own, which the module does not know; and a one-line function of
the module with two parameters of one name leaves a new variable under that name.

* `Scopes.Sharing`: what is known of shared names, between events.
* `Run.sharing`: runs keep it.  Inside a loan of names it may fail, so a loan is one step here.
* `shared_in_module_iff`: wherever a statement can begin, a shared name is bound in the module to
  its variable exactly if it does not stray, and this decides what a look-up in a procedure finds.
-/

namespace BasicScript

open Emit Text Lexer List

variable {tape : Tape} {level : Level} {s s₁ s' : State} {es : List Event} {sc sc₁ sc' : Scopes}
    {key name : String}
  {list : List Parameter} {cells : Array Variable} {ref : Ref}

namespace Scopes

theorem strays_mapCurrent (f : Scope → Scope) : (sc.mapCurrent f).strays = sc.strays := by
  unfold mapCurrent
  split <;> rfl

theorem current_eq_root (h : sc.isModule = true) : sc.current = sc.root := by
  rw [current, List.isEmpty_iff.1 h]

theorem current_mem_inner (h : sc.isModule = false) : sc.current ∈ sc.inner := by
  unfold current
  split
  · simp_all [isModule]
  · simp_all

/-! ### New names -/

/-- From some scopes to others: cells are added, and only the current scope changes. -/
structure Spares (sc sc' : Scopes) : Prop where
  cells : sc.cells.size ≤ sc'.cells.size
  shared : sc'.shared = sc.shared
  isModule : sc'.isModule = sc.isModule
  root : sc.isModule = false → sc'.root = sc.root
  rest : sc'.inner.tail = sc.inner.tail

/-- New bindings are to new cells. -/
structure Freshens (sc sc' : Scopes) : Prop extends Spares sc sc' where
  fresh : ∀ key ref, sc'.current.names.get? key = some ref → sc.current.names.get? key = some ref ∨
    sc.cells.size ≤ ref

/-- No binding of the current scope is lost either, and no name strays. -/
structure Extends (sc sc' : Scopes) : Prop extends Freshens sc sc' where
  strays : sc'.strays = sc.strays
  keeps : ∀ key ref, sc.current.names.get? key = some ref → sc'.current.names.get? key = some ref

namespace Spares

theorem refl (sc : Scopes) : sc.Spares sc := ⟨Nat.le_refl _, rfl, rfl, fun _ => rfl, rfl⟩

theorem trans (h : sc.Spares sc₁) (h' : sc₁.Spares sc') : sc.Spares sc' where
  cells := Nat.le_trans h.cells h'.cells
  shared := h'.shared.trans h.shared
  isModule := h'.isModule.trans h.isModule
  root hm := (h'.root (h.isModule.trans hm)).trans (h.root hm)
  rest := h'.rest.trans h.rest

theorem mapCurrent (f : Scope → Scope) (hcells : sc.cells.size ≤ cells.size) :
    sc.Spares (({ sc with cells } : Scopes).mapCurrent f) where
  cells := by rwa [cells_mapCurrent]
  shared := by rw [shared_mapCurrent]
  isModule := by rw [isModule_mapCurrent]; rfl
  root hm := by
    unfold Scopes.mapCurrent
    split
    · simp_all [Scopes.isModule]
    · rfl
  rest := by
    unfold Scopes.mapCurrent
    split <;> simp_all

end Spares

namespace Freshens

theorem trans (h : sc.Freshens sc₁) (h' : sc₁.Freshens sc') : sc.Freshens sc' where
  toSpares := h.toSpares.trans h'.toSpares
  fresh key ref hget := by
    rcases h'.fresh key ref hget with hget | hle
    · exact h.fresh key ref hget
    · exact .inr (Nat.le_trans h.cells hle)

theorem bind (name : String) (v : Variable) :
    sc.Freshens (({ sc with cells := sc.cells.push v } : Scopes).bind name sc.cells.size) := by
  refine ⟨.mapCurrent _ (by simp), fun key ref hget => ?_⟩
  rw [Scopes.bind, current_mapCurrent, Table.get?_insert] at hget
  split at hget
  · cases hget
    exact .inr (Nat.le_refl _)
  · exact .inl hget

end Freshens

namespace Extends

theorem refl (sc : Scopes) : sc.Extends sc where
  toSpares := .refl sc
  fresh _ _ := .inl
  strays := rfl
  keeps _ _ := id

theorem trans (h : sc.Extends sc₁) (h' : sc₁.Extends sc') : sc.Extends sc' where
  toFreshens := h.toFreshens.trans h'.toFreshens
  strays := h'.strays.trans h.strays
  keeps key ref hget := h'.keeps key ref (h.keeps key ref hget)

theorem ofCells (h : sc.cells.size ≤ cells.size) : sc.Extends { sc with cells } :=
  { refl sc with cells := h }

theorem declare (name : String) (v : Variable) : sc.Extends (sc.declare name v).2 := by
  cases h : sc.local? name with
  | none =>
    rw [declare_of_local? h]
    refine ⟨.bind name v, strays_mapCurrent _, fun key ref hget => ?_⟩
    rw [Scopes.bind, current_mapCurrent, Table.get?_insert, if_neg]
    · exact hget
    · rintro rfl
      cases h.symm.trans hget
  | some ref =>
    rw [declare_of_some h]
    split
    · exact ofCells (by simp)
    · exact refl sc

theorem write (d : Declaration) : sc.Extends (sc.write d) := by
  have hnames : (sc.write d).current.names = sc.current.names := by
    rw [Scopes.write, current_mapCurrent]
  refine ⟨⟨.mapCurrent _ (Nat.le_refl _), ?_⟩, strays_mapCurrent _, ?_⟩ <;> rw [hnames]
  · exact fun _ _ => .inl
  · exact fun _ _ => id

end Extends

end Scopes

/-- A quiet run extends the current scope. -/
theorem Run.extends (h : Run tape .quiet s es s') : s.scopes.Extends s'.scopes :=
  h.scopes_of_quiet (R := Scopes.Extends) .refl .trans fun _ name v d =>
    (Scopes.Extends.declare name v).trans (.write d)

/-! ### What is known of shared names -/

/-- No cell has a name both in the module and in a procedure.  A shared name has a cell, which the
module has under that name if and only if the name does not stray. -/
structure Scopes.Sharing (sc : Scopes) : Prop where
  apart : ∀ scope ∈ sc.inner, ∀ key ref, scope.names.get? key = some ref → ∀ key',
    sc.root.names.get? key' ≠ some ref
  known : ∀ key found, sc.shared.get? key = some found → ∃ ref, found = some ref ∧
    ref < sc.cells.size ∧ (sc.root.names.get? key = some ref ↔ key ∉ sc.strays)
  strays : ∀ key ∈ sc.strays, sc.shared.holds key = true

namespace Scopes.Sharing

theorem start (mark indent : Int) : (Scopes.start mark indent).Sharing :=
  ⟨by simp [Scopes.start], by simp [Scopes.start, Table.get?], by simp [Scopes.start]⟩

/-- New names are of new cells, so that cells stay apart. -/
theorem apart_of_freshens (h : sc.Sharing) (hc : sc.Coherent) (hf : sc.Freshens sc') :
    ∀ scope ∈ sc'.inner, ∀ key ref, scope.names.get? key = some ref →
      ∀ key', sc'.root.names.get? key' ≠ some ref := by
  intro scope hscope key ref hget key' hroot
  obtain ⟨first, rest, hinner'⟩ := exists_cons_of_ne_nil (ne_nil_of_mem hscope)
  have hm : sc.isModule = false := by rw [← hf.isModule, Scopes.isModule, hinner']; rfl
  obtain ⟨first₀, rest₀, hinner⟩ : ∃ first₀ rest₀, sc.inner = first₀ :: rest₀ := by
    refine exists_cons_of_ne_nil fun hnil => ?_
    simp [Scopes.isModule, hnil] at hm
  rw [hf.root hm] at hroot
  have hrest : rest = rest₀ := by simpa [hinner', hinner] using hf.rest
  rw [hinner', hrest] at hscope
  rcases mem_cons.1 hscope with rfl | hscope
  · -- A cell that the module names was there before, so it has no new name in the procedure.
    have hcurrent' : sc'.current = scope := by simp [Scopes.current, hinner']
    have hcurrent : sc.current = first₀ := by simp [Scopes.current, hinner]
    rcases hf.fresh key ref (by rwa [hcurrent']) with hget | hle
    · exact h.apart first₀ (by simp [hinner]) key ref (by rwa [hcurrent] at hget) key' hroot
    · exact Nat.not_lt.2 hle ((hc sc.root (by simp)).refs key' ref hroot)
  · exact h.apart scope (by simp [hinner, hscope]) key ref hget key' hroot

end Scopes.Sharing

/-- Old cells keep their names in the module. -/
theorem Scopes.Extends.root_iff (h : sc.Extends sc') (hlt : ref < sc.cells.size) :
    sc'.root.names.get? key = some ref ↔ sc.root.names.get? key = some ref := by
  cases hm : sc.isModule with
  | false => rw [h.root hm]
  | true =>
    rw [← current_eq_root hm, ← current_eq_root (h.isModule.trans hm)]
    refine ⟨fun hget => ?_, h.keeps key ref⟩
    exact (h.fresh key ref hget).resolve_right (Nat.not_le.2 hlt)

namespace Scopes.Sharing

theorem extend (h : sc.Sharing) (hc : sc.Coherent) (he : sc.Extends sc') : sc'.Sharing where
  apart := h.apart_of_freshens hc he.toFreshens
  known key found hfound := by
    obtain ⟨ref, hsome, hlt, hiff⟩ := h.known key found (he.shared ▸ hfound)
    refine ⟨ref, hsome, Nat.lt_of_lt_of_le hlt he.cells, ?_⟩
    rw [he.root_iff hlt, he.strays]
    exact hiff
  strays key hkey := by
    rw [he.shared]
    exact h.strays key (he.strays ▸ hkey)

/-- A name is shared as what it refers to.  If it was not shared before, it is a name of the current
scope. -/
theorem share {found : Option Ref} (h : sc.Sharing) (hc : sc.Coherent)
    (hsome : found.isSome = true) (hlookup : sc.lookup? name = found) :
    (sc.share name found).Sharing := by
  unfold Scopes.share
  dsimp only
  split
  · exact h
  rename_i hnew
  obtain ⟨ref, rfl⟩ := Option.isSome_iff_exists.1 hsome
  have hfree : sc.shared.get? (upper name) = none := by simpa [Table.holds] using hnew
  -- A name that was not shared before is found in the current scope or nowhere.
  have hlocal : sc.current.names.get? (upper name) = some ref := by
    unfold Scopes.lookup? at hlookup
    cases hl : sc.local? name with
    | some ref' =>
      rw [hl] at hlookup
      exact hl.trans hlookup
    | none => simp [hl, hfree] at hlookup
  have hstray : upper name ∉ sc.strays := fun hmem => hnew (h.strays _ hmem)
  refine ⟨h.apart, fun key found hfound => ?_, fun key hkey => ?_⟩
  · dsimp only at hfound ⊢
    rw [Table.get?_insert] at hfound
    split at hfound
    · rename_i hkey
      subst hkey
      cases hfound
      refine ⟨ref, rfl, hc.current.refs _ ref hlocal, ?_⟩
      cases hm : sc.isModule with
      | true => exact iff_of_true (current_eq_root hm ▸ hlocal) hstray
      | false => exact iff_of_false (h.apart _ (current_mem_inner hm) _ _ hlocal _) (by simp)
    · obtain ⟨ref', hsome', hlt, hiff⟩ := h.known key found hfound
      refine ⟨ref', hsome', hlt, hiff.trans ?_⟩
      split <;> simp [*]
  · dsimp only at hkey ⊢
    split at hkey
    · exact holds_insert (h.strays key hkey)
    · rcases mem_cons.1 hkey with rfl | hkey
      · rw [Table.holds, Table.get?_insert, if_pos rfl]
        rfl
      · exact holds_insert (h.strays key hkey)

end Scopes.Sharing

theorem Scopes.Changes.sharing (h : sc.Changes tape sc') (hc : sc.Coherent)
    (hsharing : sc.Sharing) : sc'.Sharing := by
  cases h with
  | same => exact hsharing
  | @names naming hfit =>
    cases naming with
    | declares name v => exact hsharing.extend hc (.declare name v)
    | shares name found => exact hsharing.share hc hfit.1 hfit.2
    | refines ref isArray record => exact hsharing.extend hc (.ofCells (by simp))
  | introduces hkey hadmits => exact hsharing.extend hc ((Extends.declare ..).trans (.write _))
  | defines horigin => exact hsharing.extend hc (.write _)
  | opens hinner hnames hdeclared hhoisted =>
    exact ⟨by simp [hnames, Table.get?], hsharing.known, hsharing.strays⟩
  | closes hinner => exact ⟨by simp, hsharing.known, hsharing.strays⟩

/-! ### Names that are lent -/

namespace Scopes

theorem get?_hide (sc : Scopes) (p : Parameter) (key : String) :
    (sc.hide p).current.names.get? key =
      if key = upper p.name then some sc.cells.size else sc.current.names.get? key := by
  rw [hide, bind, current_mapCurrent, Table.get?_insert]
  rfl

theorem get?_giveBack (sc : Scopes) (name : String) (before : Option Ref) (key : String) :
    (sc.giveBack (name, before)).current.names.get? key =
      if key = upper name then before else sc.current.names.get? key := by
  cases before with
  | none => rw [giveBack, forget, current_mapCurrent, Table.get?_erase]
  | some ref => rw [giveBack, bind, current_mapCurrent, Table.get?_insert]

/-- The capital forms of the names of parameters. -/
def keysOf (list : List Parameter) : List String := (list.map (·.name)).map upper

theorem get?_hideAll (h : key ∉ keysOf list) :
    (sc.hideAll list).current.names.get? key = sc.current.names.get? key := by
  induction list generalizing sc with
  | nil => rfl
  | cons p rest ih =>
    obtain ⟨hne, hrest⟩ : key ≠ upper p.name ∧ key ∉ keysOf rest := by simpa [keysOf] using h
    exact (ih hrest).trans ((get?_hide ..).trans (if_neg hne))

/-- What a name refers to when names were given back.  Of two parameters with one name, the second
found the variable of the first, and that is given back last. -/
theorem get?_regained (list : List Parameter) (sc sc₁ : Scopes) (key : String) :
    ((keysOf list).count key = 0 →
      ((sc.hidden list).foldl giveBack sc₁).current.names.get? key = sc₁.current.names.get? key) ∧
    ((keysOf list).count key = 1 →
      ((sc.hidden list).foldl giveBack sc₁).current.names.get? key = sc.current.names.get? key) ∧
    (1 < (keysOf list).count key → ∃ front p back, list = front ++ p :: back ∧ upper p.name = key ∧
      (keysOf back).count key = 1 ∧ ((sc.hidden list).foldl giveBack sc₁).current.names.get? key =
        ((sc.hideAll front).hide p).current.names.get? key) := by
  induction list generalizing sc sc₁ with
  | nil => simp [keysOf, hidden]
  | cons p rest ih =>
    -- Names are given back in the order in which they were hidden: the last of a name decides.
    obtain ⟨hnone, hone, hmore⟩ := ih (sc.hide p) (sc₁.giveBack (p.name, sc.local? p.name))
    have hkeys : keysOf (p :: rest) = upper p.name :: keysOf rest := rfl
    rw [hkeys, count_cons, hidden, foldl_cons]
    rw [get?_giveBack] at hnone
    by_cases hkey : key = upper p.name
    · subst hkey
      rw [if_pos rfl] at hnone
      simp only [beq_self_eq_true, if_true]
      refine ⟨by omega, fun hcount => hnone (by omega), fun hcount => ?_⟩
      rcases Nat.lt_or_ge 1 ((keysOf rest).count (upper p.name)) with hlt | hle
      · obtain ⟨front, q, back, rfl, hq⟩ := hmore hlt
        exact ⟨p :: front, q, back, rfl, hq⟩
      · exact ⟨[], p, rest, rfl, rfl, by omega, hone (by omega)⟩
    · rw [if_neg hkey] at hnone
      rw [get?_hide, if_neg hkey] at hone
      rw [if_neg (by simpa using fun heq => hkey heq.symm), Nat.add_zero]
      refine ⟨hnone, hone, fun hlt => ?_⟩
      obtain ⟨front, q, back, rfl, hq⟩ := hmore hlt
      exact ⟨p :: front, q, back, rfl, hq⟩

theorem Freshens.hideAll (list : List Parameter) : sc.Freshens (sc.hideAll list) := by
  induction list generalizing sc with
  | nil => exact (Extends.refl sc).toFreshens
  | cons p rest ih => exact (Freshens.bind p.name p.slot).trans ih

theorem strays_hideAll (list : List Parameter) : (sc.hideAll list).strays = sc.strays := by
  induction list generalizing sc with
  | nil => rfl
  | cons p rest ih => exact ih.trans (strays_mapCurrent _)

theorem Spares.regains (before : List (String × Option Ref)) :
    sc.Spares (before.foldl giveBack sc) := by
  induction before generalizing sc with
  | nil => exact .refl sc
  | cons item rest ih =>
    obtain ⟨g, hg⟩ := sc.giveBack_eq item
    exact Spares.trans (hg ▸ .mapCurrent _ (Nat.le_refl _)) ih

theorem strays_regains (before : List (String × Option Ref)) :
    (before.foldl giveBack sc).strays = sc.strays := by
  induction before generalizing sc with
  | nil => rfl
  | cons item rest ih =>
    obtain ⟨g, hg⟩ := sc.giveBack_eq item
    exact ih.trans (hg ▸ strays_mapCurrent _)

theorem mem_strays_lose :
    key ∈ (sc.lose (list.map (·.name))).strays ↔
      sc.isModule = true ∧ sc.shared.holds key = true ∧ 1 < (keysOf list).count key ∨
      key ∈ sc.strays := by
  have hmem : 1 < (keysOf list).count key → key ∈ keysOf list := fun h => count_pos_iff.1 (by omega)
  simp only [lose, mem_append, mem_filter, Bool.and_eq_true, decide_eq_true_eq, and_assoc]
  exact or_congr_left ⟨fun h => h.2, fun h => ⟨hmem h.2.2, h⟩⟩

/-- What is left of a loan, with new names in between. -/
structure Repaid (list : List Parameter) (sc sc' : Scopes) : Prop extends Freshens sc sc' where
  strays : sc'.strays = (sc.lose (list.map (·.name))).strays
  keeps : ∀ key ref, (keysOf list).count key ≤ 1 → sc.current.names.get? key = some ref →
    sc'.current.names.get? key = some ref
  loses : ∀ key ref, 1 < (keysOf list).count key → sc'.current.names.get? key = some ref →
    sc.cells.size ≤ ref

/-- Names are lent, there are new names, and the names are given back. -/
theorem Extends.repaid (h : ((sc.lose (list.map (·.name))).hideAll list).Extends sc₁) :
    sc.Repaid list ((sc.hidden list).foldl giveBack sc₁) := by
  have hlose : sc.Freshens (sc.lose (list.map (·.name))) := { Extends.refl sc with }
  have hlent := hlose.trans (.hideAll list)
  have hfront (key : String) (hcount : (keysOf list).count key = 0) :
      ((sc.lose (list.map (·.name))).hideAll list).current.names.get? key =
        sc.current.names.get? key :=
    get?_hideAll (count_eq_zero.1 hcount)
  have hloses (key : String) (ref : Ref) (hcount : 1 < (keysOf list).count key)
      (hget : ((sc.hidden list).foldl giveBack sc₁).current.names.get? key = some ref) :
      sc.cells.size ≤ ref := by
    obtain ⟨front, p, back, -, hp, -, hp'⟩ := (get?_regained list sc sc₁ key).2.2 hcount
    rw [hp', get?_hide, if_pos hp.symm] at hget
    cases hget
    exact (Freshens.hideAll front).cells
  refine ⟨⟨(hlent.toSpares.trans h.toSpares).trans (.regains _), fun key ref hget => ?_⟩,
    strays_regains _ |>.trans (h.strays.trans (strays_hideAll list)), fun key ref hcount hget => ?_,
    hloses⟩ <;> obtain ⟨hnone, hone, -⟩ := get?_regained list sc sc₁ key
  · rcases Nat.lt_trichotomy ((keysOf list).count key) 1 with hlt | heq | hgt
    · rw [hnone (by omega)] at hget
      rcases h.fresh key ref hget with hold | hnew
      · exact .inl ((hfront key (by omega)).symm.trans hold)
      · exact .inr (Nat.le_trans hlent.cells hnew)
    · exact .inl ((hone heq).symm.trans hget)
    · exact .inr (hloses key ref hgt hget)
  · rcases Nat.lt_or_eq_of_le hcount with hlt | heq
    · rw [hnone (by omega)]
      exact h.keeps key ref ((hfront key (by omega)).trans hget)
    · exact (hone heq).trans hget

/-- A loan that is over keeps what is known of shared names: a name with two parameters strays. -/
theorem Sharing.repaid (h : sc.Sharing) (hc : sc.Coherent) (hr : sc.Repaid list sc') :
    sc'.Sharing where
  apart := h.apart_of_freshens hc hr.toFreshens
  known key found hfound := by
    rw [hr.shared] at hfound
    obtain ⟨ref, hsome, hlt, hiff⟩ := h.known key found hfound
    refine ⟨ref, hsome, Nat.lt_of_lt_of_le hlt hr.cells, ?_⟩
    have hholds : sc.shared.holds key = true := by rw [Table.holds, hfound]; rfl
    rw [hr.strays, mem_strays_lose]
    cases hm : sc.isModule with
    | false =>
      -- A loan inside a procedure does not touch the module, and no name strays.
      simpa [hr.root hm] using hiff
    | true =>
      rw [← current_eq_root (hr.isModule.trans hm)]
      rw [← current_eq_root hm] at hiff
      by_cases hcount : 1 < (keysOf list).count key
      · refine iff_of_false (fun hget => ?_) (by simp [hholds, hcount])
        exact Nat.not_le.2 hlt (hr.loses key ref hcount hget)
      · have hsame : sc'.current.names.get? key = some ref ↔ sc.current.names.get? key = some ref :=
          ⟨fun hget => (hr.fresh key ref hget).resolve_right (Nat.not_le.2 hlt),
            hr.keeps key ref (Nat.not_lt.1 hcount)⟩
        simpa [hcount, hsame] using hiff
  strays key hkey := by
    rw [hr.strays, mem_strays_lose] at hkey
    rw [hr.shared]
    rcases hkey with ⟨-, hholds, -⟩ | hkey
    · exact hholds
    · exact h.strays key hkey

end Scopes

/-! ### Runs -/

/-- **A run** keeps what is known of shared names. -/
theorem Run.sharing (h : Run tape level s es s') (hs : Sound tape s) (hsharing : s.scopes.Sharing) :
    s'.scopes.Sharing := by
  induction h with
  | nil => exact hsharing
  | step hlevel hfit _ ih =>
    exact ih (hs.apply hfit) ((Event.changes hs hfit (Level.isLoan_of_allows hlevel)).sharing
      hs.scopes hsharing)
  | branch _ henter first hleave _ ih₁ ih =>
    have hs₁ := first.sound (hs.apply henter)
    exact ih (hs₁.apply hleave) (ih₁ (hs.apply henter) hsharing)
  | branches _ henter first hturn second hleave _ ih₁ ih₂ ih =>
    have hs₁ := first.sound (hs.apply henter)
    have hs₂ := second.sound (hs₁.apply hturn)
    exact ih (hs₂.apply hleave) (ih₂ (hs₁.apply hturn) (ih₁ (hs.apply henter) hsharing))
  | lending _ hlend first hquiet hregain _ _ ih =>
    have hs₁ := first.sound (hs.apply hlend)
    exact ih (hs₁.apply hregain) (hsharing.repaid hs.scopes (first.hush hquiet).extends.repaid)

/-- Wherever a statement can begin, the shared names are known. -/
theorem Visited.sharing (h : Visited tape s) : s.scopes.Sharing := by
  induction h with
  | start collector => exact .start 0 1
  | run h hrun ih => exact hrun.sharing h.sound ih
  | enters _ _ ih | turns _ _ ih => exact ih

theorem Begun.sharing {depth : Nat} (h : Begun tape depth s) : s.scopes.Sharing := h.visited.sharing

/-! ### Look-ups -/

/-- A name that a procedure does not have is looked up among the shared names. -/
theorem Scopes.Sharing.lookup (h : sc.Sharing) (hlocal : sc.local? name = none)
    (hlookup : sc.lookup? name = some ref) :
    sc.root.names.get? (upper name) = some ref ↔ upper name ∉ sc.strays := by
  rw [Scopes.lookup?, hlocal] at hlookup
  dsimp only at hlookup
  split at hlookup
  · cases hlookup
  · obtain ⟨_, ⟨⟩, -, hiff⟩ := h.known _ _ (Option.join_eq_some_iff.1 hlookup)
    exact hiff

/-- **Shared names.**  Wherever a statement of a source can begin, every shared name has a variable,
and the module has that variable under the name exactly if the name does not stray.  So what a
procedure finds that it did not declare is a variable of the module, unless the name strays. -/
theorem shared_in_module_iff (source : String) (hread : (scan source).fault = none)
    (collector : Collector) (depth : Nat) (s : State)
    (hbetween : Between (scan source).tokens.toArray collector depth s) :
    (∀ key found, s.scopes.shared.get? key = some found → ∃ ref, found = some ref ∧
      (s.scopes.cell? ref).isSome = true ∧
      (s.scopes.root.names.get? key = some ref ↔ key ∉ s.scopes.strays)) ∧
    (∀ name ref, s.scopes.lookup? name = some ref → s.scopes.local? name = none →
      (s.scopes.root.names.get? (upper name) = some ref ↔ upper name ∉ s.scopes.strays)) ∧
    ∀ key ∈ s.scopes.strays, s.scopes.shared.holds key = true := by
  have hbegun : Begun (Tape.ofSource source hread) depth s := .of_between hbetween
  have hsharing := hbegun.sharing
  refine ⟨fun key found hfound => ?_, fun name ref hlookup hlocal => hsharing.lookup hlocal hlookup,
    hsharing.strays⟩
  obtain ⟨ref, hsome, hlt, hiff⟩ := hsharing.known key found hfound
  exact ⟨ref, hsome, by simp [Scopes.cell?, hlt], hiff⟩

/-- What a procedure finds under a name in front of a turn: whether it has the name itself, the cell
that it finds, the cell that the module has, and the names that stray. -/
def found? (source name : String) (turns : Nat) :
    Option (Bool × Option Ref × Option Ref × List String) :=
  (turnAt? source turns).map fun s =>
    ((s.scopes.local? name).isSome, s.scopes.lookup? name, s.scopes.root.names.get? (upper name),
      s.scopes.strays)

/-- A procedure that uses a name that the module shares. -/
def sharedByModule : String := "DIM SHARED x\nSUB f\ny = x\nIF y THEN x = 2\nEND SUB"

theorem procedure_finds_shared_name :
    ∃ s, Between (scan sharedByModule).tokens.toArray {}
        ((scan sharedByModule).tokens.toArray.size + 1) s ∧
      s.scopes.local? "x" = none ∧ s.scopes.lookup? "x" = some 0 ∧ s.scopes.strays = [] ∧
      s.scopes.root.names.get? (upper "x") = some 0 := by
  have hfound : found? sharedByModule "x" 6 = some (false, some 0, some 0, []) := by decide +kernel
  obtain ⟨s, hturn, hs⟩ := Option.map_eq_some_iff.1 hfound
  simp only [Prod.mk.injEq, Option.isSome_eq_false_iff, Option.isNone_iff_eq_none] at hs
  obtain ⟨hlocal, hlookup, -, hstrays⟩ := hs
  have hbetween := between_of_turnAt? hturn
  obtain ⟨-, hfinds, -⟩ := shared_in_module_iff sharedByModule (by decide +kernel) {} _ s hbetween
  exact ⟨s, hbetween, hlocal, hlookup, hstrays, (hfinds "x" 0 hlookup hlocal).2 (by simp [hstrays])⟩

/-- A procedure that shares a name of its own, and another one that uses the name. -/
def sharedByProcedure : String := "SUB a\nDIM SHARED x\nEND SUB\nSUB b\nPRINT x\nEND SUB"

/-- Without any report, the second procedure finds the variable of the first, which the module does
not know. -/
theorem procedure_finds_stray_name :
    (∃ s, Between (scan sharedByProcedure).tokens.toArray {}
        ((scan sharedByProcedure).tokens.toArray.size + 1) s ∧
      s.scopes.local? "x" = none ∧ s.scopes.lookup? "x" = some 0 ∧
      s.scopes.root.names.get? (upper "x") = none) ∧
    ∃ s, pass (scan sharedByProcedure).tokens.toArray {} = .ok () s ∧ ¬HasError s.collector.toList ∧
      s.page.render Script.indentUnit =
        ["  async function a() \x7b", "    let x = 0;", "  \x7d", "  async function b() \x7b",
          "    _print(x, true);", "  \x7d"] := by
  constructor
  · have hfound : found? sharedByProcedure "x" 8 = some (false, some 0, none, ["X"]) := by
      decide +kernel
    obtain ⟨s, hturn, hs⟩ := Option.map_eq_some_iff.1 hfound
    simp only [Prod.mk.injEq, Option.isSome_eq_false_iff, Option.isNone_iff_eq_none] at hs
    exact ⟨s, between_of_turnAt? hturn, hs.1, hs.2.1, hs.2.2.1⟩
  · have houtcome : outcome? sharedByProcedure =
        some (["  async function a() \x7b", "    let x = 0;", "  \x7d",
        "  async function b() \x7b", "    _print(x, true);", "  \x7d"], false) := by decide +kernel
    obtain ⟨s, hpass, hlines, herrs⟩ := pass_of_outcome? false houtcome
    exact ⟨s, hpass, by simp [herrs], hlines⟩

end BasicScript
