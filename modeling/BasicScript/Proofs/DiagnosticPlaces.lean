import BasicScript.Proofs.Target

/-!
# The places of diagnostics

A diagnostic is made from the token at the cursor, from a keyword that was read before, from a name
with dots, or from a block that is given up.  All of them have the place of a token.  An event adds
at most one diagnostic, and at such a place (`Event.collector_cases`); those that reading the source
adds stand at the strings that are not closed.

* `diagnostics_at_tokens`: every diagnostic that reading a source and the pass over it record has
  the place of one of its tokens, also where the pass fails.
-/

namespace BasicScript

open Lexer List

variable {tape : Tape} {level : Level} {s s' : State} {es : List Event} {e : Event}

/-! ### The pass -/

/-- **What an event adds** to the diagnostics: nothing, or one that has the place of a token. -/
theorem Event.collector_cases (hs : Sound tape s) (hfit : e.Fits tape s) :
    (e.apply s).collector = s.collector ∨
    ∃ d, (e.apply s).collector = s.collector.add d ∧ tape.Has d.line d.column := by
  have hdrawn := Event.drawn_eq s (e := e)
  cases e with
  | reports d => exact .inr ⟨d, rfl, hfit.1⟩
  | records r =>
    rw [Event.apply]
    by_cases hline : r.line = s.lastRejectedLine
    · rw [State.refused_of_eq hline]
      exact .inl rfl
    · rw [State.refused_of_ne hline]
      exact .inr ⟨r.diagnostic, rfl, hfit.place⟩
  | abandons =>
    obtain ⟨block, rest, hb⟩ := exists_cons_of_ne_nil hfit
    have hblock : block.Fits tape := hs.blocks block (by rw [hb]; exact mem_cons_self ..)
    obtain ⟨page, scopes, he⟩ := State.abandons_eq hb
    rw [he]
    exact .inr ⟨_, rfl, hblock.place⟩
  | enrols entry => cases entry <;> exact .inl rfl
  | introduces | defines | tests | elses | ends =>
    obtain ⟨page, scopes, blocks, removed, ds, he, -, hds⟩ := hdrawn rfl
    obtain rfl := hds.resolve_left (by simp)
    rw [he]
    exact .inl rfl
  | _ => exact .inl rfl

/-- Every diagnostic has the place of a token. -/
def Pinned (tape : Tape) (s : State) : Prop := ∀ d ∈ s.collector.toList, tape.Has d.line d.column

/-- **Every event** keeps the diagnostics at tokens. -/
theorem Pinned.apply (hs : Sound tape s) (h : Pinned tape s) (hfit : e.Fits tape s) :
    Pinned tape (e.apply s) := by
  rcases Event.collector_cases hs hfit with hsame | ⟨d, hadds, hplace⟩
  · rw [Pinned, hsame]
    exact h
  · rw [Pinned, hadds, Collector.toList_add]
    exact forall_mem_append.2 ⟨h, by simpa using hplace⟩

/-- **A run** does. -/
theorem Run.pinned (h : Run tape level s es s') (hs : Sound tape s) (hpinned : Pinned tape s) :
    Pinned tape s' :=
  h.invariant_of_sound (I := Pinned tape) (fun hs h hfit => h.apply hs hfit) hs hpinned

/-! ### Reading -/

/-- A warning on a string that is not closed has the place of its token. -/
theorem Lexer.warnings_at_tokens (pieces : List Piece) (place : Place) :
    ∀ d ∈ (scanFrom place pieces).warnings,
    ∃ token ∈ (scanFrom place pieces).tokens, token.line = d.line ∧ token.column = d.column := by
  induction pieces generalizing place with
  | nil => exact forall_mem_nil _
  | cons piece rest ih =>
    rw [scanFrom]
    split
    · exact ih _
    · rename_i kind text _
      intro d hd
      rcases mem_append.1 hd with hd | hd
      · refine ⟨⟨kind, text, place.line, place.column⟩, mem_cons_self .., ?_⟩
        unfold Piece.warnings at hd
        split at hd
        · rw [mem_singleton.1 hd]
          exact ⟨rfl, rfl⟩
        · cases hd
      · obtain ⟨token, htoken, hplace⟩ := ih _ d hd
        exact ⟨token, mem_cons_of_mem _ htoken, hplace⟩
    · exact forall_mem_nil _

/-! ### All diagnostics -/

/-- A diagnostic has the place of a token of a source. -/
def Diagnostic.AtToken (source : String) (d : Diagnostic) : Prop :=
  ∃ token ∈ (scan source).tokens, token.line = d.line ∧ token.column = d.column

theorem firstState_at_tokens (source : String) :
    ∀ d ∈ (firstState source).collector.toList, d.AtToken source := by
  rw [firstState, Collector.toList_addAll, Collector.toList_empty, nil_append]
  exact fun d hd => warnings_at_tokens _ _ d hd

theorem lastState_at_tokens (source : String) :
    ∀ d ∈ (lastState source).collector.toList, d.AtToken source := by
  cases hread : (scan source).fault with
  | some fault => rw [lastState_of_unread hread]; exact firstState_at_tokens source
  | none =>
    obtain ⟨s, page, ⟨es, hrun⟩, hlast⟩ := exists_path_lastState hread
    have hfirst : Pinned (Tape.ofSource source hread) (firstState source) := by
      intro d hd
      obtain ⟨token, htoken, hplace⟩ := firstState_at_tokens source d hd
      exact ⟨token, mem_toArray.2 htoken, hplace⟩
    rw [hlast]
    intro d hd
    obtain ⟨token, htoken, hplace⟩ := hrun.pinned (sound_start _ _) hfirst d hd
    exact ⟨token, mem_toArray.1 htoken, hplace⟩

/-- Where nothing fails, what is recorded is what the last state of the pass has. -/
theorem recorded_of_no_failure {source : String} {target : Target}
    (h : (Generated.ofScan target (scan source)).failure = none) :
    recorded target source = (lastState source).collector.toList := by
  rcases generated_cases source with ⟨fault, -, hfailed⟩ | ⟨-, s, values, -, -, hlast, hgenerated⟩
  · rw [hfailed target] at h
    cases h
  · rw [recorded, hgenerated, hlast]

/-- **Diagnostics stand at tokens.**  Each diagnostic that is recorded while a source is read and
while the pass goes over it has the line and the column of one of the tokens of the source, also
where the pass fails.  Where nothing fails there are no others, for any target. -/
theorem diagnostics_at_tokens (source : String) :
    (∀ d ∈ (lastState source).collector.toList, d.AtToken source) ∧
      ∀ target, (Generated.ofScan target (scan source)).failure = none →
        ∀ d ∈ recorded target source, d.AtToken source := by
  refine ⟨lastState_at_tokens source, fun target hnone => ?_⟩
  rw [recorded_of_no_failure hnone]
  exact lastState_at_tokens source

-- A block that is never closed is reported at its keyword, when the whole source was read.
example :
    (recorded .node "DO\nPRINT \"a\n  NEXT").map (fun d => (d.line, d.column)) =
    [(2, 7), (3, 3), (1, 1)] := by
  decide +kernel

end BasicScript
