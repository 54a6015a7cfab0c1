import BasicScript.Proofs.Target

/-!
# Lines of rejections

The pass remembers the line of the last rejection that it reported, and reports no other one on that
line.  This is enough to report the first rejection of every line that has one: a rejection is at a
token on the line of the cursor, and the cursor never goes back (`Refusals`).

* `rejections_rise`: the rejections that are reported stand on ever later lines, and each one that
  is caught stands on one of these lines.
-/

namespace BasicScript

open Emit List

variable {tape : Tape} {level : Level} {s s' : State} {es : List Event} {e : Event} {r : Rejection}

/-! ### Events and rejections -/

/-- No event forgets a diagnostic. -/
theorem Event.collects (hfit : e.Fits tape s) :
    s.collector.toList <+: (e.apply s).collector.toList := by
  cases hinline : e.isInline with
  | false => exact (Event.grows hinline hfit).collected
  | true =>
    cases e with
    | enters | turns | leaves => exact prefix_refl _
    | _ => cases hinline

/-- No event moves the cursor back. -/
theorem Event.position_le (s : State) (e : Event) : s.position ≤ (e.apply s).position := by
  by_cases hmoves : e = .advances ∨ e = .breaks
  · rcases hmoves with rfl | rfl <;> exact Int.le_add_one (Int.le_refl _)
  · rw [not_or] at hmoves
    exact Int.le_of_eq ((e.owns s).position hmoves.1 hmoves.2).symm

/-! ### What is known of rejections -/

/-- The lines of the rejections that were reported, the latest first. -/
def State.refusedLines (s : State) : List Int := s.recorded.map Rejection.line

/-- The rejections that were reported stand on ever later lines, up to the one that the pass
remembers; the cursor is not in front of it.  Each one that was caught stands on one of these
lines. -/
structure Refusals (tape : Tape) (s : State) : Prop where
  behind : ∀ line, tape.LineAt s.position line → s.lastRejectedLine ≤ line
  last : s.lastRejectedLine = 0 ∨ s.lastRejectedLine ∈ s.refusedLines
  bound : ∀ line ∈ s.refusedLines, line ≤ s.lastRejectedLine
  falling : s.refusedLines.Pairwise (· > ·)
  known : ∀ r ∈ s.caught, r.line ∈ s.refusedLines
  caught : s.recorded.Sublist s.caught
  reported : (s.recorded.reverse.map Rejection.diagnostic).Sublist s.collector.toList

namespace Refusals

theorem start (tape : Tape) (collector : Collector) : Refusals tape { collector } where
  behind := by
    rintro line ⟨token, htoken, rfl⟩
    exact Int.le_of_lt (tape.line_pos token (Array.mem_of_getElem? htoken))
  last := .inl rfl
  bound := by simp [State.refusedLines]
  falling := .nil
  known := by simp
  caught := nil_sublist _
  reported := nil_sublist _

/-- The cursor moves on, and a diagnostic is no rejection. -/
theorem grows (h : Refusals tape s) (hs : Sound tape s) (hs' : Sound tape s')
    (hposition : s.position ≤ s'.position)
    (hsame : s'.caught = s.caught ∧ s'.recorded = s.recorded ∧
      s'.lastRejectedLine = s.lastRejectedLine) (hcollected :
      s.collector.toList <+: s'.collector.toList) : Refusals tape s' := by
  obtain ⟨hcaught, hrecorded, hlast⟩ := hsame
  have hlines : s'.refusedLines = s.refusedLines := by rw [State.refusedLines, hrecorded]; rfl
  constructor
  case behind =>
    intro line hline
    obtain ⟨token, hunder⟩ := hs.exists_under
    have hhere : tape.LineAt s.position token.line := ⟨token, hunder, rfl⟩
    obtain ⟨line', hline', hle, -⟩ := hhere.later hs.position_nonneg hposition hs'.position_lt
    rw [hlast, hline.unique hline']
    exact Int.le_trans (h.behind _ hhere) hle
  case last => rw [hlast, hlines]; exact h.last
  case bound => rw [hlast, hlines]; exact h.bound
  case falling => rw [hlines]; exact h.falling
  case known => rw [hcaught, hlines]; exact h.known
  case caught => rw [hcaught, hrecorded]; exact h.caught
  case reported => rw [hrecorded]; exact h.reported.trans hcollected.sublist

/-- A rejection on the line of the last one is only caught. -/
theorem again (h : Refusals tape s) (hr : r.Fits tape s) (hline : r.line = s.lastRejectedLine) :
    Refusals tape (s.catching r) where
  behind := h.behind
  last := h.last
  bound := h.bound
  falling := h.falling
  known := by
    obtain ⟨token, ht, htoken, -⟩ := hr.place
    have hpos := tape.line_pos token ht
    have hlast : r.line ∈ s.refusedLines := by
      rw [hline]
      exact h.last.resolve_left (by omega)
    exact forall_mem_cons.2 ⟨hlast, h.known⟩
  caught := h.caught.cons r
  reported := h.reported

/-- A rejection on another line is on a later one, and it is reported. -/
theorem anew (h : Refusals tape s) (hr : r.Fits tape s) (hline : r.line ≠ s.lastRejectedLine) :
    Refusals tape (State.reported
      { s with caught := r :: s.caught, lastRejectedLine := r.line, recorded := r :: s.recorded }
      r.diagnostic) := by
  have hlater : s.lastRejectedLine < r.line := by
    have := h.behind r.line hr.line
    omega
  have hbelow : ∀ line ∈ s.refusedLines, line < r.line := fun line hmem =>
    Int.lt_of_le_of_lt (h.bound line hmem) hlater
  constructor
  case behind => exact fun line hat => Int.le_of_eq (hr.line.unique hat)
  case last => exact .inr (mem_cons_self ..)
  case bound => exact forall_mem_cons.2 ⟨Int.le_refl _, fun line hmem =>
    Int.le_of_lt (hbelow line hmem)⟩
  case falling => exact pairwise_cons.2 ⟨hbelow, h.falling⟩
  case known =>
    exact forall_mem_cons.2 ⟨mem_cons_self .., fun other hother =>
      mem_cons_of_mem _ (h.known other hother)⟩
  case caught => exact h.caught.cons_cons r
  case reported =>
    simp only [State.reported, Collector.toList_add, reverse_cons, map_append, map_cons, map_nil]
    exact h.reported.append (Sublist.refl _)

/-- **Every event** keeps what is known of rejections. -/
theorem apply (hs : Sound tape s) (h : Refusals tape s) (hfit : e.Fits tape s) :
    Refusals tape (e.apply s) := by
  rcases (e.owns s).refusals with ⟨r, rfl⟩ | hsame
  · rw [Event.apply]
    by_cases hline : r.line = s.lastRejectedLine
    · rw [State.refused_of_eq hline]
      exact h.again hfit hline
    · rw [State.refused_of_ne hline]
      exact h.anew hfit hline
  · exact h.grows hs (hs.apply hfit) (e.position_le s) hsame (Event.collects hfit)

end Refusals

/-- **A run** keeps what is known of rejections. -/
theorem Run.refusals (h : Run tape level s es s') (hs : Sound tape s) (hr : Refusals tape s) :
    Refusals tape s' :=
  h.invariant_of_sound (I := Refusals tape) (fun hs h hfit => h.apply hs hfit) hs hr

/-! ### The pass -/

/-- What is known of rejections where the pass over a source ends. -/
theorem refusals_lastState (source : String) : lastState source = firstState source ∨
    ∃ tape, Refusals tape (lastState source) := by
  cases hread : (Lexer.scan source).fault with
  | some fault => exact .inl (lastState_of_unread hread)
  | none =>
    obtain ⟨s, page, ⟨es, hrun⟩, hlast⟩ := exists_path_lastState hread
    have h := hrun.refusals (sound_start _ _) (.start _ _)
    exact .inr ⟨Tape.ofSource source hread, hlast ▸ { h with }⟩

/-- **Rejections rise.**  Over any source, the rejections that are reported stand on ever later
lines, in the order in which they are reported.  They are among the rejections that are caught and
among the diagnostics.  Every rejection that is caught stands on one of their lines: where there are
any, exactly one is reported. -/
theorem rejections_rise (source : String) :
    ((lastState source).recorded.reverse.map Rejection.line).Pairwise (· < ·) ∧
      (∀ r ∈ (lastState source).caught, r.line ∈ (lastState source).recorded.map Rejection.line) ∧
      (lastState source).recorded.Sublist (lastState source).caught ∧
      ∀ target, ((lastState source).recorded.reverse.map Rejection.diagnostic).Sublist
        (recorded target source) := by
  rcases refusals_lastState source with hlast | ⟨tape, h⟩
  · rw [hlast]
    simp [firstState]
  · refine ⟨?_, h.known, h.caught,
      fun target => h.reported.trans (collector_prefix_recorded source target).sublist⟩
    rw [map_reverse, pairwise_reverse]
    exact h.falling

-- Four are caught, two of them on the first line, in a single-line `IF` and at a record's name.
example :
    let s := lastState "LET 1 : LET 2\nIF 1 THEN LET 3\nTYPE 5\nEND TYPE"
    s.caught.map Rejection.line = [3, 2, 1, 1] ∧ s.recorded.map Rejection.line = [3, 2, 1] := by
  decide +kernel

end BasicScript
