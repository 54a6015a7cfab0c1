import BasicScript.Proofs.Does

/-!
# What the cursor does

The token under the cursor is always there, and moving on from any token but the last one uses it
up.  So a token that was asked for and found is used up (`took`), the loops that skip tokens end,
and a list with commas between its items has one comma less to go in each turn (`commaList_does`).
-/

namespace BasicScript

open Emit

variable {tape : Tape} {level : Level} {s s' : State} {α β : Type}
    {what word mark sign message text : String}
  {test : Token → Bool} {category : Category} {Q : α → State → Prop}
    {token : Token} {tokens : Array Token}
  {suggestions : List String} {f : β → Emit α} {r : Rejection} {item : Emit α}

/-! ### The token under the cursor -/

/-- The token under the cursor. -/
def Tape.Under (tape : Tape) (s : State) (token : Token) : Prop :=
  tape.tokens[s.position.toNat]? = some token

namespace Tape.Under

theorem mem (h : tape.Under s token) : token ∈ tape.tokens := Array.mem_of_getElem? h

/-- There is a token behind the one under the cursor, unless this is the end of the input. -/
theorem endsLine_iff (h : tape.Under s token) :
    tape.EndsLine s.position ↔ token.kind = .newline := by
  refine ⟨fun hends => ?_, fun hk => ⟨token, h, hk⟩⟩
  obtain ⟨t, ht, hk⟩ := hends
  cases Option.some.inj (ht.symm.trans h)
  exact hk

theorem lt_size_iff (h : tape.Under s token) (hs : Sound tape s) :
    s.position + 1 < tape.tokens.size ↔ token.kind ≠ .endOfInput := by
  obtain ⟨hlt, rfl⟩ := Array.getElem?_eq_some_iff.1 h
  have hpos := hs.position_nonneg
  rw [ne_eq, tape.kind_iff _ hlt]
  omega

end Tape.Under

/-- A token on the line of the cursor. -/
structure Tape.OnLine (tape : Tape) (s : State) (token : Token) : Prop where
  mem : token ∈ tape.tokens
  line : tape.LineAt s.position token.line

theorem Tape.Under.onLine (h : tape.Under s token) : tape.OnLine s token := ⟨h.mem, token, h, rfl⟩

theorem Tape.OnLine.later (h : tape.OnLine s token) (hs : Sound tape s) (hs' : Sound tape s')
    (hle : s.position ≤ s'.position) (hline : tape.InLine s.position s'.position) :
    tape.OnLine s' token := by
  obtain ⟨line, hat, -, hsame⟩ := h.line.later hs.position_nonneg hle hs'.position_lt
  exact ⟨h.mem, hsame hline ▸ hat⟩

/-- The cursor is behind a token inside a line. -/
theorem Tape.Under.behind (h : tape.Under s token) (hk : token.endsLine = false)
    (hs : Sound tape s) (hs' : Sound tape s') (hp : s'.position = s.position + 1) :
    tape.OnLine s' token := by
  refine h.onLine.later hs hs' (by omega) fun place hstart hstop => ?_
  obtain rfl : place = s.position := by omega
  rw [h.endsLine_iff]
  rintro hnewline
  simp [Token.endsLine, hnewline] at hk

/-- An action within a line leaves the cursor on it. -/
theorem Does.onLine {x : Emit α} (h : Does tape level s x Q) (hl : level ≠ .full)
    (ht : tape.OnLine s token) : Does tape level s x fun a s' => tape.OnLine s' token ∧ Q a s' :=
  h.along fun hs _ _ _ hpath hq =>
    ⟨ht.later hs (hpath.sound hs) hpath.grows.position (hpath.inLine_of_ne hl), hq⟩

theorem Tape.has (h : token ∈ tape.tokens) : tape.Has token.line token.column :=
  ⟨token, h, rfl, rfl⟩

theorem Tape.at?_eq (tape : Tape) {position : Int} (h : 0 ≤ position)
    (h' : position < tape.tokens.size) :
    ∃ token ∈ tape.tokens, tape.tokens[position.toNat]? = some token ∧
      Sequence.at? tape.tokens position = some token := by
  obtain ⟨n, rfl⟩ := Int.eq_ofNat_of_zero_le h
  have hlt : n < tape.tokens.size := by omega
  exact ⟨tape.tokens[n], Array.getElem_mem hlt, by simp, by
    simp [Sequence.at?, Sequence.resolve_natCast, hlt]⟩

theorem current_sees : Sees tape s current (tape.Under s) := by
  refine .ofSound fun hs => .read (.get (fun _ => rfl) ?_)
  obtain ⟨token, -, hunder, hat⟩ := tape.at?_eq hs.position_nonneg hs.position_lt
  rw [hat]
  exact .pure hunder

theorem peek_sees : Sees tape s (peek 1) fun token => token ∈ tape.tokens ∧
    (s.position + 1 < tape.tokens.size →
      tape.tokens[(s.position + 1).toNat]? = some token) := by
  refine .ofSound fun hs => .read (.get (fun _ => rfl) ?_)
  extract_lets next place
  have hsize := tape.size_pos
  have hpos := hs.position_nonneg
  have h₀ : 0 ≤ place := by simp only [place, next]; split <;> omega
  have h₁ : place < tape.tokens.size := by simp only [place, next]; split <;> omega
  obtain ⟨token, hmem, hunder, hat⟩ := tape.at?_eq h₀ h₁
  rw [hat]
  refine .pure ⟨hmem, fun hlt => ?_⟩
  have hplace : place = s.position + 1 := if_neg (by omega)
  rwa [hplace] at hunder

/-- The token in front of the cursor tells whether a line was ended there. -/
theorem previous_sees : Sees tape s previous fun front =>
    tape.EndsLine (s.position - 1) → 0 < s.position → front.any (·.kind = .newline) = true := by
  refine .ofSound fun hs => .get (fun _ => rfl) ?_
  extract_lets position
  split
  · exact .pure fun _ hpos => absurd hpos (by omega)
  · refine .read ?_
    have h₀ : 0 ≤ position - 1 := by have := hs.position_nonneg; omega
    have h₁ : position - 1 < tape.tokens.size := by have := hs.position_lt; omega
    obtain ⟨token, -, hunder, hat⟩ := tape.at?_eq h₀ h₁
    rw [hat]
    refine .pure fun hends _ => ?_
    obtain ⟨t, ht, hk⟩ := hends
    cases Option.some.inj (ht.symm.trans hunder)
    simpa using hk

/-- A test of the token under the cursor. -/
def Tested (tape : Tape) (s : State) (p : Token → Prop) (b : Bool) : Prop :=
  ∃ token, tape.Under s token ∧ (b = true ↔ p token)

theorem tested_sees : Sees tape s (do return test (← current)) (Tested tape s (test · = true)) :=
  current_sees.seen fun token ht => .pure ⟨token, ht, Iff.rfl⟩

theorem atEnd_sees : Sees tape s atEnd (Tested tape s (·.kind = .endOfInput)) :=
  current_sees.seen fun token ht => .pure ⟨token, ht, decide_eq_true_iff⟩

theorem atKind_sees {kind : Kind} : Sees tape s (atKind kind) (Tested tape s (·.kind = kind)) :=
  current_sees.seen fun token ht => .pure ⟨token, ht, decide_eq_true_iff⟩

theorem atKeyword_sees : Sees tape s (atKeyword word) (Tested tape s (·.isKeyword word = true)) :=
  tested_sees

theorem atMark_sees : Sees tape s (atMark mark) (Tested tape s (·.isMark mark = true)) :=
  tested_sees

theorem atLabel_sees : Sees tape s atLabel (Tested tape s (·.isLabel = true)) := tested_sees

theorem atLineEnd_sees : Sees tape s atLineEnd (Tested tape s (·.endsLine = true)) := tested_sees

theorem atStatementEnd_sees : Sees tape s atStatementEnd (Tested tape s (·.endsStatement = true)) :=
  tested_sees

theorem atGap_sees : Sees tape s atGap fun _ => True := current_sees.seen fun _ _ => .pure trivial

theorem atWord_sees :
    Sees tape s (atWord word) fun b => ∃ token, tape.Under s token ∧
      (b = true → token.isWord = true) :=
  current_sees.seen fun token ht => .pure ⟨token, ht, fun h => (Bool.and_eq_true_iff.1 h).1⟩

theorem atLineStart_sees : Sees tape s atLineStart fun _ => True :=
  previous_sees.seen fun front _ => by cases front <;> exact .pure trivial

theorem Sound.exists_under (hs : Sound tape s) : ∃ token, tape.Under s token :=
  have ⟨token, _, hunder, _⟩ := tape.at?_eq hs.position_nonneg hs.position_lt
  ⟨token, hunder⟩

/-! ### Moving on -/

/-- Moving on within a line, or behind the end of it where that is allowed. -/
theorem advance_completes (h : tape.Under s token) (hl : level = .full ∨ token.kind ≠ .newline) :
    Completes tape level s advance fun t s' => t = token ∧
      s'.position = if token.kind = .endOfInput then s.position else s.position + 1 := by
  refine .ofSound fun hs => current_sees.followed fun t ht => ?_
  obtain rfl : t = token := Option.some.inj (ht.symm.trans h)
  extract_lets jp
  split
  · rename_i hk
    have hsize := (ht.lt_size_iff hs).2 hk
    refine Completes.bind (Q := fun _ s' => s'.position = s.position + 1) ?_ fun _ s' _ hp =>
      .pure ⟨rfl, hp⟩
    by_cases hn : t.kind = .newline
    · obtain rfl : level = .full := hl.resolve_right (not_not_intro hn)
      exact .event .breaks (fun _ => rfl) rfl ⟨hsize, ht.endsLine_iff.2 hn⟩ rfl
    · exact .event .advances (fun _ => rfl) (Level.allows_of_isQuiet rfl) ⟨hsize,
        mt ht.endsLine_iff.1 hn⟩ rfl
  · rename_i hk
    exact .pure ⟨rfl, by rw [if_pos (not_not.1 hk)]⟩

/-- Looking at the token under the cursor changes nothing. -/
theorem current_eq (h : current tokens s = .ok token s') : s' = s := by
  have hread : (read : Emit (Array Token)) tokens s = .ok tokens s := rfl
  have hget : (get : Emit State) tokens s = .ok s s := rfl
  rw [current, bind_ok hread, bind_ok hget] at h
  cases hat : Sequence.at? tokens s.position <;> rw [hat] at h <;> cases h
  rfl

/-- Moving on changes the cursor alone. -/
theorem advance_eq (h : advance tokens s = .ok token s') :
    ∃ position, s' = { s with position } := by
  cases hcurrent : current tokens s with
  | error failure s₁ =>
    rw [advance, bind_error hcurrent] at h
    cases h
  | ok found s₁ =>
    obtain rfl : s₁ = s := current_eq hcurrent
    rw [advance, bind_ok hcurrent] at h
    split at h
    · cases h
      exact ⟨_, rfl⟩
    · cases h
      exact ⟨_, rfl⟩

theorem Token.kind_of_endsLine (h : token.endsLine = false) :
    token.kind ≠ .newline ∧ token.kind ≠ .endOfInput := by
  simpa [Token.endsLine] using h

theorem advance_from (h : tape.Under s token) (hk : token.endsLine = false) :
    Does tape level s advance fun t s' => t = token ∧ s'.position = s.position + 1 := by
  obtain ⟨hnewline, hend⟩ := Token.kind_of_endsLine hk
  exact (advance_completes h (.inr hnewline)).does.mono fun _ _ _ hq =>
    ⟨hq.1, hq.2.trans (if_neg hend)⟩

theorem advance_past (h : tape.Under s token) (hk : token.kind ≠ .endOfInput) :
    Does tape .full s advance fun t s' => t = token ∧ s'.position = s.position + 1 :=
  (advance_completes h (.inl rfl)).does.mono fun _ _ _ hq => ⟨hq.1, hq.2.trans (if_neg hk)⟩

theorem Token.kind_of_isKeyword (h : token.isKeyword word = true) : token.kind = .keyword := by
  simp only [Token.isKeyword, Bool.and_eq_true, decide_eq_true_eq] at h
  exact h.1

theorem Token.kind_of_isOperator (h : token.isOperator sign = true) : token.kind = .operator := by
  simp only [Token.isOperator, Bool.and_eq_true, decide_eq_true_eq] at h
  exact h.1

theorem Token.kind_of_isMark (h : token.isMark mark = true) : token.kind = .punctuation := by
  simp only [Token.isMark, Bool.and_eq_true, decide_eq_true_eq] at h
  exact h.1

theorem Token.kind_of_isLabel (h : token.isLabel = true) :
    token.kind = .identifier ∨ token.kind = .number := by
  simpa [Token.isLabel] using h

theorem advance_does : Acts tape .full s advance :=
  .ofSound fun hs =>
    have ⟨_, h⟩ := hs.exists_under
    (advance_completes h (.inl rfl)).does.mono fun _ _ _ _ => trivial

/-! Words, signs and marks stand inside a line. -/

theorem Token.endsLine_of_isKeyword (h : token.isKeyword word = true) : token.endsLine = false := by
  simp [Token.endsLine, Token.kind_of_isKeyword h]

theorem Token.endsLine_of_isOperator (h : token.isOperator sign = true) :
    token.endsLine = false := by
  simp [Token.endsLine, Token.kind_of_isOperator h]

theorem Token.endsLine_of_isMark (h : token.isMark mark = true) : token.endsLine = false := by
  simp [Token.endsLine, Token.kind_of_isMark h]

theorem Token.endsLine_of_isWord (h : token.isWord = true) : token.endsLine = false := by
  rcases Token.kind_of_isWord h with h | h <;> simp [Token.endsLine, h]

theorem Token.endsLine_of_isLabel (h : token.isLabel = true) : token.endsLine = false := by
  rcases Token.kind_of_isLabel h with h | h <;> simp [Token.endsLine, h]

/-- What comes of a token that may be there: it was used up, or nothing happened. -/
def Took (s : State) (b : Bool) (s' : State) : Prop :=
  (b = true → s.position < s'.position) ∧ (b = false → s' = s)

/-- The same, with the test that the token under the cursor passed or not. -/
def Tape.Took (tape : Tape) (test : Token → Bool) (s : State) (b : Bool) (s' : State) : Prop :=
  ∃ token, tape.Under s token ∧ test token = b ∧ if b then s'.position = s.position + 1 else s' = s

theorem take_tests (htest : ∀ t, test t = true → t.endsLine = false) :
    Does tape level s (take test) (tape.Took test s) := by
  refine current_sees.bind fun token ht => ?_
  split
  · rename_i h
    exact (advance_from ht (htest token h)).bind fun _ _ _ ⟨_, hp⟩ => .pure ⟨token, ht, h, hp⟩
  · exact .pure ⟨token, ht, Bool.eq_false_iff.2 ‹_›, rfl⟩

theorem take_does (htest : ∀ t, test t = true → t.endsLine = false) :
    Does tape level s (take test) (Took s) := by
  refine (take_tests htest).mono fun b s' _ ⟨_, _, _, hs'⟩ => ?_
  cases b with
  | true => exact ⟨fun _ => by rw [if_pos rfl] at hs'; omega, nofun⟩
  | false => exact ⟨nofun, fun _ => hs'⟩

theorem takeKeyword_does : Does tape level s (takeKeyword word) (Took s) :=
  take_does fun _ => Token.endsLine_of_isKeyword

theorem takeOperator_does : Does tape level s (takeOperator sign) (Took s) :=
  take_does fun _ => Token.endsLine_of_isOperator

theorem takeMark_does : Does tape level s (takeMark mark) (Took s) :=
  take_does fun _ => Token.endsLine_of_isMark

/-! ### Rejections and reports -/

theorem apart_expected : Apart ("Expected " ++ text) :=
  Apart.append (.of_letters rfl rfl)

theorem apart_reserved : Apart ("Reserved word '" ++ text) :=
  Apart.append (.of_letters rfl rfl)

theorem rejectAt_does (ht : tape.OnLine s token) (hm : Apart message) :
    Does tape level s (rejectAt token message category suggestions) Q :=
  .fails (fun _ => rfl) (.rejected ⟨tape.has ht.mem, ht.line, hm⟩)

theorem rejectHere_does (hm : Apart message) : Does tape level s (rejectHere message) Q :=
  current_sees.bind fun _ ht =>
    .fails (fun _ => rfl) (.rejected ⟨tape.has ht.mem, ht.onLine.line, hm⟩)

theorem rejectAt_bind
    (ht : tape.OnLine s token) (hm : Apart message) :
    Does tape level s (rejectAt token message category suggestions >>= f) Q :=
  (rejectAt_does (Q := fun _ _ => False) ht hm).bind fun _ _ _ h => h.elim

theorem rejectHere_bind (hm : Apart message) : Does tape level s (rejectHere message >>= f) Q :=
  (rejectHere_does (Q := fun _ _ => False) hm).bind fun _ _ _ h => h.elim

theorem report_does {d : Diagnostic} (h : tape.Has d.line d.column)
    (hm : d.isError = true → Apart d.message) :
    Does tape level s (report d) fun _ s' => s' = s.reported d :=
  .event (.reports d) (fun _ => rfl) (Level.allows_of_isQuiet rfl) ⟨h, hm⟩ rfl

theorem reportAt_does (ht : token ∈ tape.tokens) (hm : Apart message) :
    Does tape level s (reportAt token category message) fun _ s' =>
      ∃ d, d.isError = true ∧ s' = s.reported d :=
  (report_does (tape.has ht) fun _ => hm).mono fun _ _ _ h => ⟨_, rfl, h⟩

theorem warnAt_does (ht : token ∈ tape.tokens) : Acts tape level s (warnAt token message) :=
  (report_does (tape.has ht) fun h => by cases h).mono fun _ _ _ _ => trivial

theorem record_eq (tokens : Array Token) (s : State) (r : Rejection) :
    record r tokens (s.catching r) = .ok () (s.refused r) := by
  have hsame : (s.catching r).lastRejectedLine = s.lastRejectedLine := rfl
  rw [record, bind_ok (get_eq ..), hsame]
  by_cases h : r.line = s.lastRejectedLine
  · rw [if_neg (not_not_intro h), State.refused_of_eq h]
    rfl
  · rw [if_pos h, State.refused_of_ne h]
    rfl

theorem record_below (tokens : Array Token) (s : State) (r : Rejection) (front : List Script.Line) :
    record r tokens ((s.catching r).below front) = .ok () ((s.refused r).below front) := by
  rw [← State.refused_below]
  exact record_eq tokens (s.below front) r

/-- To catch a rejection and to record it is one event. -/
theorem Path.refused (h : r.Fits tape s) : Path tape level s (s.refused r) :=
  .single (e := .records r) (Level.allows_of_isQuiet rfl) h

theorem record_bind {f : Unit → Emit α} (h : r.Fits tape s) (hs : Sound tape s)
    (hf : Does tape level (s.refused r) (f ()) Q) :
    Amid tape level s (s.catching r) (record r >>= f) Q :=
  have hpath : Path tape level s (s.refused r) := .refused h
  .bind_ok (record_below tape.tokens s r) (.after hpath (hf (hpath.sound hs)))

/-! ### Tokens that must be there -/

theorem expect_does (htest : ∀ t, test t = true → t.endsLine = false) :
    Does tape level s (expect test what) fun token s' =>
      tape.Under s token ∧ test token = true ∧ s'.position = s.position + 1 := by
  refine current_sees.bind fun token ht => ?_
  split
  · rename_i h
    refine (advance_from ht (htest token h)).mono fun t s' _ ⟨he, hp⟩ => ?_
    subst he
    exact ⟨ht, h, hp⟩
  · exact rejectHere_does apart_expected.append.append

/-- A token was used up. -/
def Moved (s : State) (_ : α) (s' : State) : Prop := s.position < s'.position

theorem Moved.of_eq {a : α} (h : s'.position = s.position + 1) : Moved s a s' := by
  rw [Moved, h]
  exact Int.lt_add_one_of_le (Int.le_refl _)

theorem expectKeyword_does : Does tape level s (expectKeyword word) (Moved s) :=
  (expect_does fun _ => Token.endsLine_of_isKeyword).mono fun _ _ _ h => .of_eq h.2.2

theorem expectOperator_does : Does tape level s (expectOperator sign) (Moved s) :=
  (expect_does fun _ => Token.endsLine_of_isOperator).mono fun _ _ _ h => .of_eq h.2.2

theorem expectMark_does : Does tape level s (expectMark mark) (Moved s) :=
  (expect_does fun _ => Token.endsLine_of_isMark).mono fun _ _ _ h => .of_eq h.2.2

theorem expectName_under : Does tape level s (expectName what) fun token s' =>
      tape.Under s token ∧ token.kind = .identifier ∧ s'.position = s.position + 1 := by
  refine current_sees.bind fun token ht => ?_
  split
  · rename_i hk
    refine (advance_from ht (by simp [Token.endsLine, hk])).mono fun t s' _ ⟨he, hp⟩ => ?_
    subst he
    exact ⟨ht, hk, hp⟩
  · exact rejectAt_does ht.onLine apart_reserved.append.append
  · exact rejectHere_does apart_expected.append.append

/-- The name is in front of the cursor, on its line. -/
theorem expectName_onLine : Does tape level s (expectName what) fun token s' =>
      tape.OnLine s' token ∧ tape.Names token ∧ s.position < s'.position := by
  refine .ofSound fun hs => expectName_under.sound.mono fun token s' _ ⟨hs', ht, hk, hp⟩ => ?_
  exact ⟨ht.behind (by simp [Token.endsLine, hk]) hs hs' hp, ⟨ht.mem, hk⟩, by omega⟩

theorem expectName_does : Does tape level s (expectName what) fun token s' =>
      tape.Names token ∧ s.position < s'.position :=
  expectName_onLine.mono fun _ _ _ h => h.2

/-! ### Skipping -/

/-- The tokens from one state to another all pass a test, and nothing but the cursor was changed. -/
structure Skipped (tape : Tape) (test : Token → Bool) (s s' : State) : Prop where
  moved : s' = { s with position := s'.position }
  le : s.position ≤ s'.position
  passed : ∀ n token, s.position.toNat ≤ n → n < s'.position.toNat → tape.tokens[n]? = some token →
    test token = true

theorem skipWhile_skips (htest : ∀ t, test t = true → t.endsLine = false) :
    Does tape level s (skipWhile test) fun _ s' =>
      Skipped tape test s s' ∧ ∃ token, tape.Under s' token ∧ test token = false := by
  refine .loop (fun _ s' => Skipped tape test s s') ⟨rfl, Int.le_refl _, fun n _ h h' => by omega⟩
    fun _ s₁ _ hskipped => .ofSound fun hs₁ => ?_
  refine current_sees.bind fun token ht => ?_
  split
  · rename_i h
    refine ((advance_from ht (htest token h)).also fun _ _ => advance_eq).bind
      fun _ s₂ _ ⟨⟨_, hp⟩, position, hmoved⟩ => .pure ⟨by omega, ?_⟩
    have hpos := hs₁.position_nonneg
    have hle := hskipped.le
    refine ⟨?_, by omega, fun n token' hn hn' hat => ?_⟩
    · rw [hmoved, hskipped.moved]
    · rcases Nat.lt_or_ge n s₁.position.toNat with hlt | hge
      · exact hskipped.passed n token' hn hlt hat
      · obtain rfl : n = s₁.position.toNat := by omega
        obtain rfl : token = token' := Option.some.inj (ht.symm.trans hat)
        exact h
  · exact .pure ⟨hskipped, token, ht, Bool.eq_false_iff.2 ‹_›⟩

theorem skipWhile_does (htest : ∀ t, test t = true → t.endsLine = false) :
    Acts tape level s (skipWhile test) :=
  (skipWhile_skips htest).mono fun _ _ _ _ => trivial

/-- The end of a line ends a statement. -/
theorem not_endsStatement (h : (!token.endsStatement) = true) : token.endsLine = false := by
  simp only [Token.endsStatement, Bool.not_or, Bool.and_eq_true, Bool.not_eq_true'] at h
  exact h.1.1

theorem skipStatement_does : Acts tape level s skipStatement :=
  skipWhile_does fun _ => not_endsStatement

/-- **Recovery.**  Behind a rejection the cursor moves on, and passes the end of a line at most with
its last step. -/
theorem resume_completes : Completes tape .full s resume fun _ s' =>
    (s.position + 1 < tape.tokens.size → s.position < s'.position) ∧
      tape.InLine s.position (s'.position - 1) := by
  refine .ofSound fun hs => ?_
  have hpos := hs.position_nonneg
  obtain ⟨first, hunder⟩ := hs.exists_under
  refine (advance_completes hunder (.inl rfl)).bind fun _ s₁ hg₁ hq => ?_
  have hmoved : s.position + 1 < tape.tokens.size → s₁.position = s.position + 1 :=
    fun hsize => hq.2.trans (if_neg ((hunder.lt_size_iff hs).1 hsize))
  have hstep : s₁.position ≤ s.position + 1 := by have := hq.2; split at this <;> omega
  -- the tokens in front of the last one that was passed do not end a line
  refine .loop (fun _ s₂ => s₁.position ≤ s₂.position ∧ tape.InLine s.position (s₂.position - 1))
    ⟨Int.le_refl _, .of_le (by omega)⟩ fun _ s₂ _ hinv => .ofSound fun hs₂ => ?_
  obtain ⟨hle, hline⟩ := hinv
  have hdone : (s.position + 1 < tape.tokens.size → s.position < s₂.position) ∧
      tape.InLine s.position (s₂.position - 1) :=
    ⟨fun hsize => by have := hmoved hsize; omega, hline⟩
  refine atEnd_sees.followed fun _ hend => ?_
  obtain ⟨under, hu, hb⟩ := hend
  split
  · exact .pure hdone
  rename_i hb'
  refine previous_sees.followed fun front hfront => ?_
  split
  · exact .pure hdone
  rename_i hnewline
  refine atKind_sees.followed fun _ _ => ?_
  split
  · exact .pure hdone
  refine (advance_completes hu (.inl rfl)).bind fun _ s₃ _ hq₃ => .pure ?_
  have hp₃ := hq₃.2.trans (if_neg (mt hb.2 hb'))
  refine ⟨by omega, by omega, fun place hstart hstop hends => ?_⟩
  rcases Int.lt_or_le place (s₂.position - 1) with hlt | hge
  · exact hline place hstart hlt hends
  · obtain rfl : place = s₂.position - 1 := by omega
    exact hnewline (hfront hends (by omega))

/-! ### Lists -/

/-- A list whose items and commas keep what is known of the items in front of them. -/
theorem commaList_keeps {I J : List α → State → Prop} (hstart : I [] s)
    (hitem : ∀ front s₁, Grows s s₁ → I front s₁ →
      Does tape level s₁ item fun a s₂ => J (front ++ [a]) s₂)
    (hcomma : ∀ list s₁ s₂ token, J list s₁ → Sound tape s₁ → tape.Under s₁ token →
      token.isMark "," = true → s₂.position = s₁.position + 1 → I list s₂) :
    Does tape level s (commaList item) J := by
  refine .loop I hstart fun front s₁ hg hfront => ?_
  refine (hitem front s₁ hg hfront).sound.bind fun a s₂ hg₂ ⟨hs₂, hlist⟩ => ?_
  refine (take_tests fun _ => Token.endsLine_of_isMark).bind fun b s₃ _ ⟨token, ht, hmark, hs₃⟩ =>
    ?_
  cases b with
  | true =>
    exact .pure
      ⟨by have := hg₂.position; rw [if_pos
        rfl] at hs₃; omega, hcomma _ _ _ _ hlist hs₂ ht hmark hs₃⟩
  | false =>
    obtain rfl : s₃ = s₂ := hs₃
    exact .pure hlist

theorem commaList_does (φ : α → Prop)
    (hitem : ∀ s', Grows s s' → Does tape level s' item fun a _ => φ a) :
    Does tape level s (commaList item) fun list _ => ∀ a ∈ list, φ a := by
  refine commaList_keeps (I := fun list _ => ∀ a ∈ list, φ a) (by simp)
    (fun front s₁ hg hfront => ?_)
    fun _ _ _ _ hlist _ _ _ _ => hlist
  exact (hitem s₁ hg).mono fun a _ _ ha =>
    List.forall_mem_append.2 ⟨hfront, List.forall_mem_singleton.2 ha⟩

end BasicScript
