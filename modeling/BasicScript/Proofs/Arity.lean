import BasicScript.Proofs.DeclaredOnce

/-!
# Arguments and parameters

The number of parameters of a procedure is found twice: the announcements count the commas of its
header, and the header itself is read by its grammar.  Both readings see the same headers and find
the same numbers, so a call that was checked against the announcements fits the header.

* `calls_match_headers`: so a call of a procedure has an argument for each parameter of its first
  line.
-/

namespace BasicScript

open Emit Script Text Lexer List

variable {tape : Tape} {level : Level} {s s' : State} {es : List Event} {key : String} {count : Nat}

/-! ### Headers are announced -/

theorem headerKind?_not_data {token : Token} (h : (headerKind? token).isSome = true) :
    token.isKeyword "DATA" = false := by
  cases hdata : token.isKeyword "DATA" with
  | false => rfl
  | true =>
    simp only [Token.isKeyword, Bool.and_eq_true, decide_eq_true_eq] at hdata
    simp [headerKind?, Token.isKeyword, hdata] at h

theorem mem_announcements_cons {front rest : List Token} {token : Token} {before : Option Token}
    {a : Announcement} (h : a ∈ announcements (inData (front ++ [token])) (some token) rest) :
    a ∈ announcements (inData front) before (token :: rest) := by
  rw [inData_append] at h
  unfold announcements
  cases hdata : inData front with
  | true => simpa [hdata] using h
  | false =>
    simp only [hdata, Bool.false_eq_true, if_false] at h ⊢
    split
    · rename_i hkeyword
      rw [hkeyword] at h
      exact .tail _ h
    · rename_i hkeyword
      rw [Bool.eq_false_iff.2 hkeyword] at h
      split
      · split
        · exact h
        · exact mem_append_right _ h
      · exact h

theorem mem_announcements {keyword name : Token} {front rest tail : List Token} (place : Nat)
    (hrest : rest.drop place = keyword :: name :: tail)
    (hkeyword : (headerKind? keyword).isSome = true) (hname : name.kind = .identifier)
    (hdata : inData (front ++ rest.take place) = false)
    (hfront : ∀ token, (front ++ rest.take place).getLast? = some token →
      precedesNoHeader token = false) :
    ∃ kind, .header kind name (parameterCount tail) ∈ announcements
      (inData front) front.getLast? rest := by
  induction place generalizing front rest with
  | zero =>
    simp only [drop_zero, take_zero, append_nil] at hrest hdata hfront
    obtain ⟨kind, hkind⟩ := Option.isSome_iff_exists.1 hkeyword
    have hany : front.getLast?.any precedesNoHeader = false := by
      cases hlast : front.getLast? with
      | none => rfl
      | some token => exact hfront token hlast
    refine ⟨kind, ?_⟩
    rw [hrest, announcements, hdata, headerKind?_not_data hkeyword, hkind, hany]
    simp [header?, hname]
  | succ place ih =>
    cases rest with
    | nil => cases hrest
    | cons token rest =>
      have hcut : front ++ (token :: rest).take (place + 1) = (front ++ [token]) ++
          rest.take place := by simp
      rw [hcut] at hdata hfront
      obtain ⟨kind, hmem⟩ := ih hrest hdata hfront
      rw [getLast?_concat] at hmem
      exact ⟨kind, mem_announcements_cons hmem⟩

/-- A header is announced, with the parameters that are counted. -/
theorem Tape.HeaderAt.mem_announcements {place : Nat} (h : tape.HeaderAt place key count) :
    ∃ kind name, upper name.text = key ∧
      .header kind name count ∈ announcements false none tape.tokens.toList := by
  obtain ⟨keyword, name, rest, hrest, hkeyword, hname, hkey, hcount⟩ := h.header
  have hdata : inData ([] ++ tape.tokens.toList.take place) = false := h.free.data
  obtain ⟨kind, hmem⟩ := BasicScript.mem_announcements place hrest hkeyword hname hdata h.free.front
  exact ⟨kind, name, hkey, hcount ▸ hmem⟩

/-! ### Calls and headers along a run -/

/-- No event forgets a procedure or an error. -/
theorem Event.keeps {e : Event} (hfit : e.Fits tape s) :
    (∀ key count, s.Takes key count → (e.apply s).Takes key count) ∧
      (HasError s.collector.toList → HasError (e.apply s).collector.toList) := by
  cases hinline : e.isInline with
  | false =>
    have hg := Event.grows hinline hfit
    exact ⟨fun _ _ htakes => htakes.grows hg, hg.errors⟩
  | true =>
    cases e with
    | enters | turns | leaves => exact ⟨fun _ _ htakes => htakes, id⟩
    | _ => cases hinline

/-- The headers on the tape and the calls so far agree with the table, and the headers that were
read stand on the tape. -/
structure Arities (tape : Tape) (s : State) : Prop where
  announced : ∀ place key count, tape.HeaderAt place key count → s.Takes key count
  calls : ∀ c ∈ s.calls, s.Takes c.key c.arguments.length
  headers : ∀ header ∈ s.headers, ∃ place, tape.HeaderAt place header.key header.parameters.length

/-- **Every event** keeps the agreement, unless an error was reported. -/
theorem Arities.apply {e : Event} (h : HasError s.collector.toList ∨ Arities tape s)
    (hfit : e.Fits tape s) : HasError (e.apply s).collector.toList ∨ Arities tape (e.apply s) := by
  obtain ⟨htakes, herrors⟩ := Event.keeps hfit
  rcases h with herror | h
  · exact .inl (herrors herror)
  have hannounced := fun place key count hat => htakes _ _ (h.announced place key count hat)
  have hcalls := fun c hc => htakes _ _ (h.calls c hc)
  rcases (e.owns s).calls with ⟨c, rfl⟩ | hc
  · rcases hfit with herror | hcall
    · exact .inl herror
    · exact .inr ⟨hannounced, forall_mem_cons.2 ⟨hcall, hcalls⟩, h.headers⟩
  rcases (e.owns s).headers with ⟨kind, name, jsName, parameters, token, rfl⟩ | hh
  · obtain ⟨-, -, -, -, -, herror | ⟨place, hat⟩⟩ := hfit
    · exact .inl (herrors herror)
    · exact .inr ⟨hannounced, hcalls, forall_mem_cons.2 ⟨⟨place, hat⟩, h.headers⟩⟩
  · exact .inr ⟨hannounced, hc ▸ hcalls, hh ▸ h.headers⟩

/-- **A run** keeps the agreement, unless it reports an error. -/
theorem Run.arities (h : Run tape level s es s')
    (hs : HasError s.collector.toList ∨ Arities tape s) :
    HasError s'.collector.toList ∨ Arities tape s' :=
  h.invariant (I := fun s => HasError s.collector.toList ∨ Arities tape s) Arities.apply hs

/-- Behind the announcements the table has every header, unless an error was reported. -/
theorem arities_announced {collector : Collector} {start : State}
    (h : announce tape.tokens { collector } = .ok () start) :
    HasError start.collector.toList ∨ Arities tape start := by
  have hs := sound_start tape collector
  have hannounce : Does tape .full { collector } announce fun _ => Unwritten { collector } :=
    announce_does
  have hregisters : Does tape .full { collector } announce fun _ s' =>
      ∀ a ∈ announcements false none tape.tokens.toList, a.Registered s' := announce_registers
  have hunwritten := (hannounce.of_ok hs h).2
  have hregistered := (hregisters.of_ok hs h).2
  by_cases herror : HasError start.collector.toList
  · exact .inl herror
  refine .inr ⟨fun place key count hat => ?_,
    by simp [hunwritten.calls], by simp [hunwritten.headers]⟩
  obtain ⟨kind, name, rfl, hmem⟩ := hat.mem_announcements
  exact (hregistered _ hmem).resolve_left herror

/-! ### Texts -/

/-- Every header has its line on the page, with the name that the table has. -/
theorem Finished.headers_written {collector : Collector} (h : Finished tape collector s) :
    ∀ header ∈ s.headers, ∃ p, s.procedures.get? header.key = some p ∧
      headerLine p.jsName (commas header.parameters) ∈ s.page.texts := by
  intro header hheader
  have hemitted := h.emitted.1
  obtain ⟨p, hp, hline⟩ := heads_lines hemitted.headed header (mem_reverse.2 hheader)
  obtain ⟨front, back, hlog⟩ := append_of_mem hline
  obtain ⟨rest, hrest⟩ := @exists_weave s.scopes.tops front _ back
  refine ⟨p, hp, ?_⟩
  rw [Page.texts, hemitted.lines, hlog, hrest]
  simp

/-- A call is noted with its arguments, whether they are as many as they should be or not. -/
theorem noteCall_eq (p : Procedure) (values : List String) (token : Token) (tokens : Array Token)
    (s : State) : ∃ collector, noteCall p values token tokens s =
      .ok () { s with collector, calls := ⟨upper token.text, values⟩ :: s.calls } := by
  unfold noteCall checkArity
  by_cases h : values.length = p.parameters
  · rw [h]
    exact ⟨s.collector, by simp; rfl⟩
  · exact ⟨_, by simp [h]; rfl⟩

/-! ### The end of the pass -/

/-- **Calls fit headers.**  When a pass ends without an error, every procedure that was begun has
its line, with the name that the table has for it, and the announcements counted the parameters that
its header has.  A call of a procedure has an argument for each of the parameters; the arguments are
those of its text, be it a statement or a part of an expression. -/
theorem calls_match_headers (source : String) (hread : (scan source).fault = none)
    (collector : Collector) (s : State)
    (hpass : pass (scan source).tokens.toArray collector = .ok () s)
    (hclean : ¬HasError s.collector.toList) :
    (∃ start, announce (scan source).tokens.toArray { collector } = .ok () start ∧
      ∀ header ∈ s.headers, ∃ p, start.procedures.get? header.key = some p ∧
        s.procedures.get? header.key = some p ∧ p.parameters = header.parameters.length ∧
        headerLine p.jsName (commas header.parameters) ∈ s.page.texts) ∧
      (∀ call ∈ s.calls,
        (∃ p, s.procedures.get? call.key = some p ∧ p.parameters = call.arguments.length) ∧
        ∀ header ∈ s.headers, call.key = header.key →
          call.arguments.length = header.parameters.length) ∧
      (∀ p values token tokens s₀, ∃ collector, callProcedure p values token tokens s₀ =
        .ok () { s₀ with
          collector, calls := ⟨upper token.text, values⟩ :: s₀.calls,
          page := s₀.page.line ("await " ++ p.jsName ++ "(" ++ commas values ++ ");") }) ∧
      ∀ p values token tokens s₀ nested s₁, optionalArguments nested tokens s₀ = .ok values s₁ →
        ∃ collector, functionCall nested p.jsName (some p) token tokens s₀ =
          .ok ("(await " ++ p.jsName ++ "(" ++ commas values ++ "))")
            { s₁ with collector, calls := ⟨upper token.text, values⟩ :: s₁.calls } := by
  obtain ⟨last, hlast, rfl⟩ := exists_finished hread hpass
  obtain ⟨start, hannounce, es, hrun⟩ := hlast.announced
  have hwritten := hlast.headers_written
  have hpage := last.texts_hoisted
  obtain ⟨page, hhoisted⟩ := last.hoisted_eq
  rw [hhoisted] at hclean hpage ⊢
  have hannounced :=
    (arities_announced hannounce).resolve_left fun herror => hclean (hrun.grows.errors herror)
  have harities := (hrun.arities (.inr hannounced)).resolve_left hclean
  refine ⟨⟨start, hannounce, fun header hheader => ?_⟩, fun call hcall => ?_,
    fun p values token tokens s₀ => ?_, fun p values token tokens s₀ nested s₁ hvalues => ?_⟩
  · obtain ⟨place, hat⟩ := harities.headers header hheader
    obtain ⟨p, hp, hcount⟩ := hannounced.announced _ _ _ hat
    have hkept := hrun.grows.procedures _ _ hp
    obtain ⟨q, hq, hline⟩ := hwritten header hheader
    obtain rfl : p = q := Option.some.inj (hkept.symm.trans hq)
    exact ⟨p, hp, hkept, hcount, hpage.symm.subset (mem_append_left _ hline)⟩
  · obtain ⟨p, hp, hcount⟩ := harities.calls call hcall
    refine ⟨⟨p, hp, hcount⟩, fun header hheader hkey => ?_⟩
    -- The call and the header found the same procedure in the table.
    obtain ⟨place, hat⟩ := harities.headers header hheader
    obtain ⟨q, hq, hcount'⟩ := harities.announced _ _ _ hat
    rw [← hkey, hp] at hq
    cases hq
    exact hcount.symm.trans hcount'
  · obtain ⟨collector, hnote⟩ := noteCall_eq p values token tokens s₀
    exact ⟨collector, bind_ok hnote _⟩
  · obtain ⟨collector, hnote⟩ := noteCall_eq p values token tokens s₁
    refine ⟨collector, ?_⟩
    rw [functionCall, bind_ok hvalues]
    exact bind_ok hnote _

/-- The headers and the calls of a source whose pass comes to its end without an error. -/
def notes? (source : String) : Option (List Header × List Call) :=
  match Emit.pass (scan source).tokens.toArray {} with
  | .ok _ s => if HasError s.collector.toList then none else some (s.headers, s.calls)
  | .error _ _ => none

theorem pass_of_notes? {source : String} {headers : List Header} {calls : List Call}
    (h : notes? source = some (headers, calls)) :
    ∃ s, pass (scan source).tokens.toArray {} = .ok () s ∧ ¬HasError s.collector.toList ∧
      s.headers = headers ∧ s.calls = calls := by
  unfold notes? at h
  split at h
  · split at h
    · cases h
    · obtain ⟨hheaders, hcalls⟩ := Prod.mk.inj (Option.some.inj h)
      exact ⟨_, ‹_›, ‹_›, hheaders, hcalls⟩
  · cases h

/-- Parameters with parentheses and types of their own, and three ways to call. -/
def threeCalls : String :=
  "SUB f (a, b(), BYVAL c AS STRING * 5)\nEND SUB\nFUNCTION g\nEND FUNCTION\n" ++
  "CALL f(1, x(), g)\nf 1, 2, 3"

theorem three_calls_match :
    ∃ s, pass (scan threeCalls).tokens.toArray {} = .ok () s ∧ ¬HasError s.collector.toList ∧
      s.headers = [⟨"G", []⟩, ⟨"F", ["a", "b", "c"]⟩] ∧
      s.calls = [⟨"F", ["1", "2", "3"]⟩, ⟨"F", ["1", "x", "(await g())"]⟩, ⟨"G", []⟩] ∧
      (∃ p, s.procedures.get? "F" = some p ∧ p.parameters = 3 ∧
        headerLine p.jsName "a, b, c" ∈ s.page.texts) ∧
      ∀ call ∈ s.calls, ∀ header ∈ s.headers, call.key = header.key →
        call.arguments.length = header.parameters.length := by
  have hnotes : notes? threeCalls = some ([⟨"G", []⟩, ⟨"F", ["a", "b", "c"]⟩],
      [⟨"F", ["1", "2", "3"]⟩, ⟨"F", ["1", "x", "(await g())"]⟩, ⟨"G", []⟩]) := by decide +kernel
  obtain ⟨s, hpass, hclean, hheaders, hcalls⟩ := pass_of_notes? hnotes
  obtain ⟨⟨start, -, hwritten⟩, hmatch, -⟩ :=
    calls_match_headers threeCalls (by decide +kernel) {} s hpass hclean
  obtain ⟨p, -, hp, hcount, hline⟩ := hwritten ⟨"F", ["a", "b", "c"]⟩ (by simp [hheaders])
  exact ⟨s, hpass, hclean, hheaders, hcalls, ⟨p, hp, hcount, hline⟩,
    fun call hcall => (hmatch call hcall).2⟩

end BasicScript
