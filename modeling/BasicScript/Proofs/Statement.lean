import BasicScript.Proofs.Expression

/-!
# Statements that emit lines

Assignments, and the statements for the console, graphics, files and jumps.  Each of them comes to
flat lines: what it puts between the fixed parts of a line is sealed.
-/

namespace BasicScript

open Emit Script Text List

variable {tape : Tape} {level : Level} {s s' : State} {token : Token}
    {callee value default front back : String}
  {p : Place} {values : List String}

/-! ### Places -/

/-- What a place holds: a solid text, which is the JavaScript name of its name as long as that is
not declared. -/
structure Emit.Place.Fits (tape : Tape) (p : Place) : Prop where
  solid : Solid p.code
  fresh : ∀ name ∈ p.fresh, tape.HasName name ∧ p.code = identifier name

theorem placeName_does (ht : tape.Names token) : Does tape level s (placeName token) fun named s' =>
      tape.HasName named.1 ∧ named.2 = s'.scopes.find? named.1 ∧
      ∀ v ∈ named.2, tape.Calls v.name := by
  refine lookup_finds.bind fun found hfound => ?_
  refine atMark_sees.bind fun _ _ => ?_
  split
  · refine (dottedName_does (.word ht)).loud.bind fun name s₁ _ ⟨hname, _⟩ => ?_
    exact lookup_finds.bind fun found hfound => .pure ⟨hname, hfound⟩
  · exact .pure ⟨.word ht, hfound⟩

theorem place_quiet :
    Does tape .quiet s place fun p s' => p.Fits tape ∧ s.position < s'.position := by
  refine expectName_onLine.bind fun token s₁ _ ⟨hline, ht, hlt⟩ => ?_
  have hplace : Does tape .quiet s₁ (placeName token) _ := placeName_does ht
  refine (hplace.onLine nofun hline).bind fun (name, found) s₂ hg₂ ⟨hline₂, hname, hfind, hfound⟩ =>
    ?_
  dsimp -zeta only at hname hfind hfound ⊢
  have hlt₂ : s.position < s₂.position := by have := hg₂.position; omega
  have hfits : ∀ {code : String} {isText : Bool}, Solid code →
      Place.Fits tape { code, isText, fresh := none } := fun h => ⟨h, by simp⟩
  -- the members behind a variable
  have hmembers : ∀ (v : Variable) (front : String) (s₃ : State), Solid front →
      s.position < s₃.position → Does tape .quiet s₃ (do
        let selected ← members (typeOf v)
        return ({ code := front ++ selected.code, isText := selected.type.isText } : Place))
        fun p s' => p.Fits tape ∧ s.position < s'.position := by
    intro v front s₃ hfront hlt₃
    exact members_does.bind fun selected s₄ hg₄ h =>
      .pure ⟨hfits (hfront.append h), by have := hg₄.position; omega⟩
  extract_lets jp
  have hjp : Does tape .quiet s₂ (jp ()) fun p s' => p.Fits tape ∧ s.position < s'.position := by
    refine atMark_sees.bind fun _ _ => ?_
    split
    · have harguments : Does tape .quiet s₂ arguments _ := arguments_does
      refine .ofSound fun hs₂ => harguments.still.bind fun indices s₃ hg₃ ⟨hstill, hindices, _⟩ =>
        ?_
      have hpos₃ := hg₃.position
      extract_lets jp'
      have hjp' : ∀ v s₄, tape.Calls v.name → s.position < s₄.position →
          Does tape .quiet s₄ (jp' v) fun p s' => p.Fits tape ∧ s.position < s'.position :=
        fun v s₄ hv => hmembers v _ s₄ (hv.wordy.solid.append (sealed_indexed hindices))
      split
      · exact .pure_bind (hjp' _ s₃ (hfound _ rfl) (by omega))
      · have hnew := Scopes.local?_eq_none_iff.1 (hs₂.scopes.local?_eq_none hfind.symm)
        exact (implicitArray_does hname hnew hstill.scope).bind fun v s₄ _ ⟨hv, hp₄⟩ =>
          hjp' v s₄ hv (by omega)
    · split
      · refine .pure ⟨⟨?_, ?_⟩, hlt₂⟩
        · simpa only using hname.called.wordy.solid
        · simpa using hname
      · exact hmembers _ _ s₂ (hfound _ rfl).wordy.solid hlt₂
  split
  · refine .get (fun _ => rfl) ?_
    split
    · exact rejectAt_bind hline₂ (Apart.append (.of_letters rfl rfl)).append.append.append
    · exact hjp
  · exact hjp

theorem place_does : Does tape level s place fun p s' => p.Fits tape ∧ s.position < s'.position :=
  place_quiet.loud

theorem freshName_sees (h : p.Fits tape) : Sees tape s (freshName p) fun fresh =>
      ∀ name ∈ fresh, tape.HasName name ∧ p.code = identifier name ∧
      s.scopes.find? name = none := by
  unfold freshName
  split
  · exact .pure (by simp)
  · rename_i name hname
    refine lookup_finds.seen fun found ⟨hfind, _⟩ => .pure ?_
    have hfresh := h.fresh name hname
    cases found with
    | none => simpa [hfresh] using hfind.symm
    | some v => simp

theorem store_does (hp : p.Fits tape) (hv : Sealed value) : Acts tape .line s (store p value) := by
  refine .ofSound fun hs => (freshName_sees hp).bind fun fresh hfresh => ?_
  split
  · rename_i name
    obtain ⟨hname, hcode, hnone⟩ := hfresh name rfl
    extract_lets v
    have hvar : tape.Called (upper name) v.name := by simpa only [v, hcode] using hname.called
    exact (emitDeclaration_does hvar hv (hs.scopes.local?_eq_none hnone)).bind fun _ _ _ _ =>
      .pure trivial
  · exact line_does (flat_assign hp.solid hv)

theorem storeAll_does {list : List (Place × String)}
    (h : ∀ item ∈ list, item.1.Fits tape ∧ Sealed item.2) : Acts tape .line s (storeAll list) := by
  induction list generalizing s with
  | nil => exact .pure trivial
  | cons item rest ih =>
    obtain ⟨hp, hv⟩ := h item (by simp)
    exact (store_does hp hv).bind fun _ _ _ _ => ih fun i hi => h i (by simp [hi])

theorem declared_does (h : p.Fits tape) :
    Does tape level s (declared p) fun text _ => Solid text := by
  refine (freshName_sees h).bind fun fresh hfresh => ?_
  split
  · rename_i name
    exact (implicitVariable_does (hfresh name rfl).1 (hfresh name rfl).2.2).bind
      fun v _ _ ⟨hv, _⟩ => .pure hv.wordy.solid
  · exact .pure h.solid

theorem sealed_coerced (p : Place) (h : Inner value) : Sealed (coerced p value) := by
  unfold coerced
  split
  · exact (Reads.start rfl).within h rfl
  · exact (Reads.start rfl).within h rfl

theorem assignment_does : Does tape .line s assignment fun _ s' => s.position < s'.position := by
  refine place_does.bind fun p s₁ _ ⟨hp, hlt⟩ => ?_
  refine expectOperator_does.bind fun _ s₂ hg₂ _ => ?_
  refine expression_does.bind fun value s₃ hg₃ ⟨hvalue, _⟩ => ?_
  refine (store_does hp hvalue.1).mono fun _ s₄ hg₄ _ => ?_
  have := hg₂.position
  have := hg₃.position
  have := hg₄.position
  omega

/-! ### Printing -/

theorem printItems_does : Does tape level s printItems fun printed _ =>
    ∀ item ∈ printed.1, Sealed item := by
  refine .loop (fun printed _ => ∀ item ∈ printed.1, Sealed item) (by simp) ?_
  rintro ⟨items, ended⟩ s₁ _ hitems
  refine atStatementEnd_sees.bind fun _ _ => ?_
  split
  · exact .pure hitems
  refine takeMark_does.bind fun b s₂ hg₂ hb => ?_
  split
  · exact .pure ⟨hb.1 ‹_›, hitems⟩
  refine takeMark_does.bind fun b' s₃ hg₃ hb' => ?_
  have hpos₂ := hg₂.position
  split
  · refine .pure ⟨Int.lt_of_le_of_lt hpos₂ (hb'.1 ‹_›), ?_⟩
    simpa [or_imp, forall_and] using ⟨hitems, (literal_solid "\t").1⟩
  · refine expression_does.bind fun item s₄ _ ⟨hitem, hlt⟩ => .pure ⟨?_, ?_⟩
    · have := hg₃.position
      omega
    · simpa [or_imp, forall_and] using ⟨hitems, hitem.1⟩

theorem sealed_joined {items : List String} (h : ∀ item ∈ items, Sealed item) :
    Sealed (joined items) := by
  unfold joined
  split
  · exact .start rfl
  · exact h _ (by simp)
  · exact (Reads.start rfl).within (inner_commas h) rfl

theorem fileNumber?_does : Does tape level s fileNumber? fun file _ =>
    ∀ number ∈ file, Sealed number := by
  refine takeMark_does.bind fun _ _ _ _ => ?_
  split
  · refine expression_does.bind fun number _ _ ⟨hnumber, _⟩ => ?_
    exact takeMark_does.bind fun _ _ _ _ => .pure (by simpa using hnumber.1)
  · exact .pure (by simp)

theorem printStatement_does (ht : token ∈ tape.tokens) :
    Acts tape .line s (printStatement token) := by
  refine fileNumber?_does.bind fun file _ _ hfile => ?_
  refine takeKeyword_does.bind fun _ _ _ _ => ?_
  extract_lets jp
  have hjp : ∀ s', Acts tape .line s' (jp ()) := by
    intro s'
    refine printItems_does.bind fun (items, ended) _ _ hitems => ?_
    have hcontent := sealed_joined hitems
    dsimp only
    split
    · have htext :
          Inner ("String(" ++ joined items ++ ")" ++ if ended then " + \"\\n\"" else "") := by
        refine Inner.append (Reads.around hcontent rfl) ?_
        cases ended <;> exact Reads.start rfl
      exact line_does (.intro ((Reads.around (hfile _ rfl) rfl).within htext rfl))
    · refine line_does (.intro (((Reads.around hcontent rfl).frag rfl ?_).lit rfl))
      cases ended <;> exact Reads.start rfl
  split
  · refine expression_does.bind fun _ _ _ _ => ?_
    refine expectMark_does.bind fun _ _ _ _ => ?_
    exact (warnAt_does ht).bind fun _ s' _ _ => hjp s'
  · exact hjp _

theorem writeValues_does : Does tape level s writeValues fun values _ =>
    ∀ value ∈ values, Sealed value := by
  refine .loop (fun values _ => ∀ value ∈ values, Sealed value) (by simp) fun values s₁ _ hvalues =>
    ?_
  refine atStatementEnd_sees.bind fun _ _ => ?_
  split
  · exact .pure hvalues
  refine expression_does.bind fun value s₂ _ ⟨hvalue, hlt⟩ => ?_
  extract_lets values'
  have hvalues' : ∀ value ∈ values', Sealed value := by
    have hnew : Sealed ("_writeValue(" ++ value ++ ")") :=
      Reads.around hvalue.1 rfl
    simpa [values', or_imp, forall_and] using ⟨hvalues, hnew⟩
  refine takeMark_does.bind fun _ s₃ hg₃ _ => ?_
  have hpos₃ := hg₃.position
  split
  · exact .pure ⟨by omega, hvalues'⟩
  refine takeMark_does.bind fun _ s₄ hg₄ _ => ?_
  have hpos₄ := hg₄.position
  split
  · exact .pure ⟨by omega, hvalues'⟩
  · exact .pure hvalues'

theorem writeStatement_does : Acts tape .line s writeStatement := by
  refine fileNumber?_does.bind fun file _ _ hfile => ?_
  refine writeValues_does.bind fun values _ _ hvalues => ?_
  extract_lets content
  have hcontent : Sealed content := by
    simp only [content]
    split
    · exact .start rfl
    · exact (Reads.start rfl).within (inner_commas hvalues) rfl
  split
  · exact line_does (.intro ((Reads.around (hfile _ rfl) rfl).piece hcontent rfl))
  · exact line_does (.intro (.around hcontent rfl))

/-! ### Reading -/

/-- A prompt, and one mark or another behind it. -/
theorem prompt_does {absent one other reason : String} {f g : String → String} (h : Apart reason) :
    Acts tape level s (do
      let _ ← takeMark ";"
      unless ← atKind .string do return absent
      let text := (← advance).text
      if ← takeMark one then return f text
      if ← takeMark other then return g text
      rejectHere reason) := by
  refine takeMark_does.bind fun _ _ _ _ => ?_
  refine atKind_sees.bind fun _ ⟨token, ht, hb⟩ => ?_
  split
  · rename_i h
    refine (advance_from ht (by simp [Token.endsLine, hb.1 h])).bind fun _ _ _ _ => ?_
    extract_lets text
    refine takeMark_does.bind fun _ _ _ _ => ?_
    split
    · exact .pure trivial
    refine takeMark_does.bind fun _ _ _ _ => ?_
    split
    · exact .pure trivial
    · exact rejectHere_does ‹_›
  · exact .pure trivial

theorem inputPrompt_does : Acts tape level s inputPrompt :=
  prompt_does (f := id) (g := (· ++ "? ")) (.of_letters rfl rfl)

theorem lineInputPrompt_does : Acts tape level s lineInputPrompt :=
  prompt_does (f := id) (g := id) (.of_letters rfl rfl)

theorem places_does :
    Does tape level s (commaList place) fun places _ => ∀ p ∈ places, p.Fits tape :=
  commaList_does (Place.Fits tape) fun _ _ => place_does.mono fun _ _ _ h => h.1

theorem fieldValues_fit {fields : String} {places : List Place} (hf : Wordy fields)
    (h : ∀ p ∈ places, p.Fits tape) :
    ∀ item ∈ fieldValues fields places, item.1.Fits tape ∧ Sealed item.2 := by
  intro item hitem
  obtain ⟨⟨p, i⟩, hp, rfl⟩ := mem_map.1 hitem
  refine ⟨h p (fst_mem_of_mem_zipIdx hp), sealed_coerced p ?_⟩
  exact ((Reads.around hf.solid.1 rfl).piece (wordy_natToString i).solid.1 rfl)

theorem inputStatement_does : Acts tape .line s inputStatement := by
  refine fileNumber?_does.bind fun file _ _ hfile => ?_
  split
  · refine places_does.bind fun places _ _ hplaces => storeAll_does ?_
    simp only [mem_map, forall_exists_index, and_imp, forall_apply_eq_imp_iff₂]
    refine fun p hp => ⟨hplaces p hp, sealed_coerced p ?_⟩
    exact Reads.around (hfile _ rfl) rfl
  · refine inputPrompt_does.bind fun prompt _ _ _ => ?_
    extract_lets call
    have hcall : Inner call := Reads.around (literal_solid prompt).1 rfl
    refine places_does.bind fun places _ _ hplaces => ?_
    split
    · exact store_does (hplaces _ (by simp)) (sealed_coerced _ hcall)
    · refine (temporary_does (wordy_ofList (by simp) (by decide))).bind fun fields _ _ hfields => ?_
      refine (line_does ?_).bind fun _ _ _ _ => storeAll_does (fieldValues_fit hfields hplaces)
      exact .intro ((Reads.around hfields.solid.1 rfl).within hcall rfl)

theorem lineInputStatement_does : Acts tape .line s lineInputStatement := by
  refine fileNumber?_does.bind fun file _ _ hfile => ?_
  split
  · refine place_does.bind fun p _ _ ⟨hp, _⟩ => store_does hp ?_
    exact Reads.around (hfile _ rfl) rfl
  · refine lineInputPrompt_does.bind fun prompt _ _ _ => ?_
    refine place_does.bind fun p _ _ ⟨hp, _⟩ => store_does hp ?_
    exact Reads.around (literal_solid prompt).1 rfl

/-! ### Screen and sound -/

theorem sealed_absent : Sealed absent := Reads.start rfl

theorem gappedArguments_does : Does tape level s gappedArguments fun values _ =>
    ∀ value ∈ values, Sealed value := by
  refine atStatementEnd_sees.bind fun _ _ => ?_
  split
  · exact .pure (by simp)
  refine commaList_does Sealed fun s' _ => ?_
  refine atGap_sees.bind fun _ _ => ?_
  split
  · exact .pure sealed_absent
  · exact expression_does.mono fun _ _ _ h => h.1.1

theorem sealed_getD (h : ∀ value ∈ values, Sealed value) (i : Nat)
    (hd : Sealed default) : Sealed (values.getD i default) := by
  rw [getD_eq_getElem?_getD]
  cases hv : values[i]? with
  | none => exact hd
  | some value => exact h value (mem_of_getElem? hv)

theorem optionalExpression_does : Does tape level s optionalExpression fun value _ =>
    ∀ text ∈ value, Sealed text := by
  refine atStatementEnd_sees.bind fun _ _ => ?_
  split
  · exact .pure (by simp)
  · exact expression_does.bind fun text _ _ h => .pure (by simpa using h.1.1)

theorem pairStatement_does (h : Solid callee) : Acts tape .line s (pairStatement callee) := by
  refine gappedArguments_does.bind fun values _ _ hvalues => line_does ?_
  have hvalue := fun i => sealed_getD hvalues i sealed_absent
  exact .intro (((h.reads_fresh.lit rfl).piece (hvalue 0) rfl).piece (hvalue 1) rfl)

theorem screenStatement_does : Acts tape .line s screenStatement := by
  refine gappedArguments_does.bind fun values _ _ hvalues => line_does ?_
  exact .intro (.around (sealed_getD hvalues 0 (.start rfl)) rfl)

theorem bareStatement_does {text : String} (h : Flat text) :
    Acts tape .line s (bareStatement text) :=
  optionalExpression_does.bind fun _ _ _ _ => line_does h

theorem soundStatement_does : Acts tape .line s soundStatement := by
  refine expression_does.bind fun frequency _ _ ⟨hf, _⟩ => ?_
  refine expectMark_does.bind fun _ _ _ _ => ?_
  refine expression_does.bind fun duration _ _ ⟨hd, _⟩ => line_does ?_
  exact .intro ((Reads.around hf.1 rfl).piece hd.1 rfl)

/-- A line around an argument. -/
def Around (front back : String) : Prop := ∀ value, Sealed value → Flat (front ++ value ++ back)

theorem unaryStatement_does (h : Around front back) :
    Acts tape .line s (unaryStatement front back) :=
  expression_does.bind fun value _ _ ⟨hv, _⟩ => line_does (h value hv.1)

theorem defaultStatement_does (h : Around front back)
    (hd : Sealed default) : Acts tape .line s (defaultStatement front default back) := by
  refine optionalExpression_does.bind fun value _ _ hv => line_does (h _ ?_)
  cases value with
  | none => exact hd
  | some text => exact hv text rfl

/-! ### Graphics -/

/-- The coordinates of a point are sealed. -/
structure Emit.Point.Fits (p : Point) : Prop where
  x : Sealed p.x
  y : Sealed p.y

theorem point_does : Does tape level s point fun p _ => p.Fits := by
  refine takeKeyword_does.bind fun _ _ _ _ => ?_
  refine expectMark_does.bind fun _ _ _ _ => ?_
  refine expression_does.bind fun x _ _ ⟨hx, _⟩ => ?_
  refine expectMark_does.bind fun _ _ _ _ => ?_
  refine expression_does.bind fun y _ _ ⟨hy, _⟩ => ?_
  exact expectMark_does.bind fun _ _ _ _ => .pure ⟨hx.1, hy.1⟩

theorem absentPoint_fits : absentPoint.Fits := ⟨sealed_absent, sealed_absent⟩

theorem atPoint_sees : Sees tape s atPoint fun _ => True :=
  current_sees.seen fun _ _ => .pure trivial

theorem colorArgument_does : Does tape level s colorArgument fun text _ => Sealed text := by
  refine takeMark_does.bind fun _ _ _ _ => ?_
  split
  · exact expression_does.mono fun _ _ _ h => h.1.1
  · exact .pure sealed_absent

theorem gapArgument_does : Does tape level s gapArgument fun text _ => Sealed text := by
  refine atGap_sees.bind fun _ _ => ?_
  split
  · exact .pure sealed_absent
  · exact expression_does.mono fun _ _ _ h => h.1.1

theorem pixelStatement_does (h : Sealed callee) : Acts tape .line s (pixelStatement callee) := by
  refine point_does.bind fun p _ _ hp => ?_
  refine colorArgument_does.bind fun color _ _ hc => line_does ?_
  exact .intro ((((Reads.around h rfl).piece hp.x rfl).piece hp.y rfl).piece hc rfl)

theorem lineFrame_does : Acts tape level s lineFrame := by
  refine takeMark_does.bind fun _ _ _ _ => ?_
  split
  · refine atWord_sees.bind fun _ ⟨box, hbox, hbf⟩ => ?_
    refine atWord_sees.bind fun _ ⟨word, hword, hb⟩ => atMark_sees.bind fun _ _ => ?_
    extract_lets jp
    have hjp : ∀ frame s', Acts tape level s' (jp frame) := by
      intro frame s'
      refine takeMark_does.bind fun _ _ _ _ => ?_
      extract_lets jp'
      split
      · exact expression_does.bind fun _ _ _ _ => .pure trivial
      · exact .pure trivial
    split
    · rename_i h
      exact (advance_from hbox (Token.endsLine_of_isWord (hbf h))).bind fun _ s' _ _ =>
        .pure_bind (hjp _ s')
    split
    · rename_i h
      exact (advance_from hword (Token.endsLine_of_isWord (hb h))).bind fun _ s' _ _ =>
        .pure_bind (hjp _ s')
    split
    · exact .pure_bind (hjp _ _)
    · exact rejectHere_bind (.of_letters rfl rfl)
  · exact .pure trivial

theorem sealed_truthWord (b : Bool) : Sealed (truthWord b) := by cases b <;> exact Reads.start rfl

theorem flat_call {r : Reader}
    (hc : Reads .fresh callee r) (hr : r.isRoomy = true) (hv : ∀ value ∈ values, Sealed value)
    (hend : r.read [')', ';'] = some { mode := .code }) :
    Flat (callee ++ commas values ++ ");") :=
  .intro ((hc.list hr (inner_commas hv)).lit hend)

theorem drawLineStatement_does : Acts tape .line s drawLineStatement := by
  refine atPoint_sees.bind fun _ _ => ?_
  extract_lets jp
  have hjp : ∀ start s', start.Fits → Acts tape .line s' (jp start) := by
    intro start s' hstart
    refine expectOperator_does.bind fun _ _ _ _ => ?_
    refine point_does.bind fun stop _ _ hstop => ?_
    refine takeMark_does.bind fun isMore _ _ _ => ?_
    extract_lets jp'
    have hjp' : ∀ color s', Sealed color → Acts tape .line s' (jp' color) := by
      intro color s' hcolor
      dsimp -zeta only [jp']
      extract_lets jp''
      have hjp'' : ∀ frame s', Acts tape .line s' (jp'' frame) := by
        rintro ⟨box, fill⟩ s'
        refine line_does (flat_call (.start rfl) rfl ?_ rfl)
        simpa using ⟨hstart.x, hstart.y, hstop.x, hstop.y, hcolor, sealed_truthWord box,
          sealed_truthWord fill⟩
      split
      · exact lineFrame_does.bind fun frame s' _ _ => hjp'' frame s'
      · exact .pure_bind (hjp'' _ _)
    split
    · exact gapArgument_does.bind fun color s' _ hc => hjp' color s' hc
    · exact .pure_bind (hjp' _ _ sealed_absent)
  split
  · exact point_does.bind fun start s' _ h => hjp start s' h
  · exact .pure_bind (hjp _ _ ⟨.start rfl, .start rfl⟩)

theorem lineStatement_does : Acts tape .line s lineStatement := by
  refine takeKeyword_does.bind fun _ _ _ _ => ?_
  split
  · exact lineInputStatement_does
  · exact drawLineStatement_does

theorem circleStatement_does : Acts tape .line s circleStatement := by
  refine point_does.bind fun p _ _ hp => ?_
  refine expectMark_does.bind fun _ _ _ _ => ?_
  refine expression_does.bind fun radius _ _ ⟨hr, _⟩ => ?_
  refine takeMark_does.bind fun _ _ _ _ => ?_
  extract_lets jp
  have hjp : ∀ more s', (∀ value ∈ more, Sealed value) → Acts tape .line s' (jp more) := by
    intro more s' hmore
    refine line_does ?_
    exact .intro ((((Reads.around hp.x rfl).piece hp.y rfl).piece hr.1 rfl).piece
      (sealed_getD hmore 0 sealed_absent) rfl)
  split
  · exact gappedArguments_does.bind fun more s' _ h => hjp more s' h
  · exact .pure_bind (hjp _ _ (by simp))

theorem flat_comment {word : String} {chars : List Char} (h : Wordy word)
    (hend : Reader.read { mode := .code, remark := true } chars =
      some { mode := .code, remark := true }) :
    Flat ("// " ++ word ++ String.ofList chars) :=
  .intro (((Reads.start rfl).frag rfl h.solid.1).lit hend)

theorem fileRecordStatement_does (ht : token ∈ tape.tokens)
    (hw : Wordy token.text) : Acts tape .line s (fileRecordStatement token) := by
  refine skipStatement_does.bind fun _ _ _ _ => ?_
  exact (warnAt_does ht).bind fun _ _ _ _ => line_does (flat_comment hw rfl)

theorem getStatement_does (ht : token ∈ tape.tokens) (hw : Wordy token.text) :
    Acts tape .line s (getStatement token) := by
  refine atMark_sees.bind fun _ _ => ?_
  split
  · exact fileRecordStatement_does ht hw
  · refine point_does.bind fun start _ _ hstart => ?_
    refine expectOperator_does.bind fun _ _ _ _ => ?_
    refine point_does.bind fun stop _ _ hstop => ?_
    refine expectMark_does.bind fun _ _ _ _ => ?_
    refine expectName_does.bind fun array _ _ _ => line_does (flat_call (.start rfl) rfl ?_ rfl)
    simpa using ⟨hstart.x, hstart.y, hstop.x, hstop.y, (literal_solid array.text).1⟩

theorem putAction_does : Does tape level s putAction fun text _ => Sealed text := by
  refine takeMark_does.bind fun _ _ _ _ => ?_
  split
  · refine current_sees.bind fun token ht => ?_
    extract_lets jp
    split
    · rename_i hword
      exact (advance_from ht (Token.endsLine_of_isWord hword)).bind fun _ _ _ _ =>
        .pure (literal_solid _).1
    · exact rejectHere_bind (.of_letters rfl rfl)
  · exact .pure sealed_absent

theorem putStatement_does (ht : token ∈ tape.tokens) (hw : Wordy token.text) :
    Acts tape .line s (putStatement token) := by
  refine atMark_sees.bind fun _ _ => ?_
  split
  · exact fileRecordStatement_does ht hw
  · refine point_does.bind fun p _ _ hp => ?_
    refine expectMark_does.bind fun _ _ _ _ => ?_
    refine expectName_does.bind fun array _ _ _ => ?_
    refine putAction_does.bind fun action _ _ haction =>
      line_does (flat_call (.start rfl) rfl ?_ rfl)
    simpa using ⟨hp.x, hp.y, (literal_solid array.text).1, haction⟩

theorem corners_does : Does tape level s corners fun points _ =>
    points.1.Fits ∧ points.2.Fits := by
  refine point_does.bind fun first _ _ hfirst => ?_
  refine Does.bind (Q := fun second _ => ∀ p ∈ second, p.Fits) ?_ fun second _ _ hsecond => .pure ?_
  · refine takeOperator_does.bind fun _ _ _ _ => ?_
    split
    · exact point_does.bind fun p _ _ hp => .pure (by simpa using hp)
    · exact .pure (by simp)
  · cases second with
    | none => exact ⟨hfirst, absentPoint_fits⟩
    | some p => exact ⟨hfirst, hsecond p rfl⟩

theorem sourceCorners_does : Does tape level s sourceCorners fun points _ =>
    points.1.Fits ∧ points.2.Fits := by
  refine takeMark_does.bind fun _ _ _ _ => ?_
  split
  · exact corners_does
  · exact .pure ⟨absentPoint_fits, absentPoint_fits⟩

theorem imageTarget_does : Does tape level s imageTarget fun target _ =>
    Sealed target.1 ∧ target.2.1.Fits ∧ target.2.2.Fits := by
  refine takeMark_does.bind fun _ _ _ _ => ?_
  split
  · refine gapArgument_does.bind fun image _ _ himage => ?_
    exact sourceCorners_does.bind fun points _ _ hpoints => .pure ⟨himage, hpoints⟩
  · exact .pure ⟨sealed_absent, absentPoint_fits, absentPoint_fits⟩

theorem imageSource_does : Does tape level s imageSource fun source _ =>
    Sealed source.1 ∧ Sealed source.2.1 ∧ source.2.2.1.Fits ∧ source.2.2.2.Fits := by
  refine takeMark_does.bind fun _ _ _ _ => ?_
  split
  · refine gapArgument_does.bind fun image _ _ himage => ?_
    exact imageTarget_does.bind fun target _ _ htarget => .pure ⟨himage, htarget⟩
  · exact .pure ⟨sealed_absent, sealed_absent, absentPoint_fits, absentPoint_fits⟩

theorem putImageStatement_does : Acts tape .line s putImageStatement := by
  refine atPoint_sees.bind fun _ _ => ?_
  extract_lets jp
  have hjp : ∀ points s', points.1.Fits ∧ points.2.Fits → Acts tape .line s' (jp points) := by
    rintro ⟨d1, d2⟩ s' ⟨h1, h2⟩
    refine imageSource_does.bind fun (source, target, s1, s2) _ _ h => ?_
    obtain ⟨hsource, htarget, hs1, hs2⟩ := h
    refine line_does (flat_call (.start rfl) rfl ?_ rfl)
    simpa using ⟨h1.x, h1.y, h2.x, h2.y, hsource, htarget, hs1.x, hs1.y, hs2.x, hs2.y⟩
  split
  · exact corners_does.bind fun points s' _ h => hjp points s' h
  · exact .pure_bind (hjp (absentPoint, absentPoint) s ⟨absentPoint_fits, absentPoint_fits⟩)

theorem printStringStatement_does : Acts tape .line s printStringStatement := by
  refine point_does.bind fun p _ _ hp => ?_
  refine expectMark_does.bind fun _ _ _ _ => ?_
  refine expression_does.bind fun text _ _ ⟨htext, _⟩ => ?_
  refine takeMark_does.bind fun _ _ _ _ => ?_
  extract_lets jp
  have hjp : ∀ s', Acts tape .line s' (jp ()) := fun s' =>
    line_does (.intro (((Reads.around hp.x rfl).piece hp.y rfl).piece htext.1 rfl))
  split
  · exact expression_does.bind fun _ s' _ _ => hjp s'
  · exact hjp _

/-! ### Files -/

theorem fileMode_does : Acts tape level s fileMode := by
  refine takeKeyword_does.bind fun _ _ _ _ => ?_
  split
  · refine current_sees.bind fun token ht => ?_
    extract_lets jp
    split
    · rename_i h
      have hk : token.kind = .keyword := of_decide_eq_true (Bool.and_eq_true_iff.1 h).1
      exact (advance_from ht (by simp [Token.endsLine, hk])).bind fun _ _ _ _ => .pure trivial
    · exact rejectHere_bind (Apart.append (.of_letters rfl rfl))
  · exact .pure trivial

theorem openOldForm_does {mode : String} (h : Sealed mode) :
    Acts tape .line s (openOldForm mode) := by
  refine takeMark_does.bind fun _ _ _ _ => ?_
  refine expression_does.bind fun number _ _ ⟨hnumber, _⟩ => ?_
  refine expectMark_does.bind fun _ _ _ _ => ?_
  refine expression_does.bind fun file _ _ ⟨hfile, _⟩ => line_does ?_
  exact .intro ((((Reads.around hfile.1 rfl).lit rfl).piece h rfl).piece hnumber.1 rfl)

theorem openStatement_does : Acts tape .line s openStatement := by
  refine expression_does.bind fun file _ _ ⟨hfile, _⟩ => ?_
  refine takeMark_does.bind fun _ _ _ _ => ?_
  split
  · exact openOldForm_does hfile.1
  · refine fileMode_does.bind fun mode _ _ _ => ?_
    refine (skipWhile_does fun t h => not_endsStatement (Bool.and_eq_true_iff.1 h).2).bind
      fun _ _ _ _ => ?_
    refine expectKeyword_does.bind fun _ _ _ _ => ?_
    refine takeMark_does.bind fun _ _ _ _ => ?_
    refine expression_does.bind fun number _ _ ⟨hnumber, _⟩ => ?_
    refine takeKeyword_does.bind fun _ _ _ _ => ?_
    extract_lets jp
    have hjp : ∀ s', Acts tape .line s' (jp ()) := fun s' =>
      line_does
        (.intro (((Reads.around hfile.1 rfl).piece (literal_solid mode).1 rfl).piece hnumber.1 rfl))
    split
    · refine expectOperator_does.bind fun _ _ _ _ => ?_
      exact expression_does.bind fun _ s' _ _ => hjp s'
    · exact hjp _

theorem closeFileStatement_does : Acts tape .line s closeFileStatement := by
  refine atStatementEnd_sees.bind fun _ _ => ?_
  split
  · exact line_does (.intro (.start rfl))
  · refine (commaList_does (fun _ => True) fun s' _ => ?_).bind fun _ _ _ _ => .pure trivial
    refine takeMark_does.bind fun _ _ _ _ => ?_
    refine expression_does.bind fun number _ _ ⟨hnumber, _⟩ => line_does ?_
    exact .intro (.around hnumber.1 rfl)

/-! ### Jumps -/

/-- A label of the tape: its text is a word. -/
structure Tape.Labels (tape : Tape) (token : Token) : Prop where
  mem : token ∈ tape.tokens
  wordy : Wordy token.text

theorem Tape.labels (ht : token ∈ tape.tokens) (h : token.isLabel = true) : tape.Labels token :=
  ⟨ht, (tape.fits token ht).wordy ((Token.kind_of_isLabel h).imp_right .inr)⟩

theorem advance_label (ht : tape.Under s token) (h : token.isLabel = true) :
    Does tape level s advance fun label _ => tape.Labels label := by
  refine (advance_from ht (Token.endsLine_of_isLabel h)).mono fun label _ _ ⟨hl, _⟩ => ?_
  subst hl
  exact tape.labels ht.mem h

theorem labelAfter_does {keyword : String} :
    Does tape level s (labelAfter keyword) fun label _ => tape.Labels label := by
  refine atLabel_sees.bind fun b ⟨token, ht, hb⟩ => ?_
  extract_lets jp
  split
  · exact advance_label ht (hb.1 ‹_›)
  · exact rejectHere_bind (Apart.append (.of_letters rfl rfl))

theorem emitGoto_does {label : Token} (h : tape.Labels label) :
    Acts tape .line s (emitGoto label) := by
  refine (line_does ?_).bind fun _ _ _ _ => warnAt_does h.mem
  exact .intro (.around h.wordy.solid.1 rfl)

theorem gotoStatement_does : Acts tape .line s gotoStatement :=
  labelAfter_does.bind fun _ _ _ h => emitGoto_does h

theorem gosubStatement_does : Acts tape .line s gosubStatement := by
  refine labelAfter_does.bind fun label _ _ h => ?_
  refine (warnAt_does h.mem).bind fun _ _ _ _ => ?_
  split
  · exact line_does (.intro (.around h.wordy.solid.1 rfl))
  · exact line_does (.intro ((Reads.around h.wordy.mangle.solid.1 rfl).frag rfl h.wordy.solid.1))

theorem returnStatement_does : Acts tape .line s returnStatement :=
  (take_does fun _ => Token.endsLine_of_isLabel).bind fun _ _ _ _ => line_does (.intro (.start rfl))

theorem onErrorStatement_does : Acts tape .line s onErrorStatement := by
  refine takeKeyword_does.bind fun _ _ _ _ => ?_
  split
  · refine labelAfter_does.bind fun label _ _ h => ?_
    split
    · exact line_does (.intro (.start rfl))
    · exact line_does (.intro (.around h.wordy.solid.1 rfl))
  · refine takeKeyword_does.bind fun _ _ _ _ => ?_
    split
    · exact expectKeyword_does.bind fun _ _ _ _ => line_does (.intro (.start rfl))
    · exact rejectHere_does (.of_letters rfl rfl)

theorem onEventStatement_does {event : Token} (ht : event ∈ tape.tokens)
    (h : trappedEvents.contains (upper event.text) = true) :
    Acts tape .line s (onEventStatement event) := by
  unfold onEventStatement
  extract_lets name
  have hname : Wordy name := by
    simp only [trappedEvents, contains_eq_mem, mem_cons, not_mem_nil,
      or_false, decide_eq_true_eq] at h
    rcases h with h | h | h | h | h | h <;> simp only [name, h] <;>
      exact wordy_ofList (by simp) (by decide)
  refine skipStatement_does.bind fun _ _ _ _ => ?_
  refine (warnAt_does ht).bind fun _ _ _ _ => line_does ?_
  exact .intro (.around hname.solid.1 rfl)

theorem inner_labels {labels : List Token} (h : ∀ label ∈ labels, tape.Labels label) :
    Inner (commas (labels.map (·.text))) := by
  refine inner_commas fun text ht => ?_
  obtain ⟨label, hlabel, rfl⟩ := mem_map.1 ht
  exact (h label hlabel).wordy.solid.1

theorem inner_labelFunctions {labels : List Token} (h : ∀ label ∈ labels, tape.Labels label) :
    Inner (commas (labelFunctions labels)) := by
  refine inner_commas fun text ht => ?_
  obtain ⟨label, hlabel, rfl⟩ := mem_map.1 ht
  exact (h label (mem_filter.1 hlabel).1).wordy.mangle.solid.1

theorem onValueStatement_does (ht : token ∈ tape.tokens) :
    Acts tape .line s (onValueStatement token) := by
  refine expression_does.bind fun selector _ _ ⟨hs, _⟩ => ?_
  refine takeKeyword_does.bind fun _ _ _ _ => ?_
  split
  · refine (commaList_does tape.Labels fun _ _ => labelAfter_does).bind fun labels _ _ hlabels => ?_
    refine (line_does ?_).bind fun _ _ _ _ => warnAt_does ht
    exact .intro ((Reads.around hs.1 rfl).within (inner_labels hlabels) rfl)
  refine takeKeyword_does.bind fun _ _ _ _ => ?_
  split
  · refine (commaList_does tape.Labels fun _ _ => labelAfter_does).bind fun labels _ _ hlabels => ?_
    refine (warnAt_does ht).bind fun _ _ _ _ => ?_
    refine (temporary_does (wordy_ofList (by simp) (by decide))).bind fun choice _ _ hc =>
      line_does ?_
    have hc := hc.solid.1
    exact .intro
      (((((((Reads.around hc rfl).piece hs.1 rfl).piece hc rfl).piece hc rfl).piece
        (wordy_natToString _).solid.1 rfl).within
      (inner_labelFunctions hlabels) rfl).piece hc rfl)
  · exact rejectHere_does (.of_letters rfl rfl)

theorem onStatement_does (ht : token ∈ tape.tokens) : Acts tape .line s (onStatement token) := by
  refine takeKeyword_does.bind fun _ _ _ _ => ?_
  split
  · exact onErrorStatement_does
  · refine current_sees.bind fun event he => ?_
    split
    · exact onEventStatement_does he.mem ‹_›
    · exact onValueStatement_does ht

theorem resumeStatement_does : Acts tape .line s resumeStatement := by
  refine takeKeyword_does.bind fun _ _ _ _ => ?_
  split
  · exact line_does (.intro (.start rfl))
  refine atLabel_sees.bind fun b ⟨token, ht, hb⟩ => ?_
  split
  · refine (advance_label ht (hb.1 ‹_›)).bind fun label _ _ h => line_does ?_
    exact .intro ((Reads.start rfl).frag rfl h.wordy.solid.1)
  · exact line_does (.intro (.start rfl))

end BasicScript
