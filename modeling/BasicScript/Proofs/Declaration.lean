import BasicScript.Proofs.Statement

/-!
# Declarations

Variables, constants, record types, one-line functions and the headers of procedures.  A type that
was read behind `AS` names a record type that is there and stays (`Known`), so the function that
makes its records is always found (`makerOf_sees`).
-/

namespace BasicScript

open Emit Script Text List

variable {tape : Tape} {level : Level} {s s' : State} {token name : Token}
    {how : Declaring} {type : TypeSpec}
  {list : List Parameter} {bounds : Option (List String)} {isArray : Bool} {value jsName : String}
  {fields : Table TypeSpec} {kind : ProcedureKind} {values : List String}

/-! ### Types -/

/-- The record type that a type names is there. -/
def Known (s : State) (type : TypeSpec) : Prop := ∀ key ∈ type.record, s.records.holds key = true

theorem Known.mono (h : Known s type) (hg : Grows s s') : Known s' type :=
  fun key hk => hg.records key (h key hk)

theorem typeSpec_does :
    Does tape level s typeSpec fun type s' => Known s' type ∧ tape.Tilts 0 0 s s' := by
  refine .ofSound fun hs => current_sees.bind fun token ht => ?_
  split
  · rename_i hk
    have heven : token.Even := .of_kind (by simp [Token.endsLine, hk]) (by simp [hk])
    refine (advance_from ht heven.endsLine).bind ?_
    rintro _ s₁ _ ⟨-, hp₁⟩
    have htilts : tape.Tilts 0 0 s s₁ := ht.even hs hp₁ heven
    extract_lets key
    refine .get (fun _ => rfl) ?_
    split
    · exact .pure ⟨by simpa [Known] using ‹_›, htilts⟩
    · refine (reportAt_does ht.mem (Apart.append (.of_letters rfl rfl)).append).bind ?_
      rintro _ s₂ _ ⟨_, _, rfl⟩
      exact .pure ⟨by simp [Known], htilts⟩
  · rename_i hk
    have heven : token.Even := .of_kind (by simp [Token.endsLine, hk]) (by simp [hk])
    refine (advance_from ht heven.endsLine).bind ?_
    rintro _ s₁ _ ⟨-, hp₁⟩
    have htilts : tape.Tilts 0 0 s s₁ := ht.even hs hp₁ heven
    extract_lets text jp
    have hjp : ∀ s', tape.Tilts 0 0 s s' → Does tape level s' (jp ()) fun type s' =>
        Known s' type ∧ tape.Tilts 0 0 s s' := by
      intro s' htilts
      dsimp -zeta only [jp]
      split
      · refine (take_tilts fun _ => Token.Even.operator).bind fun _ _ _ htilts₂ => ?_
        split
        · refine expression_operand.bind ?_
          rintro _ _ _ ⟨-, -, htilts₃⟩
          exact .pure ⟨by simp [Known], (htilts.trans htilts₂).trans htilts₃⟩
        · exact .pure ⟨by simp [Known], htilts.trans htilts₂⟩
      · exact .pure ⟨by simp [Known], htilts⟩
    split
    · refine (take_tilts fun t hword => ?_).bind fun _ s' _ htilts' => hjp s' (htilts.trans htilts')
      have hk' : t.kind = .keyword := by simpa using hword
      exact .of_kind (by simp [Token.endsLine, hk']) (by simp [hk'])
    · exact hjp _ htilts
  · exact rejectHere_does (Apart.append (.of_letters rfl rfl))

theorem typeSpec?_does : Does tape level s typeSpec? fun given s' =>
    (∀ type ∈ given, Known s' type) ∧ tape.Tilts 0 0 s s' := by
  refine (take_tilts fun _ => Token.Even.keyword).bind fun _ _ _ htilts => ?_
  split
  · exact typeSpec_does.bind fun type _ _ ⟨h, htilts'⟩ =>
      .pure ⟨by simpa using h, htilts.trans htilts'⟩
  · exact .pure ⟨by simp, htilts⟩

theorem known_typeOfName {name : String} {given : Option TypeSpec}
    (h : ∀ type ∈ given, Known s type) : Known s (typeOfName name given) := by
  cases given with
  | none => simp [typeOfName, Known]
  | some type => exact h type rfl

theorem makerOf_sees {key : String} (h : s.records.holds key = true) :
    Sees tape s (makerOf key) Wordy := by
  refine .ofSound fun hs => .get (fun _ => rfl) ?_
  obtain ⟨type, htype⟩ := Option.isSome_iff_exists.1 h
  rw [htype]
  exact .pure (hs.records _ (mem_of_get? htype)).wordy

theorem solid_plainValue (type : TypeSpec) : Solid (plainValue type) := by
  unfold plainValue
  split <;> exact ⟨.start rfl, by simp⟩

theorem initialValue_sees (h : Known s type) : Sees tape s (initialValue type) Solid := by
  unfold initialValue
  split
  · rename_i key hkey
    exact (makerOf_sees (h key hkey)).seen fun maker hm => .pure (hm.solid.append (.start rfl))
  · exact .pure (solid_plainValue type)

theorem elementValue_sees (h : Known s type) : Sees tape s (elementValue type) Solid := by
  unfold elementValue
  split
  · rename_i key hkey
    exact fun hs => (makerOf_sees (h key hkey) hs).imp fun _ hm => ⟨hm.1, hm.2.solid⟩
  · exact .pure (solid_plainValue type)

/-! ### Parameters -/

theorem takeKeyword_counts {word : String} : Does tape level s (takeKeyword word) fun _ s' =>
    ∀ commas any, ∃ any', tape.countFrom commas any s = tape.countFrom commas any' s' := by
  refine .ofSound fun hs => (take_tests fun _ => Token.endsLine_of_isKeyword).mono ?_
  rintro b s' _ ⟨token, ht, hword, hs'⟩ commas any
  cases b with
  | true => exact ⟨true, ht.countFrom_even hs hs' commas any (.keyword hword)⟩
  | false =>
    obtain rfl : s' = s := hs'
    exact ⟨any, rfl⟩

/-- A parameter has no comma that counts, and it counts. -/
theorem parameter_does : Does tape level s parameter fun p s' =>
    p.Fits tape ∧ ∀ commas any, tape.countFrom commas any s = tape.countFrom commas true s' := by
  refine takeKeyword_counts.bind fun _ s₁ _ hcount₁ => ?_
  extract_lets jp
  have hjp :
      ∀ s₂, (∀ commas any, ∃ any', tape.countFrom commas any s = tape.countFrom commas any' s₂) →
        Does tape level s₂ (jp ()) fun p s' =>
        p.Fits tape ∧ ∀ commas any, tape.countFrom commas any s =
          tape.countFrom commas true s' := by
    intro s₂ hcount₂
    refine .ofSound fun hs₂ => expectName_under.sound.bind ?_
    rintro token s₃ _ ⟨hs₃, ht, hk, hp₃⟩
    have heven : token.Even := .of_kind (by simp [Token.endsLine, hk]) (by simp [hk])
    refine (take_tests fun _ => Token.endsLine_of_isMark).sound.bind ?_
    rintro isArray s₄ _ ⟨hs₄, mark, hmark, htext, hmoved⟩
    extract_lets jp'
    -- behind the name the parentheses close
    have hjp' : ∀ s₅, tape.Tilts 0 0 s₃ s₅ → Does tape level s₅ (jp' ()) fun p s' =>
        p.Fits tape ∧ ∀ commas any, tape.countFrom commas any s =
          tape.countFrom commas true s' := by
      intro s₅ htilts
      refine typeSpec?_does.bind ?_
      rintro given s₆ _ ⟨-, htilts'⟩
      refine .pure ⟨Tape.Names.titled ⟨ht.mem, hk⟩, fun commas any => ?_⟩
      obtain ⟨any', hcount⟩ := hcount₂ commas any
      rw [hcount, ht.countFrom_even hs₂ hp₃ commas any' heven, (htilts.trans htilts').countFrom]
    cases isArray with
    | true =>
      refine (expect_does fun _ => Token.endsLine_of_isMark).bind ?_
      rintro _ s₅ _ ⟨hclose, hend, hp₅⟩
      exact hjp' s₅ ((hmark.opens hs₃ hmoved htext).trans (hclose.closes hs₄ hp₅ hend))
    | false =>
      obtain rfl : s₄ = s₃ := hmoved
      exact hjp' s₄ (.refl s₄)
  split
  · exact hjp _ hcount₁
  · refine takeKeyword_counts.bind fun _ s₂ _ hcount₂ => hjp s₂ fun commas any => ?_
    obtain ⟨any₁, hcount⟩ := hcount₁ commas any
    rw [hcount]
    exact hcount₂ commas any₁

/-- **Parameters.**  The number that is counted by the commas is the number of parameters that are
read. -/
theorem parameters_does : Does tape level s parameters fun list _ =>
    (∀ p ∈ list, p.Fits tape) ∧ parameterCount (tape.tokens.toList.drop s.position.toNat) =
      list.length := by
  refine .ofSound fun hs => (take_tests fun _ => Token.endsLine_of_isMark).sound.bind ?_
  rintro b s₁ _ ⟨hs₁, token, ht, hmark, hmoved⟩
  cases b with
  | false =>
    exact .pure ⟨by simp, by simp [Tape.drop_eq hs.position_nonneg ht, parameterCount, hmark]⟩
  | true =>
    rw [ht.parameterCount_opens hs hmoved hmark]
    refine (take_tests fun _ => Token.endsLine_of_isMark).bind ?_
    rintro b s₂ _ ⟨close, hclose, htext, hmoved₂⟩
    cases b with
    | true => exact .pure ⟨by simp, hclose.countFrom_closes hs₁ 0 false htext⟩
    | false =>
      obtain rfl : s₂ = s₁ := hmoved₂
      refine (commaList_keeps
        (I := fun list s' => (∀ p ∈ list, p.Fits tape) ∧
          ∃ any, tape.countFrom 0 false s₂ = tape.countFrom list.length any s')
        (J := fun list s' => (∀ p ∈ list, p.Fits tape) ∧
          ∃ commas, list.length = commas + 1 ∧ tape.countFrom 0 false s₂ =
          tape.countFrom commas true s')
        ⟨by simp, false, rfl⟩ ?_ ?_).sound.bind ?_
      · rintro front s' _ ⟨hfront, any, hcount⟩
        refine parameter_does.mono ?_
        rintro p _ _ ⟨hp, hcount'⟩
        refine ⟨?_, front.length, by simp, hcount.trans (hcount' _ _)⟩
        exact forall_mem_append.2 ⟨hfront, forall_mem_singleton.2 hp⟩
      · rintro list s₃ s₄ comma ⟨hlist, commas, hlength, hcount⟩ hs₃ hcomma htext hp
        exact ⟨hlist, true,
          by rw [hcount, hcomma.countFrom_comma hs₃ hp commas true htext, hlength]⟩
      · rintro list s₃ _ ⟨hs₃, hlist, commas, hlength, hcount⟩
        refine (expect_does fun _ => Token.endsLine_of_isMark).bind ?_
        rintro _ _ _ ⟨hend, htext, -⟩
        refine .pure ⟨hlist, ?_⟩
        rw [hcount, hend.countFrom_closes hs₃ commas true htext, hlength]
        rfl

theorem inner_parameterNames (h : ∀ p ∈ list, p.Fits tape) : Inner (parameterNames list) := by
  refine inner_commas fun text ht => ?_
  obtain ⟨p, hp, rfl⟩ := mem_map.1 ht
  exact (Tape.Titled.wordy (h p hp)).solid.1

/-! ### Variables and arrays -/

theorem bound_does : Does tape level s bound fun text _ => Sealed text := by
  refine expression_does.bind fun first _ _ ⟨hfirst, _⟩ => ?_
  refine takeKeyword_does.bind fun _ _ _ _ => ?_
  split
  · exact expression_does.mono fun _ _ _ h => h.1.1
  · exact .pure hfirst.1

theorem bounds?_does : Does tape level s bounds? fun bounds _ =>
    ∀ list ∈ bounds, ∀ text ∈ list, Sealed text := by
  refine takeMark_does.bind fun _ _ _ _ => ?_
  split
  · refine atMark_sees.bind fun _ _ => ?_
    extract_lets jp
    have hjp : ∀ list s', (∀ text ∈ list, Sealed text) →
        Does tape level s' (jp list) fun bounds _ =>
          ∀ list ∈ bounds, ∀ text ∈ list, Sealed text := fun list s' hlist =>
      expectMark_does.bind fun _ _ _ _ => .pure (by simpa using hlist)
    split
    · exact .pure_bind (hjp [] _ (by simp))
    · exact (commaList_does Sealed fun _ _ => bound_does).bind fun list s' _ h => hjp list s' h
  · exact .pure (by simp)

theorem declaredValue_sees {kept : Option String}
    (hb : ∀ list ∈ bounds, ∀ text ∈ list, Sealed text) (ht : Known s type)
    (hk : ∀ array ∈ kept, Sealed array) : Sees tape s (declaredValue bounds type kept) Sealed := by
  unfold declaredValue
  split
  · exact fun hs => (initialValue_sees ht hs).imp fun _ h => ⟨h.1, h.2.1⟩
  · exact .pure (.start rfl)
  · refine (elementValue_sees ht).seen fun value hv => .pure ?_
    exact (Reads.around hv.1 rfl).within (inner_commas (hb _ rfl)) rfl
  · refine (elementValue_sees ht).seen fun value hv => .pure ?_
    exact (((Reads.around (hk _ rfl) rfl).piece hv.1 rfl).within (inner_commas (hb _ rfl)) rfl)

theorem declareNew_does {shared : Bool}
    (ht : tape.Names token) (hv : Sealed value) (hnew : s.scopes.local? token.text = none) :
    Acts tape .line s (declareNew token.text isArray type shared value) := by
  unfold declareNew
  extract_lets v
  have hvar : tape.Called (upper token.text) v.name := by simpa only [v] using ht.titled.called
  refine (emitDeclaration_does hvar hv hnew).bind fun ref _ _ href => ?_
  split
  · exact share_does (Scopes.lookup?_of_local? href)
  · exact .pure trivial

theorem declareAgain_does {ref : Ref} {old : Variable} (ht : token ∈ tape.tokens)
    (ho : Wordy old.name) (hv : Sealed value) (href : s.scopes.lookup? token.text = some ref) :
    Acts tape .line s (declareAgain token ref isArray type how old value) := by
  unfold declareAgain
  extract_lets jp
  have hjp : ∀ s', s'.scopes.lookup? token.text = some ref → Acts tape .line s' (jp ()) := by
    intro s' href'
    refine Does.bind (Q := fun _ s' => s'.scopes.lookup? token.text = some ref)
      ?_ fun _ s₁ _ href₁ => ?_
    · exact .event (.names (.refines ref isArray type.record)) (fun _ => rfl)
        rfl ⟨trivial, nofun⟩ href'
    refine (line_adds (flat_assign ho.solid hv)).bind fun _ s₂ _ hs₂ => ?_
    subst hs₂
    split
    · exact share_does href₁
    · exact .pure trivial
  split
  · refine (reportAt_does ht (Apart.append (.of_letters rfl rfl)).append).bind
      fun _ s' _ ⟨d, _, hs'⟩ => hjp s' ?_
    rw [hs']
    exact href
  · exact hjp _ href

theorem declareName_does (ht : tape.Names token)
    (hb : ∀ list ∈ bounds, ∀ text ∈ list, Sealed text) (hk : Known s type) :
    Acts tape .line s (declareName token bounds type how) := by
  refine .ofSound fun hs => scopes_does (fun n => by
    simp only [Scopes.lookup?_below, Scopes.local?_below, Scopes.cell?_below]) ?_
  extract_lets existing kept
  have hexisting : ∀ ref old, existing = some (ref, old) → Wordy old.name ∧
      s.scopes.lookup? token.text = some ref := by
    intro ref old h
    obtain ⟨ref', href', hcell⟩ := Option.bind_eq_some_iff.1 h
    obtain ⟨v, hv, he⟩ := Option.map_eq_some_iff.1 hcell
    obtain ⟨rfl, rfl⟩ := Prod.mk.inj he
    refine ⟨(hs.cells v (Array.mem_of_getElem? hv)).wordy, ?_⟩
    split at href'
    · exact href'
    · exact Scopes.lookup?_of_local? href'
  have hnew : existing = none → s.scopes.local? token.text = none := by
    intro hnone
    cases hlocal : s.scopes.local? token.text with
    | none => rfl
    | some ref =>
      have hlt : ref < s.scopes.cells.size := hs.scopes.current.refs _ ref hlocal
      simp [existing, Scopes.lookup?, hlocal, Scopes.cell?, hlt] at hnone
  have hkept : ∀ array ∈ kept, Sealed array := by
    intro array h
    simp only [kept] at h
    split at h
    · obtain ⟨⟨ref, old⟩, ho, rfl⟩ := Option.map_eq_some_iff.1 h
      exact (hexisting ref old ho).1.solid.1
    · cases h
  clear_value kept existing
  refine (declaredValue_sees hb hk hkept).bind fun value hv => ?_
  split
  · obtain ⟨ho, href⟩ := hexisting _ _ rfl
    exact declareAgain_does ht.mem ho hv href
  · exact declareNew_does ht hv (hnew rfl)

theorem declarationItem_does {common : Option TypeSpec} (h : ∀ type ∈ common, Known s type) :
    Acts tape .line s (declarationItem how common) := by
  refine expectName_does.bind fun token s₁ hg₁ ⟨ht, _⟩ => ?_
  refine bounds?_does.bind fun bounds s₂ hg₂ hbounds => ?_
  refine typeSpec?_does.bind fun own s₃ hg₃ ⟨hown, _⟩ => ?_
  refine declareName_does ht hbounds (known_typeOfName ?_)
  cases own with
  | none => exact fun type hc => (((h type hc).mono hg₁).mono hg₂).mono hg₃
  | some type => simpa using hown

theorem declarationItems_does : Acts tape .line s (declarationItems how) := by
  refine typeSpec?_does.bind fun common s₁ _ ⟨hcommon, _⟩ => ?_
  refine (commaList_does (fun _ => True) fun s₂ hg => ?_).bind fun _ _ _ _ => .pure trivial
  exact declarationItem_does fun type hc => (hcommon type hc).mono hg

theorem dimStatement_does : Acts tape .line s dimStatement :=
  takeKeyword_does.bind fun _ _ _ _ => declarationItems_does

theorem redimStatement_does : Acts tape .line s redimStatement :=
  takeKeyword_does.bind fun _ _ _ _ => takeKeyword_does.bind fun _ _ _ _ => declarationItems_does

theorem commonStatement_does (ht : token ∈ tape.tokens) :
    Acts tape .line s (commonStatement token) := by
  refine takeKeyword_does.bind fun _ _ _ _ => ?_
  refine scopes_does (fun n => by rw [Scopes.isModule_below]) ?_
  extract_lets jp
  split
  · exact declarationItems_does
  · exact (reportAt_does ht (.of_letters rfl rfl)).bind fun _ _ _ _ => declarationItems_does

/-! ### Constants -/

theorem constItem_does : Acts tape .line s constItem := by
  refine expectName_does.bind fun token _ _ ⟨ht, _⟩ => ?_
  refine expectOperator_does.bind fun _ _ _ _ => ?_
  refine expression_does.bind fun value _ _ ⟨hvalue, _⟩ => ?_
  refine scopes_does (fun n => by rw [Scopes.local?_below]) ?_
  split
  · exact (reportAt_does ht.mem (Apart.append (.of_letters rfl rfl)).append).mono fun _ _ _ _ =>
      trivial
  · rename_i hnone
    have hnew := Option.not_isSome_iff_eq_none.1 hnone
    extract_lets v jp
    have hcalled : tape.Called (upper token.text) v.name := by simpa only [v] using ht.titled.called
    have hv := hcalled.wordy
    have hshare : ∀ ref s', s'.scopes.local? token.text = some ref →
        Acts tape .line s' (jp ref) := by
      intro ref s' href
      refine scopes_does (fun n => by rw [Scopes.isModule_below]) ?_
      split
      · exact share_does (Scopes.lookup?_of_local? href)
      · exact .pure trivial
    refine atScopeBase_sees.bind fun _ hbase => ?_
    split
    · have hflat : Flat ("const " ++ v.name ++ " = " ++ value ++ ";") :=
        .intro ((Reads.around hv.solid.1 rfl).piece hvalue.1 rfl)
      exact Does.bind (introduce_does hcalled hflat ⟨value, .inr rfl⟩ (admits_plain hnew)
        nofun fun _ => hbase ‹_›)
        fun ref s' _ h => hshare ref s' h.1
    · exact (emitDeclaration_does hcalled hvalue.1 hnew).bind fun ref s' _ => hshare ref s'

theorem constStatement_does : Acts tape .line s constStatement :=
  (commaList_does (fun _ => True) fun _ _ => constItem_does).bind fun _ _ _ _ => .pure trivial

/-! ### Record types -/

/-- The fields of a record type have words for names and types that are there. -/
def FieldsFit (s : State) (fields : Table TypeSpec) : Prop :=
  ∀ field ∈ fields, Wordy field.1 ∧ Known s field.2

theorem FieldsFit.mono (h : FieldsFit s fields) (hg : Grows s s') : FieldsFit s' fields :=
  fun field hf => ⟨(h field hf).1, (h field hf).2.mono hg⟩

theorem recordFields_does : Does tape .full s recordFields fun result s' =>
    FieldsFit s' result.1 := by
  refine .loop (fun fields s' => FieldsFit s' fields) (by simp [FieldsFit])
    fun fields s₁ _ hfields => ?_
  refine current_sees.bind fun token ht => ?_
  split
  · exact .pure hfields
  rename_i hend
  split
  · refine (advance_past ht hend).bind fun _ s₂ hg₂ ⟨_, hp₂⟩ => ?_
    exact .pure ⟨by omega, hfields.mono hg₂⟩
  refine takeKeyword_does.bind fun b s₂ hg₂ hb => ?_
  split
  · refine expectKeyword_does.bind fun _ s₃ hg₃ _ => ?_
    exact .pure ((hfields.mono hg₂).mono hg₃)
  rename_i hb'
  obtain rfl : s₂ = s₁ := hb.2 (by simpa using hb')
  extract_lets jp
  split
  · rename_i hword
    refine (advance_past ht hend).bind fun _ s₃ hg₃ ⟨_, hp₃⟩ => ?_
    refine expectKeyword_does.bind fun _ s₄ hg₄ _ => ?_
    refine typeSpec_does.bind fun type s₅ hg₅ ⟨htype, _⟩ => ?_
    extract_lets type'
    refine endStatement_does.bind fun _ s₆ hg₆ _ => .pure ⟨?_, ?_⟩
    · have := hg₄.position
      have := hg₅.position
      have := hg₆.position
      omega
    · have hnew : Known s₆ type' := (known_typeOfName (by simpa using htype)).mono hg₆
      have hname : Wordy (memberName token) :=
        wordy_of_isIdentifier (tape.isIdentifier_memberName ht.mem hword)
      intro field hf
      rcases mem_insert hf with rfl | hf
      · simpa only using And.intro hname hnew
      · exact ((((hfields.mono hg₃).mono hg₄).mono hg₅).mono hg₆) field hf
  · exact rejectHere_bind (Apart.append (.of_letters rfl rfl))

theorem fieldInitials_sees (h : FieldsFit s fields) :
    Sees tape s (fieldInitials fields) fun texts => ∀ text ∈ texts, Inner text := by
  induction fields with
  | nil => exact .pure (by simp)
  | cons field rest ih =>
    obtain ⟨name, type⟩ := field
    obtain ⟨hname, htype⟩ := h _ (mem_cons_self ..)
    refine (initialValue_sees htype).seen fun value hv => ?_
    refine (ih fun f hf => h f (by simp [hf])).seen fun texts htexts => .pure ?_
    have htext : Inner (name ++ ": " ++ value) := (Reads.lit hname.solid.1.inner rfl).frag rfl hv.1
    simpa using ⟨htext, htexts⟩

theorem recordBody_does (ht : token ∈ tape.tokens) (hn : tape.Names name) :
    Acts tape .full s (recordBody token name) := by
  refine recordFields_does.bind fun (fields, closed) s₁ _ hfields => ?_
  dsimp -zeta only at hfields ⊢
  extract_lets maker jp
  have hmaker : tape.Titled (upper name.text) maker := by simpa only [maker] using hn.titled
  clear_value maker
  have hjp : ∀ s', FieldsFit s' fields → Acts tape .full s' (jp ()) := by
    intro s' hf
    refine Does.bind (Q := fun _ _ => True) ?_ fun _ s₂ hg₂ _ => ?_
    · exact .event (.enrols (.record _ ⟨maker, fields⟩)) (fun _ => rfl) rfl hmaker trivial
    refine (fieldInitials_sees (hf.mono hg₂)).bind fun texts htexts => (line_does ?_).rise (by simp)
    exact .intro ((Reads.around hmaker.wordy.solid.1 rfl).within
      (inner_joinWith (.start rfl) htexts) rfl)
  split
  · exact hjp _ hfields
  · exact (reportAt_does ht (.of_letters rfl rfl)).bind fun _ s' hg _ => hjp s' (hfields.mono hg)

theorem skipRecord_does : Acts tape .full s skipRecord := by
  refine .loop (fun _ _ => True) trivial fun _ s₁ _ _ => ?_
  refine atEnd_sees.bind fun b ⟨token, ht, hb⟩ => ?_
  split
  · exact .pure trivial
  rename_i hb'
  refine atLineStart_sees.bind fun _ _ => atKeyword_sees.bind fun _ _ =>
    peek_sees.bind fun _ _ => ?_
  split
  · exact advance_does.bind fun _ _ _ _ => advance_does.bind fun _ _ _ _ => .pure trivial
  · exact (advance_past ht (mt hb.2 hb')).bind fun _ _ _ ⟨_, hp⟩ => .pure ⟨by omega, trivial⟩

theorem typeStatement_does (ht : token ∈ tape.tokens) :
    Acts tape .full s (typeStatement token) := by
  refine Does.bind (Q := fun name _ => ∀ t ∈ name, tape.Names t)
    (.rescuing ?_ ?_) fun name _ _ hn => ?_
  · exact expectName_does.map fun t _ _ h => by simpa using h.1
  · exact fun r s' _ hr hs => record_bind hr hs (.pure (by simp))
  split
  · exact recordBody_does ht (hn _ rfl)
  · exact skipRecord_does

/-! ### One-line functions -/

namespace Scopes

variable {sc : Scopes}

/-- Names that parameters hide.  As long as they are bound, no declaration of them is made. -/
structure Hides (sc : Scopes) (list : List (String × Option Ref)) :
    Prop extends sc.Restorable list where
  bound : ∀ name, (name, none) ∈ list → sc.current.names.holds (upper name) = true

theorem Hides.nil : sc.Hides [] := ⟨⟨by simp, by simp⟩, by simp⟩

theorem Hides.hide {list : List (String × Option Ref)} (h : sc.Hides list)
    (hs : sc.Coherent) (p : Parameter) :
    (sc.hide p).Hides (list ++ [(p.name, sc.local? p.name)]) := by
  have hcells : (sc.hide p).cells.size = sc.cells.size + 1 := by simp [Scopes.hide, bind, allocate]
  have hnames : (sc.hide p).current.names = sc.current.names.insert (upper p.name) sc.cells.size :=
    names_bind ..
  have hdeclared : (sc.hide p).current.declared = sc.current.declared := declared_bind ..
  constructor
  · constructor
    · intro other ref hmem
      rw [hcells]
      rcases mem_append.1 hmem with hmem | hmem
      · exact Nat.lt_succ_of_lt (h.refs other ref hmem)
      · obtain ⟨rfl, hlocal⟩ := Prod.mk.inj (mem_singleton.1 hmem)
        exact Nat.lt_succ_of_lt (hs.current.refs _ ref hlocal.symm)
    · intro other hmem hdeclares
      rw [Scope.Declares, hdeclared] at hdeclares
      rcases mem_append.1 hmem with hmem | hmem
      · exact h.undeclared other hmem hdeclares
      · obtain ⟨rfl, hlocal⟩ := Prod.mk.inj (mem_singleton.1 hmem)
        have hfree := local?_eq_none_iff.1 hlocal.symm
        rw [hs.current.bound _ hdeclares] at hfree
        cases hfree
  · intro other hmem
    rw [hnames]
    rcases mem_append.1 hmem with hmem | hmem
    · exact holds_insert (h.bound other hmem)
    · obtain ⟨rfl, -⟩ := Prod.mk.inj (mem_singleton.1 hmem)
      rw [Table.holds, Table.get?_insert, if_pos rfl]
      rfl

theorem Hides.hideAll {front : List (String × Option Ref)} (h : sc.Hides front) (hs : sc.Coherent)
    (list : List Parameter) : (sc.hideAll list).Hides (front ++ sc.hidden list) := by
  induction list generalizing sc front with
  | nil => simpa [Scopes.hideAll, hidden] using h
  | cons p rest ih =>
    have hfirst := h.hide hs p
    have hnext : (sc.hide p).Coherent := (hs.allocate p.slot).bind (by simp [allocate])
    simpa [Scopes.hideAll, hidden] using ih hfirst hnext

/-- What is lost does not matter for what is hidden. -/
theorem hidden_lose (sc : Scopes) (names : List String) (list : List Parameter) :
    (sc.lose names).hidden list = sc.hidden list := by
  have hstrays : ∀ (sc : Scopes) strays, { sc with strays }.hidden list = sc.hidden list := by
    intro sc strays
    induction list generalizing sc with
    | nil => rfl
    | cons p rest ih =>
      have hhide : { sc with strays }.hide p = { sc.hide p with strays } := by
        cases hinner : sc.inner <;> simp [Scopes.hide, bind, allocate, mapCurrent, hinner]
      rw [hidden, hidden, hhide, ih]
      rfl
  exact hstrays ..

theorem hidden_below (n : Nat) (list : List Parameter) :
    (sc.below n).hidden list = sc.hidden list := by
  induction list generalizing sc with
  | nil => rfl
  | cons p rest ih =>
    have hhide : (sc.below n).hide p = (sc.hide p).below n := hideAll_below n sc [p]
    rw [hidden, hidden, hhide, ih, local?_below]

end Scopes

/-- Quiet actions keep hidden names restorable. -/
theorem Scopes.Hides.still {list : List (String × Option Ref)} (h : s.scopes.Hides list)
    (hstill : Still s s') : s'.scopes.Restorable list where
  refs name ref hmem := Nat.lt_of_lt_of_le (h.refs name ref hmem) hstill.cells
  undeclared name hmem hdeclares :=
    h.undeclared name hmem (hstill.scope.keeps _ (h.bound name hmem) hdeclares)

theorem bindEach_eq (list : List Parameter) (tokens : Array Token) (s : State) :
    bindEach list tokens s = .ok (s.scopes.hidden list)
      { s with scopes := s.scopes.hideAll list } := by
  induction list generalizing s with
  | nil => rfl
  | cons p rest ih =>
    have hrest := ih { s with scopes := s.scopes.hide p }
    exact bind_ok hrest fun others => pure ((p.name, s.scopes.local? p.name) :: others)

theorem bindParameters_eq (list : List Parameter) (tokens : Array Token) (s : State) :
    bindParameters list tokens s = .ok (s.scopes.hidden list) ((Event.lends list).apply s) := by
  rw [← Scopes.hidden_lose s.scopes (list.map (·.name))]
  exact bindEach_eq list tokens { s with scopes := s.scopes.lose (list.map (·.name)) }

theorem restoreNames_eq (before : List (String × Option Ref)) (tokens : Array Token) (s : State) :
    restoreNames before tokens s = .ok () ((Event.regains before).apply s) := by
  induction before generalizing s with
  | nil => rfl
  | cons item rest ih =>
    obtain ⟨name, ref⟩ := item
    cases ref with
    | none => exact ih { s with scopes := s.scopes.forget name }
    | some ref => exact ih { s with scopes := s.scopes.bind name ref }

theorem Path.lending {s₁ : State} (hs : Sound tape s) (hlend : (Event.lends list).Fits tape s)
    (hpath : Path tape .quiet ((Event.lends list).apply s) s₁) :
    Path tape .line s ((Event.regains (s.scopes.hidden list)).apply s₁) := by
  have hlost : (s.scopes.lose (list.map (·.name))).Coherent := hs.scopes
  have hhides := (Scopes.Hides.nil).hideAll hlost list
  rw [Scopes.hidden_lose, nil_append] at hhides
  have hregain : s₁.scopes.Restorable (s.scopes.hidden list) :=
    Scopes.Hides.still (s := (Event.lends list).apply s) hhides hpath.still
  have hdefined : s₁.functions ≠ [] := hpath.grows.functions hlend.2
  obtain ⟨es, hrun⟩ := hpath
  exact ⟨_, .lending nofun hlend hrun.loud hrun.isQuiet ⟨hregain, hdefined⟩ .nil⟩

/-- **Loans.**  Names are lent to a quiet action, and given back whether it fails or not. -/
theorem lending_does {α : Type} {x : Emit α} {φ : α → Prop}
    (hlends : (Event.lends list).Fits tape s) (h : ∀ s', Does tape .quiet s' x fun a _ => φ a) :
    Does tape .line s (do
      let before ← bindParameters list
      ensuring x (restoreNames before)) fun a _ => φ a := by
  intro hs
  have hs₀ : Sound tape ((Event.lends list).apply s) := hs.apply hlends
  have hlend : ∀ front, bindParameters list tape.tokens (s.below front) =
      .ok (s.scopes.hidden list) (((Event.lends list).apply s).below front) := by
    intro front
    rw [← Event.apply_below front hs.marked, bindParameters_eq]
    exact congrArg (EStateM.Result.ok · _) (Scopes.hidden_below ..)
  refine .bind_ok hlend ?_
  obtain ⟨hx, hblind⟩ := h _ hs₀
  have hregain : ∀ s₁, Path tape .quiet ((Event.lends list).apply s) s₁ →
      Blind tape.tokens s₁ (restoreNames (s.scopes.hidden list)) :=
        fun s₁ hpath => .of_ok fun front => by
    rw [restoreNames_eq, Event.apply_below front (hpath.sound hs₀).marked]
  refine ⟨?_, hblind.ensuring (fun a s₁ hr => ?_) fun failure s₁ hr => ?_⟩
  · unfold ensuring
    cases hr : x tape.tokens ((Event.lends list).apply s) with
    | ok a s₁ =>
      rw [hr] at hx
      simp only [restoreNames_eq]
      exact ⟨.lending hs hlends hx.1, hx.2⟩
    | error failure s₁ =>
      rw [hr] at hx
      simp only [restoreNames_eq]
      exact ⟨.lending hs hlends hx.1, hx.2.of_position rfl⟩
  · rw [hr] at hx
    exact hregain s₁ hx.1
  · rw [hr] at hx
    exact hregain s₁ hx.1

theorem defHead_does : Does tape level s defHead fun head _ =>
    tape.Titles (upper head.1) head.1 ∧ ∀ p ∈ head.2, p.Fits tape := by
  refine takeKeyword_does.bind fun apart _ _ _ => ?_
  refine expectName_onLine.bind fun token _ _ ⟨hline, ht, _⟩ => ?_
  extract_lets name jp
  have hname : tape.Titles (upper name) name := by
    simp only [name]
    split
    · exact .function ht
    · exact .name ht
  split
  · refine parameters_does.bind fun list _ _ ⟨hlist, _⟩ => ?_
    refine takeOperator_does.bind fun _ _ _ _ => ?_
    extract_lets jp'
    split
    · exact .pure ⟨hname, hlist⟩
    · exact rejectHere_bind (.of_letters rfl rfl)
  · exact rejectAt_bind hline (.of_letters rfl rfl)

theorem defStatement_does (hkeyword : ∃ token ∈ tape.tokens, token.isKeyword "DEF" = true) :
    Acts tape .line s defStatement := by
  refine defHead_does.bind fun ⟨name, list⟩ _ _ ⟨hname, hlist⟩ => ?_
  dsimp -zeta only
  extract_lets jsName
  have htitled : tape.Titled (upper name) jsName := ⟨name, hname, rfl⟩
  have hj := htitled.wordy
  clear_value jsName
  refine Does.bind (Q := fun _ s' => s'.functions ≠ []) ?_ fun _ s₁ _ hdefined => ?_
  · exact .event (.enrols (.function _ jsName)) (fun _ => rfl) rfl ⟨htitled,
      hkeyword⟩ (insert_ne_nil _ _ _)
  rw [← bind_assoc]
  refine (lending_does ⟨hlist, hdefined⟩ fun s' => expression_does.mono fun _ _ _ h => h.1).bind
    fun body _ _ hbody => ?_
  extract_lets text
  have htext : Flat text :=
    .intro
      (((Reads.around hj.solid.1 rfl).within (inner_parameterNames hlist) rfl).piece hbody.1 rfl)
  have hdeclared : declaredName text = jsName := by
    have hchars : text.toList = ['c', 'o', 'n', 's', 't'] ++ ' ' :: (jsName.toList ++ ' ' ::
        ("= async (" ++ parameterNames list ++ ") => " ++ body ++ ";").toList) := by simp [text]
    exact declaredName_eq hj (by decide) hchars
  refine atScopeBase_sees.bind fun _ hbase => ?_
  split
  · refine .event (.defines ⟨upper name, .function, text, false⟩) (fun _ => rfl) rfl
      ⟨htext, rfl, rfl, ?_, hbase ‹_›⟩ trivial
    rw [hdeclared]
    exact htitled.called
  · exact line_does htext

/-! ### Data -/

/-- The cursor is right behind the keyword of a `DATA` statement, and the others so far stand
before. -/
structure BehindData (tape : Tape) (s : State) : Prop where
  keyword : ∃ token, tape.tokens[(s.position - 1).toNat]? = some token ∧
    token.isKeyword "DATA" = true
  pos : 0 < s.position
  front : ∀ span ∈ s.dataPassed, span.2 < s.position

theorem dataStatement_does (h : BehindData tape s) : Acts tape .line s dataStatement := by
  refine .get (fun _ => rfl) ?_
  extract_lets start
  refine (skipWhile_skips fun _ => not_endsStatement).bind
    fun _ s₁ _ ⟨hskipped, token, ht, hends⟩ => ?_
  refine .event (.passes start) (fun _ => rfl) rfl
    ⟨⟨h.pos, hskipped.le, h.keyword, ?_, ?_⟩, ?_⟩ trivial
  · exact fun n token hn hn' hat => by simpa using hskipped.passed n token hn hn' hat
  · exact ⟨token, ht, by simpa using hends⟩
  · rw [hskipped.moved]
    exact h.front

theorem readStatement_does : Acts tape .line s readStatement := by
  refine places_does.bind fun places _ _ hplaces => storeAll_does ?_
  simp only [mem_map, forall_exists_index, and_imp, forall_apply_eq_imp_iff₂]
  refine fun p hp => ⟨hplaces p hp, ?_⟩
  split <;> exact Reads.start rfl

theorem restoreStatement_does : Acts tape .line s restoreStatement := by
  refine atLabel_sees.bind fun _ ⟨token, ht, hb⟩ => ?_
  extract_lets jp
  have hjp : ∀ s', Acts tape .line s' (jp ()) := fun _ =>
    line_does (.intro (.start rfl))
  split
  · rename_i h
    exact (advance_label ht (hb.1 h)).bind fun label _ _ hl =>
      (warnAt_does hl.mem).bind fun _ s' _ _ => hjp s'
  · exact hjp _

theorem swapStatement_does : Acts tape .line s swapStatement := by
  refine place_does.bind fun first _ _ ⟨hfirst, _⟩ => ?_
  refine expectMark_does.bind fun _ _ _ _ => ?_
  refine place_does.bind fun second _ _ ⟨hsecond, _⟩ => ?_
  refine (declared_does hfirst).bind fun a _ _ ha => ?_
  refine (declared_does hsecond).bind fun b _ _ hb => line_does ?_
  exact .intro ((((Reads.around ha.1 rfl).piece hb.1 rfl).piece hb.1 rfl).piece ha.1 rfl)

theorem eraseStatement_does : Acts tape .line s eraseStatement := by
  refine (commaList_does (fun _ => True) fun s' _ => ?_).bind fun _ _ _ _ => .pure trivial
  refine expectName_does.bind fun token _ _ ⟨ht, _⟩ => ?_
  refine lookup_finds.bind fun found ⟨_, hfound⟩ => ?_
  split
  · exact (reportAt_does ht.mem (Apart.append (.of_letters rfl rfl)).append).mono fun _ _ _ _ =>
      trivial
  · exact line_does (.intro ((hfound _ rfl).wordy.solid.reads_fresh.lit rfl))

theorem randomizeStatement_does : Acts tape .line s randomizeStatement := by
  refine atStatementEnd_sees.bind fun _ _ => ?_
  split
  · exact line_does (.intro (.start rfl))
  · refine takeKeyword_does.bind fun _ _ _ _ => ?_
    refine expression_does.bind fun value _ _ ⟨hv, _⟩ => line_does ?_
    exact .intro (.around hv.1 rfl)

/-! ### Procedures -/

theorem headerProcedure_does {parameters : Nat} (h : tape.Names name) :
    Does tape level s (headerProcedure kind name.text parameters) fun procedure s' =>
      tape.Titled (upper name.text) procedure.jsName ∧
        s'.procedures.get? (upper name.text) = some procedure := by
  unfold headerProcedure
  extract_lets key procedure
  have hj : tape.Titled key procedure.jsName := by simpa only [procedure] using h.titled
  refine .ofSound fun hs => .get (fun _ => rfl) ?_
  split
  · exact .pure ⟨hs.procedures _ (mem_of_get? ‹_›), ‹_›⟩
  · rename_i hnone
    refine Does.bind (Q := fun _ s' => s'.procedures.get? key = some procedure)
      ?_ fun _ _ _ hfound => .pure ⟨hj, hfound⟩
    refine .event (.enrols (.procedure key procedure)) (fun _ => rfl)
      (Level.allows_of_isQuiet rfl) ⟨hj, ?_⟩ ?_
    · rw [Table.holds, hnone]
      rfl
    · simp [Event.apply, Entry.apply, Table.get?_insert]

/-- The state right behind a header: the procedure has no declaration yet. -/
structure State.Entered (s : State) (header : Header) : Prop where
  declared : s.scopes.current.declared = []
  headers : s.headers.head? = some header
  name : s.scopes.current.name.map upper = some header.key
  inside : s.scopes.isModule = false
  base : s.AtBase

namespace State.Entered

variable {header : Header}

theorem hasParameter (h : s.Entered header) {x : String} (hx : x ∈ header.parameters) :
    s.HasParameter x :=
  ⟨h.inside, header, h.headers, h.name, hx⟩

theorem declare (h : s.Entered header) (name : String) (v : Variable) :
    State.Entered { s with scopes := (s.scopes.declare name v).2 } header := by
  obtain ⟨names, hcurrent⟩ := s.scopes.current_declare name v
  constructor
  case declared => exact hcurrent ▸ h.declared
  case headers => exact h.headers
  case name => exact hcurrent ▸ h.name
  case inside => exact (s.scopes.isModule_declare name v).trans h.inside
  case base => exact ⟨h.base.1, hcurrent ▸ h.base.2⟩

end State.Entered

/-- Parameters are names without declarations. -/
theorem declareParameters_does {header : Header} (h : ∀ p ∈ list, p.Fits tape)
    (hlist : ∀ p ∈ list, p.slot.name ∈ header.parameters) (hentered : s.Entered header) :
    Does tape .line s (declareParameters list) fun _ s' => s'.Entered header := by
  induction list generalizing s with
  | nil => exact .pure hentered
  | cons p rest ih =>
    have hparameter := hentered.hasParameter (hlist p (by simp))
    refine (declare_does (h p (by simp)).called hparameter).bind fun _ s' _ hs' => ?_
    subst hs'
    exact ih (fun q hq => h q (by simp [hq])) (fun q hq => hlist q (by simp [hq]))
      (hentered.declare ..)

/-- The cursor is right behind the keyword of a header that the announcements see. -/
structure BehindHeader (tape : Tape) (s : State) : Prop where
  keyword : ∃ token, tape.tokens[(s.position - 1).toNat]? = some token ∧
    (headerKind? token).isSome = true
  pos : 0 < s.position
  free : tape.Free (s.position - 1).toNat

/-- The parameters that are read behind a name are those that were announced. -/
theorem BehindHeader.headerAt (h : BehindHeader tape s) (hname : tape.Under s name)
    (hk : name.kind = .identifier) : tape.HeaderAt (s.position - 1).toNat (upper name.text)
      (parameterCount (tape.tokens.toList.drop (s.position + 1).toNat)) := by
  obtain ⟨keyword, hat, hheader⟩ := h.keyword
  have hpos := h.pos
  refine ⟨h.free, keyword, name, _, ?_, hheader, hk, rfl, rfl⟩
  rw [Tape.drop_eq (by omega) hat, Int.sub_add_cancel, Tape.drop_eq (Int.le_of_lt hpos) hname]

theorem openProcedure_eq (name jsName : String) (list : List Parameter)
    (tokens : Array Token) (s : State) :
    openProcedure name jsName list tokens s =
      .ok ()
        ({ s with
            headers := ⟨upper name, list.map fun p : Parameter => p.slot.name⟩ :: s.headers
          }.openBrace (headerLine jsName (parameterNames list))) :=
  rfl

theorem openScope_eq (kind : ProcedureKind) (name jsName : String)
    (parameters : List String) (token : Token) (tokens : Array Token) (s : State) :
    openScope kind name (kind.form jsName) token tokens
        ({ s with headers := ⟨upper name, parameters⟩ :: s.headers }.openBrace
          (headerLine jsName (commas parameters))) =
      .ok () ((Event.begins kind name jsName parameters token).apply s) :=
  rfl

/-- The first line of a procedure and the opening of its scope are one event. -/
theorem begins_does (kind : ProcedureKind) {name : String} {rest : Emit Unit} (hj : Wordy jsName)
    (hlist : ∀ p ∈ list, p.Fits tape) (ht : tape.Opens s (.procedure kind) token)
    (hb : s.blocks = []) (hf : s.floors = [])
    (hheader : HasError s.collector.toList ∨ ∃ place, tape.HeaderAt place (upper name) list.length)
    (hprocedure : ∃ p, s.procedures.get? (upper name) = some p ∧ p.jsName = jsName)
    (h : ∀ s', s'.Entered ⟨upper name, list.map fun p : Parameter => p.slot.name⟩ →
      Acts tape .line s' rest) :
    Acts tape .line s (do
      openProcedure name jsName list
      openScope kind name (kind.form jsName) token
      rest) := by
  have hbegin : Does tape .line s (do
      openProcedure name jsName list
      openScope kind name (kind.form jsName) token) fun _ s' =>
        s'.Entered ⟨upper name, list.map fun p : Parameter => p.slot.name⟩ := by
    refine .event (.begins kind name jsName (list.map fun p : Parameter => p.slot.name) token) (a :=
      ()) (fun front => ?_) rfl
      ⟨hj, inner_parameterNames hlist, ht, hb, hf, ?_, ?_, hprocedure⟩ ⟨rfl, rfl, rfl, rfl, hf, rfl⟩
    · rw [bind_ok (openProcedure_eq ..)]
      exact openScope_eq ..
    · rwa [length_map]
    · exact forall_mem_map.2 fun p hp => ⟨_, hlist p hp⟩
  have hassoc := hbegin.bind fun _ s' _ hnil => h s' hnil
  rwa [bind_assoc] at hassoc

theorem procedureStatement_does (ht : tape.OnLine s token)
    (hopens : tape.Opens s (.procedure kind) token)
    (hready : s.floors = [] → HasError s.collector.toList ∨ BehindHeader tape s) :
    Acts tape .line s (procedureStatement kind token) := by
  refine .ofSound fun hs => .get (fun _ => rfl) ?_
  extract_lets jp
  split
  · rename_i hfloors
    have hnone : s.floors = [] := List.isEmpty_iff.1 hfloors
    refine expectName_under.still.bind fun name s₁ hg₁ ⟨hstill₁, hunder, hk, hp₁⟩ => ?_
    have hname : tape.Names name := ⟨hunder.mem, hk⟩
    refine parameters_does.still.bind fun list s₂ hg₂ ⟨hstill₂, hlist, hcount⟩ => ?_
    have hheader : HasError s₂.collector.toList ∨ ∃ place,
        tape.HeaderAt place (upper name.text) list.length := by
      refine (hready hnone).imp (fun he => hg₂.errors (hg₁.errors he)) fun hbehind => ?_
      rw [← hcount, hp₁]
      exact ⟨_, hbehind.headerAt hunder hk⟩
    refine typeSpec?_does.still.bind fun given s₃ hg₃ ⟨hstill₃, _⟩ => ?_
    extract_lets isText
    refine takeKeyword_does.still.bind fun _ s₄ hg₄ ⟨hstill₄, _⟩ => ?_
    refine abandonAll_completes.does.bind fun _ s₅ hg₅ ⟨hblocks, hopened⟩ => ?_
    refine (headerProcedure_does hname).still.bind fun procedure s₆ hg₆ ⟨hstill, htitled, hfound⟩ =>
      ?_
    -- what was known of the header's tokens lasts up to the block that it opens
    have hopens₄ :=
      (((hopens.still hstill₁ hg₁).still hstill₂ hg₂).still hstill₃ hg₃).still hstill₄ hg₄
    have hopens₆ := (hopens₄.keep hopened hg₅).still hstill hg₆
    have hj := htitled.wordy
    have hb : s₆.blocks = [] := hstill.blocks.trans hblocks
    have hg : Grows s₂ s₆ := ((hg₃.trans hg₄).trans hg₅).trans hg₆
    have hf : s₆.floors = [] := by rw [hg.floors, hg₂.floors, hg₁.floors, hnone]
    have hheader₆ := hheader.imp_left hg.errors
    have hprocedure : ∃ p, s₆.procedures.get? (upper name.text) = some p ∧
        p.jsName = procedure.jsName :=
      ⟨procedure, hfound, rfl⟩
    have hslots : ∀ p ∈ list, p.slot.name ∈ list.map fun p : Parameter => p.slot.name :=
      fun p hp => mem_map_of_mem hp
    cases kind with
    | sub =>
      exact begins_does .sub hj hlist hopens₆ hb hf hheader₆ hprocedure fun _ hentered =>
        (declareParameters_does hlist hslots hentered).mono fun _ _ _ _ => trivial
    | function =>
      have hresult := htitled.result
      refine begins_does .function hj hlist hopens₆ hb hf hheader₆ hprocedure fun _ hentered => ?_
      refine (declareParameters_does hlist hslots hentered).bind fun _ _ _ hentered' => ?_
      exact Does.bind (introduce_does hresult (flat_let hresult.wordy (sealed_initialOf _))
        (isDeclaration_let ..)
        ⟨hentered'.declared, rfl⟩ nofun fun _ => hentered'.base) fun _ _ _ _ => .pure trivial
  · refine rejectAt_bind ht ?_
    cases kind <;> exact .of_letters (text_append rfl) rfl

/-! ### Calls -/

theorem callArguments_does : Does tape level s callArguments fun values _ =>
    ∀ value ∈ values, Solid value := by
  have hlist : Does tape level s (commaList expression) fun values _ =>
      ∀ value ∈ values, Solid value :=
    commaList_does Solid fun _ _ => expression_does.mono fun _ _ _ h => h.1
  refine atStatementEnd_sees.bind fun _ _ => ?_
  split
  · exact .pure (by simp)
  refine atMark_sees.bind fun _ _ => ?_
  split
  · have hall : Sees tape s holdsAllArguments fun _ => True :=
      .read (.get (fun _ => rfl) (.pure trivial))
    refine hall.bind fun _ _ => ?_
    split
    · exact arguments_does.mono fun _ _ _ h => h.1
    · exact hlist
  · exact hlist

theorem emitCall_does (hj : Wordy jsName) (hv : ∀ value ∈ values, Solid value) :
    Acts tape .line s (emitCall jsName values) :=
  line_does (.intro ((Reads.around hj.solid.1 rfl).within (inner_commas fun v h => (hv v h).1) rfl))

theorem callProcedure_does {procedure : Procedure}
    (hj : Wordy procedure.jsName) (hv : ∀ value ∈ values, Solid value) (ht : token ∈ tape.tokens)
    (hfound : s.procedures.get? (upper token.text) = some procedure) :
    Acts tape .line s (callProcedure procedure values token) :=
  (noteCall_does ht hfound).loud.bind fun _ _ _ _ => emitCall_does hj hv

theorem procedureNames_sees : Sees tape s procedureNames fun _ => True :=
  .get (fun _ => rfl) (.pure trivial)

theorem callStatement_does : Acts tape .line s callStatement := by
  refine expectName_does.bind fun token _ _ ⟨ht, _⟩ => ?_
  refine callArguments_does.bind fun values s₂ _ hvalues => ?_
  refine .ofSound fun hs => .get (fun _ => rfl) ?_
  split
  · exact callProcedure_does (hs.procedures _ (mem_of_get? ‹_›)).wordy hvalues ht.mem ‹_›
  · have hapart : Apart ("Unknown procedure '" ++ token.text ++ "'") :=
      (Apart.append (.of_letters rfl rfl)).append
    refine procedureNames_sees.bind fun _ _ =>
      Does.bind (report_does (tape.has ht.mem) ?_) fun _ _ _ _ => ?_
    · exact fun _ => hapart
    · exact emitCall_does ht.wordy.mangle hvalues

end BasicScript
