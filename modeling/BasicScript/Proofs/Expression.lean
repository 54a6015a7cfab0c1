import BasicScript.Proofs.Builtin
import BasicScript.Proofs.Output
import BasicScript.Proofs.Parentheses

/-!
# Expressions are operands

The text of every expression is an operand, up to the name in front of it (`expression_operand`): a
number, a string, or a reference, and each operation is in parentheses or is a call.  So it closes
what it opens, and nothing around it can split it (`expression_does`).  An expression uses up a
token at least, so each expression inside another begins further on, and the bound on the nesting is
never reached (`expressionTo_spells`).  In the source its parentheses close, and a comma stands only
inside of them.
-/

namespace BasicScript

open Text Emit Script

variable {tape : Tape} {level : Level} {s s' : State} {p : Int} {text sign : String}
    {operand nested : Emit String}
  {token : Token} {start : TypeSpec} {procedure : Procedure}

/-- A name that can stand in front of a reference: one of JavaScript, or that of something
declared. -/
def Tape.Heads (tape : Tape) (x : String) : Prop := isIdentifier x = true ∨ tape.Calls x

theorem Tape.Calls.reference {x : String} (h : tape.Calls x) : Reference tape.Heads x :=
  .name h.wordy (.inr h)

/-- A solid text that some tokens spell. -/
def Spelled (s : State) (text : String) (s' : State) : Prop :=
  Solid text ∧ s.position < s'.position

/-- An operand that some tokens spell, whose parentheses close. -/
def Tape.Spelled (tape : Tape) (s : State) (text : String) (s' : State) : Prop :=
  Operand tape.Heads text ∧ s.position < s'.position ∧ tape.Tilts 0 0 s s'

/-- From a place on, an action gives operands for some tokens, and is quiet. -/
def Spells (tape : Tape) (p : Int) (x : Emit String) : Prop :=
  ∀ s : State, p ≤ s.position → Does tape .quiet s x (tape.Spelled s)

/-! ### Operators -/

/-- Operations on operands give operands. -/
def Keeps (combine : Combine) : Prop :=
  ∀ (tape : Tape) left right, Operand tape.Heads left → Operand tape.Heads right →
    Operand tape.Heads (combine left right)

theorem operand_group {Name : String → Prop} {inner : String} (h : Inner inner) (hne : inner ≠ "")
    (htext : text.toList = ("(" ++ inner ++ ")").toList) : Operand Name text :=
  String.toList_injective htext ▸ .reference (.group h hne)

theorem operand_call {f arguments : String} (hf : isIdentifier f = true) (h : Inner arguments)
    (htext : text.toList = ("Math" ++ "." ++ f ++ "(" ++ arguments ++ ")").toList) :
    Operand tape.Heads text :=
  String.toList_injective htext ▸ .reference (.call (.member (.identifier rfl fun _ => .inl) hf) h)

theorem between_keeps {r : Reader} (h : Reads .loosely sign r)
    (h' : r.read [' '] = some .loosely) : Keeps (between sign) := by
  intro tape left right hl hr
  have hinner : Inner (left ++ " " ++ sign ++ " " ++ right) :=
    (((Reads.lit hl.solid.1.inner rfl).append h).lit h').frag rfl hr.solid.1
  exact operand_group hinner (by simp) (by simp [between])

theorem sealed_comparison? (h : comparison? sign = some text) : Sealed text := by
  unfold comparison? at h
  repeat' split at h
  all_goals cases h
  · exact .start rfl
  · exact .start rfl
  · rename_i hsign
    rcases hsign with rfl | rfl | rfl | rfl <;> exact .start rfl

theorem comparison?_keeps (h : comparison? sign = some text) : Keeps (between text) :=
  between_keeps ((sealed_comparison? h).reads rfl) rfl

/-- A table of operators: all of them stand inside a line, and each keeps operands. -/
def Operators (sign? : Token → Option Combine) : Prop :=
  ∀ t combine, sign? t = some combine → t.Even ∧ Keeps combine

theorem operators_disjunction : Operators disjunctionSign? := by
  intro t combine h
  unfold disjunctionSign? at h
  split at h
  · cases h
    exact ⟨.keyword ‹_›, between_keeps (.start rfl) rfl⟩
  split at h
  · cases h
    refine ⟨.keyword ‹_›, fun tape left right hl hr => ?_⟩
    have hinner : Inner ("Boolean(" ++ left ++ ") !== Boolean(" ++ right ++ ")") :=
      (Reads.around hl.solid.1 rfl).piece hr.solid.1 rfl
    exact operand_group hinner (by simp) (by simp)
  · cases h

theorem operators_conjunction : Operators conjunctionSign? := by
  intro t combine h
  unfold conjunctionSign? at h
  split at h <;> cases h
  exact ⟨.keyword ‹_›, between_keeps (.start rfl) rfl⟩

theorem operators_comparison : Operators comparisonSign? := by
  intro t combine h
  unfold comparisonSign? at h
  split at h
  · obtain ⟨text, htext, rfl⟩ := Option.map_eq_some_iff.1 h
    exact ⟨.of_kind (by simp [Token.endsLine, *]) (by simp [*]), comparison?_keeps htext⟩
  · cases h

theorem operators_sum : Operators sumSign? := by
  intro t combine h
  unfold sumSign? at h
  repeat' split at h
  all_goals cases h
  all_goals exact ⟨.operator ‹_›, between_keeps (.start rfl) rfl⟩

theorem operators_product : Operators productSign? := by
  intro t combine h
  unfold productSign? at h
  split at h
  · cases h
    exact ⟨.operator ‹_›, between_keeps (.start rfl) rfl⟩
  split at h
  · cases h
    exact ⟨.operator ‹_›, between_keeps (.start rfl) rfl⟩
  split at h
  · cases h
    refine ⟨.operator ‹_›, fun tape left right hl hr => ?_⟩
    have hinner : Inner (left ++ " / " ++ right) :=
      (Reads.lit hl.solid.1.inner rfl).frag rfl hr.solid.1
    exact operand_call (f := "trunc") rfl hinner (by simp)
  split at h
  · cases h
    exact ⟨.keyword ‹_›, between_keeps (.start rfl) rfl⟩
  · cases h

theorem operators_power : Operators powerSign? := by
  intro t combine h
  unfold powerSign? at h
  split at h <;> cases h
  refine ⟨.operator ‹_›, fun tape left right hl hr => ?_⟩
  have hinner : Inner (left ++ ", " ++ right) :=
    (Reads.lit hl.solid.1.inner rfl).frag rfl hr.solid.1
  exact operand_call (f := "pow") rfl hinner (by simp)

/-- What is put around an operand keeps it one. -/
def Wraps (wrap : String → String) : Prop :=
  ∀ (tape : Tape) text, Operand tape.Heads text → Operand tape.Heads (wrap text)

/-- A table of signs in front of an operand. -/
def Signs (sign? : Token → Option (String → String)) : Prop :=
  ∀ t wrap, sign? t = some wrap → t.Even ∧ Wraps wrap

theorem signs_unary : Signs unarySign? := by
  intro t wrap h
  unfold unarySign? at h
  split at h
  · cases h
    refine ⟨.operator ‹_›, fun tape text ht => ?_⟩
    have hinner : Inner ("-" ++ text) := (Reads.start rfl).frag rfl ht.solid.1
    exact operand_group hinner (by simp) (by simp)
  split at h
  · cases h
    exact ⟨.operator ‹_›, fun _ _ ht => ht⟩
  split at h
  · cases h
    refine ⟨.keyword ‹_›, fun tape text ht => ?_⟩
    have hinner : Inner ("!" ++ text) := (Reads.start rfl).frag rfl ht.solid.1
    exact operand_group hinner (by simp) (by simp)
  · cases h

/-- The signs of an exponent are those of any operand but `NOT`. -/
theorem signs_exponent : Signs exponentSign? := by
  intro t wrap h
  refine signs_unary t wrap ?_
  unfold exponentSign? at h
  unfold unarySign?
  split <;> rename_i h₁ <;> simp only [h₁, if_true] at h
  · exact h
  · split <;> rename_i h₂ <;> simp only [h₂, if_true] at h
    · exact h
    · cases h

/-! ### Chains -/

theorem chain_spells {first : Emit String} {sign? : Token → Option Combine}
    (hfirst : Spells tape p first) (hoperand : Spells tape p operand)
    (hsign : Operators sign?) : Spells tape p (chain first operand sign?) := by
  intro s hp
  refine (hfirst s hp).bind fun left s₁ hg₁ ⟨hleft, hlt, htilts⟩ => ?_
  refine .loop (fun left s₂ => Operand tape.Heads left ∧ tape.Tilts 0 0 s s₂) ⟨hleft, htilts⟩
    fun left s₂ hg₂ ⟨hleft, htilts⟩ => ?_
  have hpos := hg₂.position
  refine .ofSound fun hs₂ => current_sees.bind fun token ht => ?_
  split
  · exact .pure ⟨hleft, by omega, htilts⟩
  · rename_i combine hc
    obtain ⟨heven, hkeeps⟩ := hsign token combine hc
    refine (advance_from ht heven.endsLine).bind fun _ s₃ _ ⟨_, hp₃⟩ => ?_
    refine (hoperand s₃ (by omega)).bind fun right s₄ _ ⟨hright, hlt₄, htilts₄⟩ => ?_
    exact .pure
      ⟨by omega, hkeeps tape left right hleft hright, (htilts.trans
        (ht.even hs₂ hp₃ heven)).trans htilts₄⟩

theorem signed_spells {sign? : Token → Option (String → String)}
    (hoperand : Spells tape p operand) (hsign : Signs sign?) :
    Spells tape p (signed operand sign?) := by
  intro s hp
  refine Does.bind (Q := fun wrap s₁ => Wraps wrap ∧ tape.Tilts 0 0 s s₁)
    ?_ fun wrap s₁ hg₁ ⟨hwrap, htilts⟩ => ?_
  · refine .loop (fun wrap s₁ => Wraps wrap ∧ tape.Tilts 0 0 s s₁) ⟨fun _ _ h => h, .refl s⟩
      fun wrap s₁ _ ⟨hwrap, htilts⟩ => ?_
    refine .ofSound fun hs₁ => current_sees.bind fun token ht => ?_
    split
    · exact .pure ⟨hwrap, htilts⟩
    · rename_i inner hc
      obtain ⟨heven, hinner⟩ := hsign token inner hc
      refine (advance_from ht heven.endsLine).bind fun _ s₂ _ ⟨_, hp₂⟩ => ?_
      exact .pure
        ⟨by omega, fun tape text h => hwrap tape _ (hinner tape text h),
          htilts.trans (ht.even hs₁ hp₂ heven)⟩
  · have hpos := hg₁.position
    refine (hoperand s₁ (by omega)).bind fun text s₂ _ ⟨htext, hlt, htilts₂⟩ => ?_
    exact .pure ⟨hwrap tape text htext, by omega, htilts.trans htilts₂⟩

/-! ### Arguments, members and calls -/

theorem demandExpression_does : Does tape .quiet s demandExpression fun _ s' => s' = s := by
  refine current_sees.bind fun token _ => ?_
  split
  · exact rejectHere_does (Apart.append (.of_letters rfl rfl))
  · exact .pure rfl

theorem demanded_does (hn : Spells tape p nested)
    (hp : p ≤ s.position) : Does tape .quiet s (demanded nested) (tape.Spelled s) := by
  refine demandExpression_does.bind fun _ s₁ _ hs₁ => ?_
  subst hs₁
  exact hn s₁ hp

section Levels

variable (hn : Spells tape (p + 1) nested)
include hn

theorem argumentsOf_does (hp : p ≤ s.position) :
    Does tape .quiet s (argumentsOf nested) fun values s' =>
      (∀ value ∈ values, Solid value) ∧ s.position < s'.position ∧ tape.Tilts 0 0 s s' := by
  refine .ofSound fun hs => (expect_does fun _ => Token.endsLine_of_isMark).sound.bind ?_
  rintro _ s₁ _ ⟨hs₁, hopen, hmark, hp₁⟩
  have hopens : tape.Tilts 0 1 s s₁ := hopen.opens hs hp₁ hmark
  refine (take_tests fun _ => Token.endsLine_of_isMark).bind
    fun b s₂ _ ⟨close, hclose, hmark₂, hs₂⟩ => ?_
  cases b with
  | true =>
    exact .pure
      ⟨by simp, by rw [if_pos rfl] at hs₂; omega, hopens.trans (hclose.closes hs₁ hs₂ hmark₂)⟩
  | false =>
    obtain rfl : s₂ = s₁ := hs₂
    -- the values are one deeper than what is around them
    let Listed (values : List String) (s' : State) : Prop :=
      (∀ value ∈ values, Solid value) ∧ tape.Tilts 0 1 s s'
    refine (commaList_keeps (I := Listed) (J := Listed) ⟨by simp, hopens⟩
      (fun front s' hg ⟨hfront, htilts⟩ => ?_) ?_).sound.bind ?_
    · have hpos := hg.position
      refine (demanded_does hn (by omega)).mono fun value _ _ ⟨hvalue, _, hitem⟩ =>
        ⟨?_, htilts.trans (hitem.add 1)⟩
      exact List.forall_mem_append.2 ⟨hfront, List.forall_mem_singleton.2 hvalue.solid⟩
    · exact fun _ _ _ _ ⟨hvalues, htilts⟩ hs' ht hcomma hp' =>
        ⟨hvalues, htilts.trans (ht.comma hs' hp' hcomma)⟩
    · rintro values s₃ hg₃ ⟨hs₃, hvalues, htilts⟩
      have hpos₃ := hg₃.position
      refine (expect_does fun _ => Token.endsLine_of_isMark).bind ?_
      rintro _ s₄ _ ⟨hend, hmark₄, hp₄⟩
      exact .pure ⟨hvalues, by omega, htilts.trans (hend.closes hs₃ hp₄ hmark₄)⟩

theorem optionalArguments_does (hp : p ≤ s.position) :
    Does tape .quiet s (optionalArguments nested) fun values s' =>
      (∀ value ∈ values, Solid value) ∧ tape.Tilts 0 0 s s' := by
  refine atMark_sees.bind fun _ _ => ?_
  split
  · exact (argumentsOf_does hn hp).mono fun _ _ _ h => ⟨h.1, h.2.2⟩
  · exact .pure ⟨by simp, .refl s⟩

end Levels

theorem sealed_indexed {indices : List String} (h : ∀ index ∈ indices, Solid index) :
    Sealed (indexed indices) := by
  simpa using (Selectors.nil.indexed h).sealed

theorem Tape.isIdentifier_memberName (ht : token ∈ tape.tokens) (h : token.isWord = true) :
    isIdentifier (memberName token) = true := by
  have hword := ((tape.fits token ht).word (Token.kind_of_isWord h)).lower
  refine Word.isIdentifier_mangle ?_
  rwa [lower, String.toList_ofList]

theorem memberType_does {record : Option String} (ht : token ∈ tape.tokens) :
    Does tape .quiet s (memberType record token) fun _ s' => s'.position = s.position := by
  unfold memberType
  extract_lets byName
  split
  · exact .pure rfl
  · refine .get (fun _ => rfl) ?_
    split
    · exact .pure rfl
    · refine (reportAt_does ht (Apart.append (.of_letters rfl rfl)).append).bind
        fun _ s₁ _ ⟨_, _, hs₁⟩ => .pure ?_
      rw [hs₁]
      rfl

theorem membersOf_does
    (hn : Spells tape (p + 1) nested) (hp : p ≤ s.position) :
    Does tape .quiet s (membersOf nested start) fun selected s' =>
      Selectors selected.code ∧ tape.Tilts 0 0 s s' := by
  refine .loop (fun selected s' => Selectors selected.code ∧ tape.Tilts 0 0 s s') ⟨.nil, .refl s⟩
    fun selected s₁ hg₁ ⟨hcode, htilts⟩ => ?_
  have hpos₁ := hg₁.position
  refine .ofSound fun hs₁ => (take_tests fun _ => Token.endsLine_of_isMark).sound.bind ?_
  rintro b s₂ _ ⟨hs₂, point, hpoint, hmark, hmoved⟩
  cases b with
  | false =>
    obtain rfl : s₂ = s₁ := hmoved
    exact .pure ⟨hcode, htilts⟩
  | true =>
    have hp₂ : s₂.position = s₁.position + 1 := hmoved
    refine current_sees.bind fun token ht => ?_
    extract_lets jp
    split
    · rename_i hword
      refine (advance_from ht (Token.endsLine_of_isWord hword)).bind fun _ s₃ _ ⟨_, hp₃⟩ => ?_
      refine (memberType_does ht.mem).bind fun type s₄ _ hp₄ => ?_
      refine (optionalArguments_does hn (by omega)).bind fun indices s₅ hg₅ ⟨hindices, htilts₅⟩ =>
        ?_
      have hpos₅ := hg₅.position
      have hfield : tape.Tilts 0 0 s₁ s₃ :=
        (hpoint.even hs₁ hp₂ (.point hmark)).trans (ht.even hs₂ hp₃ (.word hword))
      refine .pure ⟨by omega, ?_, htilts.trans (hfield.trans (.trans (.of_eq hp₄) htilts₅))⟩
      exact (hcode.member (tape.isIdentifier_memberName ht.mem hword)).indexed hindices
    · exact rejectHere_bind (.of_letters rfl rfl)

theorem dottedName_does {first : Token} (h : tape.HasName first.text) :
    Does tape .quiet s (dottedName first) fun name s' => tape.HasName name ∧
      tape.Tilts 0 0 s s' := by
  refine .loop (fun name s' => tape.HasName name ∧ tape.Tilts 0 0 s s')
    ⟨h, .refl s⟩ fun name s₁ _ ⟨hname, htilts⟩ => ?_
  refine atMark_sees.bind fun b ⟨point, hpoint, hb⟩ => ?_
  split
  · rename_i hmark
    have heven : point.Even := .point (hb.1 hmark)
    refine peek_sees.bind fun part ⟨hmem, hnext⟩ => ?_
    split
    · rename_i hword
      refine .ofSound fun hs₁ => (advance_from hpoint heven.endsLine).sound.bind
        fun _ s₂ _ ⟨hs₂, _, hp₂⟩ => ?_
      -- the word that was seen ahead is now under the cursor
      have hunder : tape.Under s₂ part := by
        rw [Tape.Under, hp₂]
        exact hnext ((hpoint.lt_size_iff hs₁).2 (Token.kind_of_endsLine heven.endsLine).2)
      refine (advance_from hunder (Token.endsLine_of_isWord hword)).bind fun t s₃ _ ⟨ht, hp₃⟩ => ?_
      subst ht
      refine .pure ⟨by omega, .dotted hname hmem hword, htilts.trans ?_⟩
      exact (hpoint.even hs₁ hp₂ heven).trans (hunder.even hs₂ hp₃ (.word hword))
    · exact .pure ⟨hname, htilts⟩
  · exact .pure ⟨hname, htilts⟩

theorem mem_of_get? {α : Type} {table : Table α} {key : String} {value : α}
    (h : table.get? key = some value) : (key, value) ∈ table := by
  obtain ⟨front, back, rfl, -⟩ := List.lookup_eq_some_iff.1 h
  simp

theorem checkArity_does {count : Nat} (ht : token ∈ tape.tokens) :
    Does tape .quiet s (checkArity procedure count token) fun _ s' =>
      (HasError s'.collector.toList ∨ procedure.parameters = count) ∧ s'.position = s.position := by
  unfold checkArity
  split
  · exact .pure ⟨.inr (Eq.symm ‹_›), rfl⟩
  · refine (reportAt_does ht (Apart.append (.of_letters rfl rfl)).append.append.append.append).mono
      fun _ s' _ ⟨d, hd, he⟩ => ?_
    rw [he]
    exact ⟨.inl (s.hasError_reported hd), rfl⟩

theorem noteCall_does {values : List String}
    (ht : token ∈ tape.tokens) (h : s.procedures.get? (upper token.text) = some procedure) :
    Does tape .quiet s (noteCall procedure values token) fun _ s' => s'.position = s.position := by
  refine (checkArity_does ht).bind fun _ s₁ hg₁ ⟨harity, hp⟩ => ?_
  refine .event (.enrols (.call ⟨upper token.text, values⟩)) (fun _ => rfl) rfl ?_ hp
  exact harity.imp_right fun hcount => ⟨procedure, hg₁.procedures _ _ h, hcount⟩

section Levels

variable (hn : Spells tape (p + 1) nested)
include hn

theorem builtinCall_does {b : Builtin} (hb : Reference tape.Heads b.callee) (hp : p ≤ s.position)
    (ht : token ∈ tape.tokens) :
    Does tape .quiet s (builtinCall nested b token) fun text s' => Operand tape.Heads text ∧
      tape.Tilts 0 0 s s' := by
  refine (optionalArguments_does hn hp).bind fun values s₁ _ ⟨hvalues, htilts⟩ => ?_
  have hcall : Operand tape.Heads (b.call values) :=
    .reference (.call hb (inner_commas fun v hv => (hvalues v hv).1))
  extract_lets jp
  split
  · exact .pure ⟨hcall, htilts⟩
  · refine (reportAt_does ht (Apart.append (.of_letters rfl rfl)).append.append.append.append).bind
      ?_
    rintro _ s₂ _ ⟨_, _, rfl⟩
    exact .pure ⟨hcall, htilts⟩

theorem functionCall_does {jsName : String} {procedure : Option Procedure} (hj : Wordy jsName)
    (hfound : ∀ q ∈ procedure, s.procedures.get? (upper token.text) = some q)
    (hp : p ≤ s.position) (ht : token ∈ tape.tokens) :
    Does tape .quiet s (functionCall nested jsName procedure token) fun text s' =>
      Operand tape.Heads text ∧ tape.Tilts 0 0 s s' := by
  refine (optionalArguments_does hn hp).bind fun values s₁ hg₁ ⟨hvalues, htilts⟩ => ?_
  have hinner : Inner ("await " ++ jsName ++ "(" ++ commas values ++ ")") :=
    (Reads.around hj.solid.1 rfl).within (inner_commas fun v hv => (hvalues v hv).1) rfl
  have hcall : Operand tape.Heads ("(await " ++ jsName ++ "(" ++ commas values ++ "))") :=
    operand_group hinner (by simp) (by simp)
  extract_lets jp
  split
  · refine (noteCall_does ht (hg₁.procedures _ _ (hfound _ rfl))).bind fun _ _ _ hp₂ => ?_
    exact .pure ⟨hcall, htilts.trans (.of_eq hp₂)⟩
  · exact .pure ⟨hcall, htilts⟩

theorem variableUse_does {found : Option Variable} (hf : ∀ v ∈ found, tape.Calls v.name)
    (hnone : found = none → s.scopes.find? token.text = none) (hp : p ≤ s.position)
    (ht : tape.HasName token.text) :
    Does tape .quiet s (variableUse nested token found) fun text s' =>
      Operand tape.Heads text ∧ tape.Tilts 0 0 s s' := by
  -- the members behind a variable that was found or declared
  have hmembers : ∀ (v : Variable) (front : String) (s₁ : State), Reference tape.Heads front →
      p ≤ s₁.position → tape.Tilts 0 0 s s₁ → Does tape .quiet s₁ (do
        let members ← membersOf nested (typeOf v)
        return front ++ members.code) fun text s' => Operand tape.Heads text ∧
          tape.Tilts 0 0 s s' := by
    intro v front s₁ hfront hp₁ htilts
    exact (membersOf_does hn hp₁).bind fun selected _ _ ⟨h, htilts'⟩ =>
      .pure ⟨.reference (hfront.select h), htilts.trans htilts'⟩
  refine .ofSound fun hs => atMark_sees.bind fun _ _ => ?_
  split
  · refine (argumentsOf_does hn hp).still.bind fun indices s₁ hg₁ ⟨hstill, hindices, hlt, htilts⟩ =>
      ?_
    extract_lets jp
    have hjp : ∀ v s₂, tape.Calls v.name → s₂.position = s₁.position →
        Does tape .quiet s₂ (jp v) fun text s' => Operand tape.Heads text ∧ tape.Tilts 0 0 s s' :=
          fun v s₂ hv hp₂ =>
      hmembers v _ s₂ (hv.reference.select (by simpa using Selectors.nil.indexed hindices))
        (by omega)
        (htilts.trans (.of_eq hp₂))
    split
    · exact .pure_bind (hjp _ s₁ (hf _ rfl) rfl)
    · have hnew := Scopes.local?_eq_none_iff.1 (hs.scopes.local?_eq_none (hnone rfl))
      exact (implicitArray_does ht hnew hstill.scope).bind fun v s₂ _ ⟨hv, hp₂⟩ => hjp v s₂ hv hp₂
  · refine atMark_sees.bind fun _ _ => ?_
    split
    · refine (dottedName_does ht).bind fun name s₁ _ ⟨hname, htilts⟩ => ?_
      refine lookup_finds.bind fun found ⟨hfind, hfound⟩ => ?_
      split
      · exact .pure ⟨.reference (hfound _ rfl).reference, htilts⟩
      · exact (implicitVariable_does hname hfind.symm).bind fun v _ _ ⟨hv, hp₂⟩ =>
          .pure ⟨.reference hv.reference, htilts.trans (.of_eq hp₂)⟩
    · extract_lets jp
      have hjp : ∀ v s₂, tape.Calls v.name → s₂.position = s.position →
          Does tape .quiet s₂ (jp v) fun text s' => Operand tape.Heads text ∧ tape.Tilts 0 0 s s' :=
            fun v s₂ hv hp₂ =>
        hmembers v _ s₂ hv.reference (by omega) (.of_eq hp₂)
      split
      · exact .pure_bind (hjp _ s (hf _ rfl) rfl)
      · exact (implicitVariable_does ht (hnone rfl)).bind fun v s₂ _ ⟨hv, hp₂⟩ => hjp v s₂ hv hp₂

/-! ### Primaries and levels -/

omit hn in
/-- What stands behind the first token of an operand. -/
theorem advance_spelled (ht : tape.Under s token) (heven : token.Even) {f : Token → Emit String}
    (h : ∀ s₁, s₁.position = s.position + 1 → s₁.scopes = s.scopes → Grows s s₁ →
      Does tape .quiet s₁ (f token) fun text s' => Operand tape.Heads text ∧ tape.Tilts 0 0 s₁ s') :
    Does tape .quiet s (advance >>= f) (tape.Spelled s) := by
  refine .ofSound fun hs => ((advance_from ht heven.endsLine).also fun _ _ => advance_eq).bind ?_
  rintro t s₁ hg₁ ⟨⟨he, hp₁⟩, position, hmoved⟩
  subst he
  refine (h s₁ hp₁ (by rw [hmoved]) hg₁).mono fun _ s₂ hg ⟨hoperand, htilts⟩ => ⟨hoperand, ?_, ?_⟩
  · have := hg.position
    omega
  · exact (ht.even hs hp₁ heven).trans htilts

theorem nameUse_does (hp : p ≤ s.position) (ht : tape.Under s token)
    (hk : token.kind = .identifier) :
    Does tape .quiet s (nameUse nested token) (tape.Spelled s) := by
  have hname : tape.Names token := ⟨ht.mem, hk⟩
  have hinside : token.endsLine = false := by simp [Token.endsLine, hk]
  have heven : token.Even := .of_kind hinside (by simp [hk])
  refine .ofSound fun hs => ?_
  unfold nameUse
  extract_lets key
  refine .get (fun _ => rfl) ?_
  split
  · rename_i procedure hprocedure
    refine advance_spelled ht heven fun s₁ hlt _ hg₁ => ?_
    split
    · exact .ofSound fun hs₁ =>
        rejectAt_does (ht.behind hinside hs hs₁ hlt) (Apart.append (.of_letters rfl rfl)).append
    · have hj := hs.procedures _ (mem_of_get? hprocedure)
      exact functionCall_does hn hj.wordy (by simpa using hg₁.procedures _ _ hprocedure)
        (by omega) ht.mem
  · refine .get (fun _ => rfl) ?_
    split
    · rename_i jsName hfunction
      have hj := hs.functions _ (mem_of_get? hfunction)
      exact advance_spelled ht heven fun s₁ hlt _ _ =>
        functionCall_does hn hj.wordy (by simp) (by omega) ht.mem
    · refine lookup_finds.bind ?_
      rintro found ⟨hfind, hfound⟩
      split
      · exact advance_spelled ht heven fun s₁ hlt _ _ =>
          builtinCall_does hn (reference_of_builtin? (fun _ => .inl) ‹_›) (by omega) ht.mem
      · refine advance_spelled ht heven fun s₁ hlt hscopes _ =>
          variableUse_does hn hfound ?_ (by omega) (.word hname)
        rw [hscopes, ← hfind]
        exact id

theorem primary_spells : Spells tape p (primary nested) := by
  intro s hp
  refine .ofSound fun hs => current_sees.bind fun token ht => ?_
  split
  · rename_i hk
    refine advance_spelled ht (.of_kind (by simp [Token.endsLine, hk]) (by simp [hk]))
      fun s₁ _ _ _ => ?_
    cases hnumber : Script.number token.text with
    | ok literal =>
      refine .pure ⟨?_, .refl s₁⟩
      rcases number_cases ((tape.fits token ht.mem).numeral hk) hnumber with hliteral | rfl
      · exact .number hliteral
      · exact .reference (.identifier rfl fun _ => .inl)
    | error fault => exact .fails (fun _ => rfl) (.number ht.mem hk hnumber)
  · rename_i hk
    exact advance_spelled ht (.of_kind (by simp [Token.endsLine, hk]) (by simp [hk]))
      fun s₁ _ _ _ =>
      .pure ⟨.quotation _, .refl s₁⟩
  · rename_i hk
    split
    · exact rejectHere_does (Apart.append (.of_letters rfl rfl)).append
    · rename_i b hb
      exact advance_spelled ht (.of_kind (by simp [Token.endsLine, hk]) (by simp [hk]))
        fun s₁ hp₁ _ _ =>
        builtinCall_does hn (reference_of_builtin? (fun _ => .inl) hb) (by omega) ht.mem
  · exact nameUse_does hn hp ht ‹_›
  · split
    · rename_i hmark
      refine (advance_from ht (Token.endsLine_of_isMark hmark)).bind ?_
      rintro _ s₁ _ ⟨_, hp₁⟩
      refine (hn s₁ (by omega)).sound.bind ?_
      rintro inner s₂ _ ⟨hs₂, hinner, hlt, htilts⟩
      refine (expect_does fun _ => Token.endsLine_of_isMark).bind ?_
      rintro _ s₃ _ ⟨hend, hmark₃, hp₃⟩
      refine .pure ⟨.reference (.group hinner.solid.1.inner hinner.solid.2), by omega, ?_⟩
      exact ((ht.opens hs hp₁ hmark).trans (htilts.add 1)).trans (hend.closes hs₂ hp₃ hmark₃)
    · exact rejectHere_does (Apart.append (.of_letters rfl rfl))

/-- An expression is an operand if the expressions inside it are. -/
theorem disjunction_spells : Spells tape p (disjunction nested) := by
  have hprimary := primary_spells hn
  have hpower : Spells tape p (power nested) :=
    chain_spells hprimary (signed_spells hprimary signs_exponent) operators_power
  have hunary : Spells tape p (unary nested) := signed_spells hpower signs_unary
  have hproduct : Spells tape p (product nested) :=
    chain_spells hunary hunary operators_product
  have hsum : Spells tape p (Emit.sum nested) := chain_spells hproduct hproduct operators_sum
  have hcomparison : Spells tape p (comparison nested) :=
    chain_spells hsum hsum operators_comparison
  have hconjunction : Spells tape p (conjunction nested) :=
    chain_spells hcomparison hcomparison operators_conjunction
  exact chain_spells hconjunction hconjunction operators_disjunction

end Levels

/-- **Expressions.**  With a level for each token that is left, the nesting is never too deep. -/
theorem expressionTo_spells {depth : Nat} (h : (tape.tokens.size : Int) ≤ depth + p) :
    Spells tape p (expressionTo depth) := by
  induction depth generalizing p with
  | zero =>
    intro s hp hs
    have := hs.position_lt
    omega
  | succ depth ih => exact disjunction_spells (ih (by omega))

theorem nestedExpression_spells : Spells tape p nestedExpression := by
  intro s _
  refine .ofSound fun hs => budget_sees.bind fun depth hdepth => ?_
  have hpos := hs.position_nonneg
  exact expressionTo_spells (by omega) s (Int.le_refl _)

theorem expression_operand : Does tape level s expression (tape.Spelled s) :=
  (demanded_does nestedExpression_spells (Int.le_refl _)).loud

theorem expression_does : Does tape level s expression (Spelled s) :=
  expression_operand.mono fun _ _ _ h => ⟨h.1.solid, h.2.1⟩

theorem arguments_does : Does tape level s arguments fun values s' =>
    (∀ value ∈ values, Solid value) ∧ s.position < s'.position :=
  (argumentsOf_does nestedExpression_spells (Int.le_refl _)).loud.mono fun _ _ _ h => ⟨h.1, h.2.1⟩

theorem members_does : Does tape level s (members start) fun selected _ => Sealed selected.code :=
  (membersOf_does nestedExpression_spells (Int.le_refl _)).loud.mono fun _ _ _ h => h.1.sealed

end BasicScript
