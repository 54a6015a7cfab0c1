import BasicScript.Script.Literal
import BasicScript.Text.Join

/-!
# Reading generated text

A line of a generated program is read from left to right by a small machine (`Reader`).  It knows
string literals and `//` remarks, keeps the brackets that are open, and refuses what generated text
never has: a bracket that closes another kind, a line end inside a string, a character beyond ASCII
outside of one.

Generated text is put together from fixed parts and from fragments.  A fragment is **sealed**
(`Sealed`) if it closes every bracket that it opens and has no blank, comma or semicolon outside
brackets and strings; a sealed fragment can stand wherever code is read (`Sealed.reads`).  Names,
numbers and string literals are sealed, and so is every text of an expression.  A fragment that is
only **inner** (`Inner`) may have blanks and commas; it can stand between brackets.

What a whole line comes to is said by four predicates: it is `Flat`, or it opens a brace
(`OpensBrace`), closes one (`ClosesBrace`), or closes one and opens another (`TurnsBrace`).
-/

namespace BasicScript.Script

open List

variable {r r' q q' : Reader} {c : Char} {cs chars : List Char} {text next : String}
    {texts : List String}

/-! ### The machine -/

/-- Where the reader stands.  At the start of a line it is `fresh`, or `shut` where a closing brace
must come first. -/
inductive Mode where
  | fresh
  | shut
  | code
  /-- Right behind an opening brace. -/
  | brace
  /-- Right behind one slash. -/
  | slash
  | quote
  /-- Right behind a backslash in a string. -/
  | escape
deriving Repr, DecidableEq

/-- The reader of a line: the open brackets have the innermost first, and a `tight` reader refuses
blanks, commas and semicolons outside brackets and strings. -/
structure Reader where
  mode : Mode
  opened : List Char := []
  tight : Bool := false
  remark : Bool := false
deriving Repr, DecidableEq

/-- A character of ASCII that is printed. -/
def isPrinted (c : Char) : Bool := ' ' ≤ c && c ≤ '~'

/-- A character that ends a line of a script. -/
def isLineEnd (c : Char) : Bool := c = '\n' || c = '\r' || c = '\u2028' || c = '\u2029'

/-- An opening bracket. -/
def isOpening (c : Char) : Bool := c = '(' || c = '[' || c = '\x7b'

/-- A closing bracket. -/
def isClosing (c : Char) : Bool := c = ')' || c = ']' || c = '\x7d'

/-- The bracket that an opening one asks for. -/
def partner (c : Char) : Char := if c = '(' then ')' else if c = '[' then ']' else '\x7d'

/-- A quote of the other kinds, or a backslash: code has none. -/
def isForeign (c : Char) : Bool := c = '\'' || c = '\x60' || c = '\\'

/-- A character that divides code. -/
def isDivider (c : Char) : Bool := c = ' ' || c = ',' || c = ';'

namespace Reader

/-- The mode behind a character of code that is no slash and no quote. -/
def settled (c : Char) : Mode := if c = '\x7b' then .brace else .code

/-- Reads a character of code. -/
def stepCode (r : Reader) (c : Char) : Option Reader :=
  if !isPrinted c then none
  else if c = '"' then some { r with mode := .quote }
  else if r.remark then some { r with mode := settled c }
  else if c = '/' then
    some (if r.mode = .slash then { r with mode := .code, remark := true }
      else { r with mode := .slash })
  else if isOpening c then some { r with mode := settled c, opened := c :: r.opened }
  else if isClosing c then
    match r.opened with
    | [] => none
    | top :: rest => if partner top = c then some { r with mode := .code, opened := rest } else none
  else if isForeign c then none
  else if r.tight && r.opened.isEmpty && isDivider c then none
  else some { r with mode := .code }

/-- Reads one character. -/
def step (r : Reader) (c : Char) : Option Reader :=
  match r.mode with
  | .escape => if isLineEnd c then none else some { r with mode := .quote }
  | .quote =>
    if isLineEnd c then none
    else some { r with mode := if c = '"' then .code else if c = '\\' then .escape else .quote }
  | .fresh => if c = ' ' || c = '\x7d' then none else r.stepCode c
  | .shut => if c = '\x7d' then r.stepCode c else none
  | .code | .brace | .slash => r.stepCode c

/-- Reads characters one after another. -/
def read (r : Reader) : List Char → Option Reader
  | [] => some r
  | c :: rest => (r.step c).bind (·.read rest)

@[simp] theorem read_nil (r : Reader) : r.read [] = some r := rfl

theorem read_cons (r : Reader) (c : Char) (rest : List Char) :
    r.read (c :: rest) = (r.step c).bind (·.read rest) := rfl

theorem read_append (r : Reader) (front back : List Char) :
    r.read (front ++ back) = (r.read front).bind (·.read back) := by
  induction front generalizing r with
  | nil => rfl
  | cons c rest ih =>
    rw [cons_append, read_cons, read_cons]
    cases r.step c with
    | none => rfl
    | some r' => exact ih r'

/-- What reading a character of code can do. -/
inductive CodeStep (r : Reader) (c : Char) : Reader → Prop where
  | quote (hc : c = '"') : CodeStep r c { r with mode := .quote }
  | remark (hc : c ≠ '"') (hr : r.remark = true) : CodeStep r c { r with mode := settled c }
  | slash (hc : c = '/') (hr : r.remark = false) (hm : r.mode ≠ .slash) :
      CodeStep r c { r with mode := .slash }
  | comment (hc : c = '/') (hr : r.remark = false) (hm : r.mode = .slash) :
      CodeStep r c { r with mode := .code, remark := true }
  | opening (hc : isOpening c = true) (hr : r.remark = false) :
      CodeStep r c { r with mode := settled c, opened := c :: r.opened }
  | closing {top : Char} {rest : List Char} (hc : isClosing c = true) (hr : r.remark = false)
      (ho : r.opened = top :: rest) (hp : partner top = c) :
      CodeStep r c { r with mode := .code, opened := rest }
  | plain (hc : c ≠ '"' ∧ c ≠ '/' ∧ isOpening c = false ∧ isClosing c = false ∧
        isForeign c = false) (hr : r.remark = false)
      (ht : r.tight = true → r.opened = [] → isDivider c = false) :
      CodeStep r c { r with mode := .code }

theorem codeStep_of_stepCode (h : r.stepCode c = some r') :
    isPrinted c = true ∧ CodeStep r c r' := by
  simp only [stepCode, Bool.not_eq_true'] at h
  split at h
  · cases h
  rename_i hp
  refine ⟨by simpa using hp, ?_⟩
  split at h
  · cases h
    exact .quote ‹_›
  rename_i hq
  split at h
  · cases h
    exact .remark hq ‹_›
  rename_i hr
  simp only [Bool.not_eq_true] at hr
  split at h
  · split at h <;> cases h
    · exact .comment ‹_› hr ‹_›
    · exact .slash ‹_› hr ‹_›
  rename_i hslash
  split at h
  · cases h
    exact .opening ‹_› hr
  rename_i hopening
  split at h
  · split at h
    · cases h
    · split at h <;> cases h
      exact .closing ‹_› hr ‹_› ‹_›
  rename_i hclosing
  split at h
  · cases h
  rename_i hforeign
  split at h <;> cases h
  rename_i ht
  simp only [Bool.not_eq_true] at hopening hclosing hforeign
  refine .plain ⟨hq, hslash, hopening, hclosing, hforeign⟩ hr fun h₁ h₂ => ?_
  simpa [h₁, h₂] using ht

/-- What reading a character can do. -/
theorem step_cases (h : r.step c = some r') :
    (r.mode = .escape ∧ isLineEnd c = false ∧ r' = { r with mode := .quote }) ∨
      (r.mode = .quote ∧ isLineEnd c = false ∧
        r' = { r with
          mode := if c = '"' then .code else if c = '\\' then .escape else .quote }) ∨
      (r.mode ≠ .escape ∧ r.mode ≠ .quote ∧ (r.mode = .fresh → c ≠ ' ' ∧ c ≠ '\x7d') ∧
        (r.mode = .shut → c = '\x7d') ∧ isPrinted c = true ∧ CodeStep r c r') := by
  have hcode : r.stepCode c = some r' → isPrinted c = true ∧ CodeStep r c r' := codeStep_of_stepCode
  simp only [step] at h
  cases hm : r.mode <;> simp only [hm] at h
  case escape | quote =>
    split at h <;> cases h
    simp_all
  case fresh | shut =>
    split at h
    · simp_all
    · simp_all
  case code | brace | slash => simp_all

/-- A remark goes on to the end of the line. -/
theorem remark_of_step (h : r.step c = some r') (hr : r.remark = true) : r'.remark = true := by
  rcases step_cases h with ⟨-, -, rfl⟩ | ⟨-, -, rfl⟩ | ⟨-, -, -, -, -, hcode⟩
  · exact hr
  · exact hr
  · cases hcode <;> simp_all

theorem remark_of_read (h : r.read cs = some r') (hr : r.remark = true) : r'.remark = true := by
  induction cs generalizing r with
  | nil => cases h; exact hr
  | cons c rest ih =>
    rw [read_cons] at h
    obtain ⟨q, hq, h⟩ := Option.bind_eq_some_iff.1 h
    exact ih h (remark_of_step hq hr)

/-! ### Fragments in their surroundings -/

/-- What reading a fragment comes to in surroundings `r`, if on its own it comes to `q`: the
brackets of the fragment are open inside those around it.  In a remark no bracket counts. -/
def around (r q : Reader) : Reader :=
  if r.remark then { r with mode := if q.mode = .slash then .code else q.mode }
  else { r with mode := q.mode, opened := q.opened ++ r.opened }

/-- Whether a fragment that is read by itself by `q` may be read in surroundings `r`: there it is
not held tighter. -/
def Admits (r q : Reader) : Prop :=
  q.remark = false ∧ (r.tight = true → r.opened = [] → q.tight = true)

theorem step_around (ha : r.Admits q) (h : q.step c = some q')
    (hm : q.mode ≠ .fresh) (hs : q.mode ≠ .shut) (hq' : q'.remark = false) :
    (r.around q).step c = some (r.around q') := by
  obtain ⟨hq, ht⟩ := ha
  obtain ⟨mode, opened, tight, remark⟩ := q
  obtain ⟨rmode, ropened, rtight, rremark⟩ := r
  simp only at hq
  subst hq
  simp only at ht hm hs
  cases mode <;> cases rremark <;> simp only [step, stepCode, around, settled] at h ⊢ <;>
    grind [List.isEmpty_iff, append_eq_nil_iff, isOpening]

/-- A step keeps how tight the reader is, and no step leads back to the start of a line. -/
theorem step_keeps (h : r.step c = some r') :
    r'.tight = r.tight ∧ r'.mode ≠ .fresh ∧ r'.mode ≠ .shut := by
  rcases step_cases h with ⟨-, -, rfl⟩ | ⟨-, -, rfl⟩ | ⟨-, -, -, -, -, hcode⟩
  · simp
  · grind
  · cases hcode <;> grind [settled]

theorem read_around (ha : r.Admits q) (h : q.read cs = some q') (hm : q.mode ≠ .fresh)
    (hs : q.mode ≠ .shut) (hq' : q'.remark = false) :
    (r.around q).read cs = some (r.around q') := by
  induction cs generalizing q with
  | nil => cases h; rfl
  | cons c rest ih =>
    rw [read_cons] at h
    obtain ⟨q₁, h₁, h⟩ := Option.bind_eq_some_iff.1 h
    obtain ⟨ht, hm₁, hs₁⟩ := step_keeps h₁
    have hq₁ : q₁.remark = false := by
      cases hr : q₁.remark with
      | false => rfl
      | true => exact absurd (remark_of_read h hr) (by simp [hq'])
    rw [read_cons, step_around ha h₁ hm hs hq₁]
    exact ih ⟨hq₁, ht ▸ ha.2⟩ h hm₁ hs₁

end Reader

/-! ### Texts between two readers -/

/-- Reading a text takes one reader to another. -/
def Reads (a : Reader) (text : String) (b : Reader) : Prop := a.read text.toList = some b

namespace Reads

variable {a b c : Reader}

theorem append (h : Reads a text b) (h' : Reads b next c) : Reads a (text ++ next) c := by
  simp only [Reads, String.toList_append, Reader.read_append] at h h' ⊢
  rw [h]
  exact h'

/-- A text that begins with a fixed part. -/
theorem start (h : a.read chars = some b) : Reads a (String.ofList chars) b := by
  simpa only [Reads, String.toList_ofList] using h

/-- A text that goes on with a fixed part. -/
theorem lit (h : Reads a text b) (h' : b.read chars = some c) :
    Reads a (text ++ String.ofList chars) c :=
  h.append (start h')

end Reads

/-- Reads a fragment of code by itself: no blank, comma or semicolon outside its brackets. -/
def Reader.tightly : Reader := { mode := .code, tight := true }

/-- Reads a fragment of code by itself. -/
def Reader.loosely : Reader := { mode := .code }

/-- A fragment that closes what it opens and that nothing around it can split. -/
def Sealed (text : String) : Prop := Reads .tightly text .tightly

/-- A fragment that closes what it opens. -/
def Inner (text : String) : Prop := Reads .loosely text .loosely

/-- A sealed fragment that is not empty. -/
def Solid (text : String) : Prop := Sealed text ∧ text ≠ ""

/-- Whether blanks and commas may stand here. -/
def Reader.isRoomy (r : Reader) : Bool := r.mode = .code && (!r.tight || !r.opened.isEmpty)

theorem Reader.around_code (hr : r.mode = .code) (hq : q.mode = .code) (ho : q.opened = []) :
    r.around q = r := by
  obtain ⟨mode, opened, tight, remark⟩ := r
  cases hr
  simp only [Reader.around, hq, ho, nil_append]
  split <;> rfl

/-- **Sealed fragments fit everywhere.**  Wherever code is read, a sealed fragment changes
nothing. -/
theorem Sealed.reads (h : Sealed text) (hr : r.mode = .code) : Reads r text r := by
  have key := Reader.read_around (r := r) ⟨rfl, fun _ _ => rfl⟩ h (by decide) (by decide) rfl
  rwa [Reader.around_code hr rfl rfl] at key

/-- Inner fragments fit between brackets. -/
theorem Inner.reads (h : Inner text) (hr : r.isRoomy = true) : Reads r text r := by
  simp only [Reader.isRoomy, Bool.and_eq_true, decide_eq_true_eq] at hr
  have key := Reader.read_around (r := r) ⟨rfl, fun ht ho => by simp [ht, ho] at hr⟩ h
    (by decide) (by decide) rfl
  rwa [Reader.around_code hr.1 rfl rfl] at key

theorem Sealed.inner (h : Sealed text) : Inner text := h.reads rfl

/-- A solid fragment can begin a line: it begins with no blank and closes no brace. -/
theorem Solid.reads_fresh (h : Solid text) : Reads { mode := .fresh } text .loosely := by
  obtain ⟨hs, hne⟩ := h
  have hl : Reads .loosely text .loosely := hs.inner
  simp only [Sealed, Reads] at hs hl ⊢
  cases hc : text.toList with
  | nil => exact absurd (String.toList_eq_nil_iff.1 hc) hne
  | cons c rest =>
    rw [hc] at hs hl
    have hblank : c ≠ ' ' := by rintro rfl; cases hs
    have hbrace : c ≠ '\x7d' := by rintro rfl; cases hs
    rw [Reader.read_cons] at hl ⊢
    have hstep : Reader.step { mode := .fresh } c = Reader.step .loosely c := by
      simp [Reader.step, Reader.stepCode, Reader.loosely, hblank, hbrace]
    rw [hstep]
    exact hl

namespace Reads

variable {a b c : Reader}

/-- A text that goes on with a sealed fragment. -/
theorem frag (h : Reads a text b) (hb : b.mode = .code) (hn : Sealed next) :
    Reads a (text ++ next) b :=
  h.append (hn.reads hb)

/-- A text that goes on with a fragment between brackets. -/
theorem list (h : Reads a text b) (hb : b.isRoomy = true) (hn : Inner next) :
    Reads a (text ++ next) b :=
  h.append (hn.reads hb)

/-- A text that goes on with a sealed fragment and a fixed part behind it. -/
theorem piece (h : Reads a text b) (hn : Sealed next)
    (h' : (b.mode, b.read chars) = (.code, some c)) :
    Reads a (text ++ next ++ String.ofList chars) c :=
  (h.frag (Prod.mk.inj h').1 hn).lit (Prod.mk.inj h').2

/-- A sealed fragment between fixed parts. -/
theorem around {front : List Char} (hn : Sealed next)
    (h : (a.read front, b.mode, b.read chars) = (some b, .code, some c)) :
    Reads a (String.ofList front ++ next ++ String.ofList chars) c :=
  (start (Prod.mk.inj h).1).piece hn (Prod.mk.inj h).2

/-- A text that goes on with a fragment between brackets and a fixed part behind it. -/
theorem within (h : Reads a text b) (hn : Inner next)
    (h' : (b.isRoomy, b.read chars) = (true, some c)) :
    Reads a (text ++ next ++ String.ofList chars) c :=
  (h.list (Prod.mk.inj h').1 hn).lit (Prod.mk.inj h').2

end Reads

theorem Sealed.append (h : Sealed text) (h' : Sealed next) : Sealed (text ++ next) :=
  Reads.append h h'

theorem Solid.append (h : Solid text) (h' : Sealed next) : Solid (text ++ next) :=
  ⟨h.1.append h', by simp [h.2]⟩

theorem Inner.append (h : Inner text) (h' : Inner next) : Inner (text ++ next) :=
  Reads.append h h'

theorem sealed_empty : Sealed "" := rfl

/-! ### Words -/

/-- A character that stands for itself in code. -/
def isPlain (c : Char) : Bool :=
  isPrinted c && c ≠ '"' && c ≠ '/' && !isOpening c && !isClosing c && !isForeign c && !isDivider c

/-- Plain characters. -/
def Plain (cs : List Char) : Prop := ∀ c ∈ cs, isPlain c = true

instance (cs : List Char) : Decidable (Plain cs) := List.decidableBAll _ cs

/-- A text of plain characters, one at least: a name or a number. -/
def Wordy (text : String) : Prop := text ≠ "" ∧ Plain text.toList

theorem read_plain (h : Plain cs) : Reader.tightly.read cs = some .tightly := by
  induction cs with
  | nil => rfl
  | cons c rest ih =>
    have hc : isPlain c = true := h c (by simp)
    have hstep : Reader.tightly.step c = some .tightly := by
      simp only [isPlain, Bool.and_eq_true, decide_eq_true_eq, Bool.not_eq_true'] at hc
      obtain ⟨⟨⟨⟨⟨⟨hp, hq⟩, hs⟩, ho⟩, hcl⟩, hf⟩, hd⟩ := hc
      simp [Reader.step, Reader.stepCode, Reader.tightly, hp, hq, hs, ho, hcl, hf, hd]
    rw [Reader.read_cons, hstep]
    exact ih fun c hc => h c (by simp [hc])

theorem Wordy.solid (h : Wordy text) : Solid text := ⟨read_plain h.2, h.1⟩

theorem Plain.append {front back : List Char} (h : Plain front) (h' : Plain back) :
    Plain (front ++ back) := by
  simpa [Plain, or_imp, forall_and] using ⟨h, h'⟩

theorem Wordy.append (h : Wordy text) (h' : Plain next.toList) : Wordy (text ++ next) :=
  ⟨by simp [h.1], by simpa using h.2.append h'⟩

/-! ### Strings -/

theorem read_escapeChar (c : Char) :
    Reader.read { mode := .quote, tight := true } (escapeChar c) =
      some { mode := .quote, tight := true } := by
  unfold escapeChar
  repeat' split
  all_goals try rfl
  rename_i h₁ h₂ h₃ _ h₅ _ h₇ h₈
  simp [Reader.read, Reader.step, isLineEnd, h₁, h₂, h₃, h₅, h₇, h₈]

theorem read_escape (cs : List Char) :
    Reader.read { mode := .quote, tight := true } (cs.flatMap escapeChar) =
      some { mode := .quote, tight := true } := by
  induction cs with
  | nil => rfl
  | cons c rest ih => rw [List.flatMap_cons, Reader.read_append, read_escapeChar]; exact ih

/-- **A string literal is solid**, whatever its text. -/
theorem literal_solid (text : String) : Solid (literal text) := by
  refine ⟨?_, by simp [literal]⟩
  have hopen : Reads .tightly "\"" { mode := .quote, tight := true } := .start rfl
  have hbody :
      Reads { mode := .quote, tight := true } (escape text) { mode := .quote, tight := true } := by
    rw [Reads, escape, String.toList_ofList]
    exact read_escape _
  exact (hopen.append hbody).lit rfl

/-! ### Lists -/

/-- Inner fragments with an inner separator between them. -/
theorem inner_joinWith {separator : String} (hs : Inner separator)
    (h : ∀ text ∈ texts, Inner text) : Inner (Text.joinWith separator texts) := by
  induction texts with
  | nil => exact sealed_empty.inner
  | cons text rest ih =>
    cases rest with
    | nil => simpa using h
    | cons next rest =>
      rw [Text.joinWith_cons_cons]
      exact ((h text (by simp)).append hs).append (ih fun t ht => h t (by simp [ht]))

theorem inner_commas (h : ∀ text ∈ texts, Sealed text) : Inner (Text.commas texts) :=
  inner_joinWith (Reads.start rfl) fun text ht => (h text ht).inner

/-! ### Lines -/

/-- Reads a line. -/
def Reader.fresh : Reader := { mode := .fresh }

/-- Reads a line that begins with the brace that it closes. -/
def Reader.closing : Reader := { mode := .shut, opened := ['\x7b'] }

/-- A line that closes every bracket that it opens, and neither begins with a closing brace nor ends
with an opening one. -/
def Flat (text : String) : Prop := ∃ remark, Reads .fresh text { mode := .code, remark }

/-- A line that ends with an opening brace. -/
def OpensBrace (text : String) : Prop := Reads .fresh text { mode := .brace, opened := ['\x7b'] }

/-- A line that begins with a closing brace. -/
def ClosesBrace (text : String) : Prop := Reads .closing text { mode := .code }

/-- A line that begins with a closing brace and ends with an opening one. -/
def TurnsBrace (text : String) : Prop :=
  Reads .closing text { mode := .brace, opened := ['\x7b'] }

theorem Flat.intro {remark : Bool} (h : Reads .fresh text { mode := .code, remark }) : Flat text :=
  ⟨remark, h⟩

end BasicScript.Script
