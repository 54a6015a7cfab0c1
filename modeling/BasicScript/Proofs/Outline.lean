import BasicScript.Proofs.Reading
import BasicScript.Script.Page

/-!
# The outline of a script

What the lines of a script show when they are looked at from outside: their indentation, their
brackets and their braces, without what stands in strings and `//` remarks.  These are functions on
text alone (`indentation`, `rounds`, `braces`, `bracesAfter`), and know nothing of how the lines
were made.

Lines that were made one by one are **nested** (`Nested`): every line stands at the depth that the
braces in front of it ask for, and each brace that is closed was opened by a line.  Nested lines
have the outline that they should have (`Nested.laidOut`).
-/

namespace BasicScript.Script

variable {line : Line} {a b r r' : Reader} {text : String} {cs : List Char} {c : Char}

/-! ### Looking at text -/

/-- A quote that begins a string. -/
def isQuote (c : Char) : Bool := c = '"' || c = '\'' || c = '\x60'

/-- What stands outside strings and `//` remarks.  A text that begins inside a string begins with
the quote `quote` open. -/
def outside : Option Char → List Char → List Char
  | _, [] => []
  | some quote, '\\' :: _ :: rest => outside (some quote) rest
  | some quote, c :: rest => outside (if c = quote then none else some quote) rest
  | none, '/' :: '/' :: _ => []
  | none, c :: rest => if isQuote c then outside (some c) rest else c :: outside none rest

/-- The code of a line. -/
def code (line : String) : List Char := outside none line.toList

/-- The round and square brackets that are open behind some code, the innermost first, if none is
closed that does not match. -/
def rounds : List Char → List Char → Option (List Char)
  | opened, [] => some opened
  | opened, c :: rest =>
    if c = '(' || c = '[' then rounds (c :: opened) rest
    else if c = ')' || c = ']' then
      match opened with
      | [] => none
      | top :: below => if partner top = c then rounds below rest else none
    else rounds opened rest

/-- The number of braces that are open behind some code, if never more are closed than were
opened. -/
def braces : Nat → List Char → Option Nat
  | opened, [] => some opened
  | opened, '\x7b' :: rest => braces (opened + 1) rest
  | 0, '\x7d' :: _ => none
  | opened + 1, '\x7d' :: rest => braces opened rest
  | opened, _ :: rest => braces opened rest

/-- The number of braces that are open behind some lines. -/
def bracesAfter (opened : Nat) : List String → Option Nat
  | [] => some opened
  | line :: rest => (braces opened (code line)).bind (bracesAfter · rest)

/-- The number of blanks in front of a line. -/
def indentation (line : String) : Nat := (line.toList.takeWhile (· = ' ')).length

/-- Whether the first character of a line that is no blank is a closing brace. -/
def startsClosing (line : String) : Bool := (line.toList.dropWhile (· = ' ')).head? = some '\x7d'

example : code "x = _mid(\"a)\", 1); // (" = "x = _mid(, 1); ".toList := by decide +kernel

example : bracesAfter 0 ["if (a[0]) \x7b", "\x7d else \x7b"] = some 1 := by decide +kernel

/-! ### What the reader says of them -/

/-- A step in a remark keeps the brackets. -/
theorem Reader.opened_of_step (h : r.step c = some r') (hr : r.remark = true) :
    r'.opened = r.opened := by
  rcases step_cases h with ⟨-, -, rfl⟩ | ⟨-, -, rfl⟩ | ⟨-, -, -, -, -, hcode⟩
  · rfl
  · rfl
  · cases hcode <;> simp_all

theorem Reader.opened_of_read (h : r.read cs = some r') (hr : r.remark = true) :
    r'.opened = r.opened := by
  induction cs generalizing r with
  | nil => cases h; rfl
  | cons c rest ih =>
    rw [read_cons] at h
    obtain ⟨q, hq, h⟩ := Option.bind_eq_some_iff.1 h
    exact (ih h (remark_of_step hq hr)).trans (opened_of_step hq hr)

/-- A round or square bracket that opens. -/
def isRound (c : Char) : Bool := c = '(' || c = '['

/-- The quote that is open where a reader stands. -/
def Reader.quote? (r : Reader) : Option Char := if r.mode = .quote then some '"' else none

/-- What the brackets of two readers and the code between them have to do with each other. -/
structure Outlines (r : Reader) (code : List Char) (r' : Reader) : Prop where
  rounds : Script.rounds (r.opened.filter isRound) code = some (r'.opened.filter isRound)
  braces : ∀ d, Script.braces (d + r.opened.countP (!isRound ·)) code =
    some (d + r'.opened.countP (!isRound ·))

namespace Outlines

variable {r₁ : Reader} {rest : List Char}

theorem of_eq (h : r'.opened = r.opened) : Outlines r [] r' :=
  ⟨by simp [h, Script.rounds], fun d => by simp [h, Script.braces]⟩

theorem skip (h : Outlines r₁ rest r') (ho : r₁.opened = r.opened) : Outlines r rest r' :=
  ⟨ho ▸ h.rounds, ho ▸ h.braces⟩

/-- Code goes on with a character that the reader took as code. -/
theorem cons (hstep : Reader.CodeStep r c r₁) (hr : r.remark = false) (hq : c ≠ '"')
    (hs : c = '/' → r.mode ≠ .slash) (h : Outlines r₁ rest r') : Outlines r (c :: rest) r' := by
  obtain ⟨hrounds, hbraces⟩ := h
  cases hstep with
  | quote hc => exact absurd hc hq
  | remark _ hremark => simp [hr] at hremark
  | comment hc _ hm => exact absurd hm (hs hc)
  | slash hc =>
    subst hc
    exact ⟨by simpa [Script.rounds] using hrounds,
      fun d => by simpa [Script.braces] using hbraces d⟩
  | opening hc =>
    simp only [isOpening, Bool.or_eq_true, decide_eq_true_eq] at hc
    rcases hc with (rfl | rfl) | rfl
    · exact ⟨by simpa [Script.rounds, isRound] using hrounds,
        fun d => by simpa [Script.braces, isRound] using hbraces d⟩
    · exact ⟨by simpa [Script.rounds, isRound] using hrounds,
        fun d => by simpa [Script.braces, isRound] using hbraces d⟩
    · refine ⟨by simpa [Script.rounds, isRound] using hrounds, fun d => ?_⟩
      simpa [Script.braces, isRound, Nat.add_assoc] using hbraces d
  | @closing top below hc _ ho hp =>
    have hpair : (top = '(' ∧ c = ')') ∨ (top = '[' ∧ c = ']') ∨
        (isRound top = false ∧ c = '\x7d') := by
      unfold partner at hp
      grind [isRound]
    rcases hpair with ⟨rfl, rfl⟩ | ⟨rfl, rfl⟩ | ⟨htop, rfl⟩
    · exact ⟨by simpa [Script.rounds, isRound, partner, ho] using hrounds,
        fun d => by simpa [Script.braces, isRound, ho] using hbraces d⟩
    · exact ⟨by simpa [Script.rounds, isRound, partner, ho] using hrounds,
        fun d => by simpa [Script.braces, isRound, ho] using hbraces d⟩
    · refine ⟨by simpa [Script.rounds, ho, htop] using hrounds, fun d => ?_⟩
      simpa [ho, htop, ← Nat.add_assoc, Script.braces] using hbraces d
  | plain hc =>
    obtain ⟨-, -, hopening, hclosing, -⟩ := hc
    simp only [isOpening, isClosing, Bool.or_eq_false_iff,
      decide_eq_false_iff_not] at hopening hclosing
    refine ⟨by simpa [Script.rounds, hopening, hclosing] using hrounds, fun d => ?_⟩
    rw [Script.braces]
    · exact hbraces d
    all_goals simp_all

end Outlines

/-- A step inside a string keeps the brackets. -/
theorem Reader.step_quote (h : r.step c = some r') (hm : r.mode = .quote ∨ r.mode = .escape) :
    r'.opened = r.opened ∧ r'.remark = r.remark ∧
      r'.mode = (if r.mode = .escape then .quote
        else if c = '"' then .code else if c = '\\' then .escape else .quote) := by
  rcases step_cases h with ⟨he, -, rfl⟩ | ⟨hq, -, rfl⟩ | ⟨hne, hne', -⟩
  · simp [he]
  · simp [hq]
  · rcases hm with hm | hm <;> contradiction

theorem Reader.step_code (h : r.step c = some r') (hm : r.mode ≠ .quote) (he : r.mode ≠ .escape) :
    CodeStep r c r' := by
  rcases step_cases h with ⟨he', -⟩ | ⟨hm', -⟩ | ⟨-, -, -, -, -, hcode⟩
  · exact absurd he' he
  · exact absurd hm' hm
  · exact hcode

/-- A step of code begins no string and no remark, unless it reads a quote or a second slash. -/
theorem Reader.CodeStep.next (h : CodeStep r c r') (hq : c ≠ '"')
    (hr : r.remark = false) (hs : c = '/' → r.mode ≠ .slash) :
    r'.mode ≠ .quote ∧ r'.mode ≠ .escape ∧ r'.remark = false ∧ (r'.mode = .slash → c = '/') := by
  cases h with
  | quote hc => exact absurd hc hq
  | remark _ hremark => simp [hr] at hremark
  | comment hc _ hm => exact absurd hm (hs hc)
  | slash hc => exact ⟨by simp, by simp, hr, fun _ => hc⟩
  | opening => exact ⟨by grind [settled], by grind [settled], hr, by grind [settled]⟩
  | closing | plain => exact ⟨by simp, by simp, hr, by simp⟩

theorem Reader.mode_of_quote? {quote : Char} (h : some quote = r.quote?) :
    r.mode = .quote ∧ quote = '"' := by
  unfold quote? at h
  split at h
  · exact ⟨‹_›, Option.some.inj h⟩
  · cases h

theorem Reader.mode_ne_of_quote? (h : none = r.quote?) : r.mode ≠ .quote := by
  intro hm
  simp [quote?, hm] at h

/-- **Reading tells the outline.**  Reading a text takes the open brackets to those that its code
leaves open. -/
theorem outlines_of_read {quote : Option Char}
    (h : r.read cs = some r') (hquote : quote = r.quote?) (hr : r.remark = false)
    (he : r.mode ≠ .escape) (hs : r.mode = .slash → cs.head? ≠ some '/') :
    Outlines r (outside quote cs) r' := by
  fun_induction outside quote cs generalizing r with
  | case1 =>
    cases h
    exact .of_eq rfl
  | case2 quote c rest ih =>
    -- an escaped character of a string
    obtain ⟨hm, rfl⟩ := Reader.mode_of_quote? hquote
    obtain ⟨r₁, h₁, h⟩ := Option.bind_eq_some_iff.1 h
    obtain ⟨r₂, h₂, h⟩ := Option.bind_eq_some_iff.1 h
    obtain ⟨ho₁, hr₁, hm₁⟩ := Reader.step_quote h₁ (.inl hm)
    replace hm₁ : r₁.mode = .escape := by simpa [hm] using hm₁
    obtain ⟨ho₂, hr₂, hm₂⟩ := Reader.step_quote h₂ (.inr hm₁)
    rw [if_pos hm₁] at hm₂
    exact (ih h (by simp [Reader.quote?, hm₂]) (by simp [*]) (by simp [hm₂]) (by simp [hm₂])).skip
      (ho₂.trans ho₁)
  | case3 quote c rest hne ih =>
    obtain ⟨hm, rfl⟩ := Reader.mode_of_quote? hquote
    obtain ⟨r₁, h₁, h⟩ := Option.bind_eq_some_iff.1 h
    obtain ⟨ho₁, hr₁, hm₁⟩ := Reader.step_quote h₁ (.inl hm)
    rw [if_neg he] at hm₁
    by_cases hc : c = '\\'
    · -- the string ends behind a backslash
      cases rest with
      | nil =>
        cases h
        simpa [outside] using Outlines.of_eq ho₁
      | cons c' rest => exact absurd rfl (hne c' rest hc)
    · refine (ih h ?_ (by simp [*]) ?_ ?_).skip ho₁ <;> grind [Reader.quote?]
  | case4 rest =>
    -- a remark
    have hm := Reader.mode_ne_of_quote? hquote
    obtain ⟨r₁, h₁, h⟩ := Option.bind_eq_some_iff.1 h
    obtain ⟨r₂, h₂, h⟩ := Option.bind_eq_some_iff.1 h
    have hslash : r₁ = { r with mode := .slash } := by
      cases Reader.step_code h₁ hm he <;> simp_all [isOpening, isClosing]
    subst hslash
    have hremark : r₂ = { r with mode := .code, remark := true } := by
      cases Reader.step_code h₂ (by simp) (by simp) <;> simp_all [isOpening, isClosing]
    subst hremark
    have hopened := Reader.opened_of_read h rfl
    exact .of_eq hopened
  | case5 c rest hne hq ih =>
    -- a string begins
    have hm := Reader.mode_ne_of_quote? hquote
    obtain ⟨r₁, h₁, h⟩ := Option.bind_eq_some_iff.1 h
    have hstart : c = '"' ∧ r₁ = { r with mode := .quote } := by
      cases Reader.step_code h₁ hm he <;>
        simp_all [isQuote, isOpening, isClosing, isForeign] <;> grind
    obtain ⟨rfl, rfl⟩ := hstart
    exact (ih h rfl hr (by simp) (by simp)).skip rfl
  | case6 c rest hne hq ih =>
    have hm := Reader.mode_ne_of_quote? hquote
    obtain ⟨r₁, h₁, h⟩ := Option.bind_eq_some_iff.1 h
    have hcode := Reader.step_code h₁ hm he
    have hplain : c ≠ '"' := by
      rintro rfl
      simp [isQuote] at hq
    have hslash : c = '/' → r.mode ≠ .slash := fun hc hm' => hs hm' (by simp [hc])
    obtain ⟨hm₁, he₁, hr₁, hs₁⟩ := hcode.next hplain hr hslash
    refine .cons hcode hr hplain hslash
      (ih h (by simp [Reader.quote?, hm₁]) hr₁ he₁ fun hm₁ hhead => ?_)
    obtain ⟨tail, rfl⟩ := List.head?_eq_some_iff.1 hhead
    exact hne tail (hs₁ hm₁) rfl

/-! ### Lines with their indentation -/

theorem toList_repeated (depth : Nat) :
    (Text.repeated indentUnit depth).toList = List.replicate (2 * depth) ' ' := by
  induction depth with
  | zero => rfl
  | succ depth ih =>
    rw [Text.repeated, String.toList_append, ih, Nat.mul_succ, Nat.add_comm,
      ← List.replicate_append_replicate]
    rfl

theorem toList_render (line : Line) :
    (line.render indentUnit).toList = List.replicate (2 * line.depth) ' ' ++ line.text.toList := by
  rw [Line.render, String.toList_append, toList_repeated]

theorem outside_blanks (n : Nat) (cs : List Char) :
    outside none (List.replicate n ' ' ++ cs) = List.replicate n ' ' ++ outside none cs := by
  induction n with
  | zero => rfl
  | succ n ih =>
    rw [List.replicate_succ, List.cons_append, List.cons_append, ← ih]
    simp [outside, isQuote]

theorem rounds_blanks (n : Nat) (opened cs : List Char) :
    rounds opened (List.replicate n ' ' ++ cs) = rounds opened cs := by
  induction n with
  | zero => rfl
  | succ n ih => simpa [List.replicate_succ, rounds] using ih

theorem braces_blanks (n opened : Nat) (cs : List Char) :
    braces opened (List.replicate n ' ' ++ cs) = braces opened cs := by
  induction n with
  | zero => rfl
  | succ n ih => simpa [List.replicate_succ, braces] using ih

/-- The first character of a line that is no blank is that of its text. -/
theorem dropWhile_render (line : Line) (h : line.text.toList.head? ≠ some ' ') :
    (line.render indentUnit).toList.dropWhile (· = ' ') = line.text.toList := by
  rw [toList_render, List.dropWhile_append_of_pos (by simp)]
  cases htext : line.text.toList with
  | nil => rfl
  | cons c rest => exact List.dropWhile_cons_of_neg (by simpa [htext] using h)

theorem indentation_render (line : Line) (h : line.text.toList.head? ≠ some ' ') :
    indentation (line.render indentUnit) = 2 * line.depth := by
  rw [indentation, toList_render, List.takeWhile_append_of_pos (by simp)]
  cases htext : line.text.toList with
  | nil => simp
  | cons c rest =>
    rw [List.takeWhile_cons_of_neg (by simpa [htext] using h)]
    simp

/-! ### Nested lines -/

/-- What one line does to the lines that left a brace open, the innermost first, among `base` other
open braces.  It stands as deep as the number of braces says, and a line that closes a brace must
agree with the one that opened it. -/
inductive Shift (ok : String → String → Prop) (base : Nat) :
    List String → Line → List String → Prop where
  | flat {opened : List String} {text : String} (h : Flat text) :
      Shift ok base opened ⟨1 + (base + opened.length), text⟩ opened
  | opens {opened : List String} {text : String} (h : OpensBrace text) :
      Shift ok base opened ⟨1 + (base + opened.length), text⟩ (text :: opened)
  | closes {opened : List String} {top text : String} (h : ClosesBrace text) (hok : ok top text) :
      Shift ok base (top :: opened) ⟨1 + (base + opened.length), text⟩ opened
  | turns {opened : List String} {top text : String} (h : TurnsBrace text) (hok : ok top text) :
      Shift ok base (top :: opened) ⟨1 + (base + opened.length), text⟩ (text :: opened)

/-- What lines one below the other do. -/
inductive Nested (ok : String → String → Prop) (base : Nat) :
    List String → List Line → List String → Prop where
  | nil {opened : List String} : Nested ok base opened [] opened
  | cons {opened₁ opened₂ opened₃ : List String} {line : Line} {rest : List Line}
      (h : Shift ok base opened₁ line opened₂) (hrest : Nested ok base opened₂ rest opened₃) :
      Nested ok base opened₁ (line :: rest) opened₃

theorem Reads.outlines (h : Reads a text b)
    (ha : a.mode = .fresh ∨ a.mode = .shut) (hr : a.remark = false) : Outlines a (code text) b := by
  refine outlines_of_read h ?_ hr ?_ ?_ <;> rcases ha with ha | ha <;> simp [ha, Reader.quote?]

/-- The last step into code or behind a brace tells the last character. -/
theorem Reader.brace_of_step (h : r.step c = some b)
    (hb : b.mode = .code ∨ b.mode = .brace) : c = '\x7b' ↔ b.mode = .brace := by
  rcases step_cases h with ⟨-, -, rfl⟩ | ⟨-, -, rfl⟩ | ⟨-, -, -, -, -, hcode⟩
  · simp at hb
  · grind
  · cases hcode <;> grind [settled, isOpening, isClosing]

/-- How a text begins and ends: with no blank, and with the brace that it closes or opens. -/
structure Bounds (text : String) (closes opens : Prop) : Prop where
  blank : text.toList.head? ≠ some ' '
  first : text.toList.head? = some '\x7d' ↔ closes
  last : text.toList.getLast? = some '\x7b' ↔ opens

theorem Reads.bounds (h : Reads a text b) (ha : a = .fresh ∨ a = .closing)
    (hb : b.mode = .code ∨ b.mode = .brace) : Bounds text (a = .closing) (b.mode = .brace) := by
  have hne : text.toList ≠ [] := by
    intro hnil
    rw [Reads, hnil] at h
    cases h
    rcases ha with rfl | rfl <;> simp [Reader.fresh, Reader.closing] at hb
  have hfirst : text.toList.head? ≠ some ' ' ∧
      (text.toList.head? = some '\x7d' ↔ a = .closing) := by
    obtain ⟨c, rest, htext⟩ := List.exists_cons_of_ne_nil hne
    rw [Reads, htext] at h
    obtain ⟨r, hstep, -⟩ := Option.bind_eq_some_iff.1 h
    rw [htext]
    rcases ha with rfl | rfl <;> rcases Reader.step_cases hstep with ⟨hm, -⟩ | ⟨hm, -⟩ |
      ⟨-, -, hfresh, hshut, -⟩ <;>
      simp_all [Reader.fresh, Reader.closing]
  refine ⟨hfirst.1, hfirst.2, ?_⟩
  obtain ⟨front, c, htext⟩ := (List.eq_nil_or_concat text.toList).resolve_left hne
  rw [List.concat_eq_append] at htext
  rw [Reads, htext, Reader.read_append] at h
  obtain ⟨r, -, hlast⟩ := Option.bind_eq_some_iff.1 h
  obtain ⟨r', hstep, hnil⟩ := Option.bind_eq_some_iff.1 hlast
  cases hnil
  rw [htext, List.getLast?_append]
  simpa using Reader.brace_of_step hstep hb

theorem Flat.bounds (h : Flat text) : Bounds text False False := by
  obtain ⟨remark, h⟩ := h
  simpa [Reader.fresh, Reader.closing] using h.bounds (.inl rfl) (.inl rfl)

theorem OpensBrace.bounds (h : OpensBrace text) : Bounds text False True := by
  simpa [Reader.fresh, Reader.closing] using Reads.bounds h (.inl rfl) (.inr rfl)

theorem ClosesBrace.bounds (h : ClosesBrace text) : Bounds text True False := by
  simpa using Reads.bounds h (.inr rfl) (.inl rfl)

theorem TurnsBrace.bounds (h : TurnsBrace text) : Bounds text True True := by
  simpa using Reads.bounds h (.inr rfl) (.inr rfl)

theorem Reads.ne_empty (h : Reads a text b) (hm : b.mode ≠ a.mode) : text ≠ "" := by
  rintro rfl
  cases h
  exact hm rfl

theorem Flat.ne_empty (h : Flat text) : text ≠ "" := by
  obtain ⟨remark, h⟩ := h
  exact h.ne_empty (by simp [Reader.fresh])

theorem OpensBrace.ne_empty (h : OpensBrace text) : text ≠ "" :=
  Reads.ne_empty h (by simp [Reader.fresh])

theorem ClosesBrace.ne_empty (h : ClosesBrace text) : text ≠ "" :=
  Reads.ne_empty h (by simp [Reader.closing])

theorem TurnsBrace.ne_empty (h : TurnsBrace text) : text ≠ "" :=
  Reads.ne_empty h (by simp [Reader.closing])

/-- What is read is one line. -/
theorem Reader.isLineEnd_of_read (h : r.read cs = some r') : ∀ c ∈ cs, isLineEnd c = false := by
  induction cs generalizing r with
  | nil => simp
  | cons c rest ih =>
    rw [read_cons] at h
    obtain ⟨q, hq, h⟩ := Option.bind_eq_some_iff.1 h
    refine List.forall_mem_cons.2 ⟨?_, ih h⟩
    rcases step_cases hq with ⟨-, hc, -⟩ | ⟨-, hc, -⟩ | ⟨-, -, -, -, hc, -⟩
    · exact hc
    · exact hc
    · cases hend : isLineEnd c with
      | false => rfl
      | true =>
        simp only [isLineEnd, Bool.or_eq_true, decide_eq_true_eq] at hend
        rcases hend with ((rfl | rfl) | rfl) | rfl <;> exact absurd hc (by decide)

theorem single_render (h : ∀ c ∈ line.text.toList, isLineEnd c = false) :
    ∀ c ∈ (line.render indentUnit).toList, isLineEnd c = false := by
  intro c hc
  rw [toList_render] at hc
  rcases List.mem_append.1 hc with hc | hc
  · rw [List.eq_of_mem_replicate hc]
    rfl
  · exact h c hc

/-- How a line looks among `d` open braces, of which it leaves `d'` open. -/
structure Stands (d : Nat) (line : String) (d' : Nat) : Prop where
  single : ∀ c ∈ line.toList, isLineEnd c = false
  rounds : Script.rounds [] (code line) = some []
  braces : Script.braces d (code line) = some d'
  indentation : Script.indentation line + (if startsClosing line then 2 else 0) = 2 * (1 + d)

theorem Reads.stands {d : Nat} (h : Reads a text b) (ha : a = .fresh ∨ a = .closing)
    (hm : b.mode = .code ∨ b.mode = .brace) (hb : b.opened.filter isRound = []) :
    Stands (d + a.opened.countP (!isRound ·)) (Line.render indentUnit ⟨1 + d, text⟩)
      (d + b.opened.countP (!isRound ·)) := by
  obtain ⟨hrounds, hbraces⟩ := h.outlines (ha.imp (congrArg Reader.mode) (congrArg Reader.mode))
    (by rcases ha with rfl | rfl <;> rfl)
  obtain ⟨hblank, hfirst, -⟩ := h.bounds ha hm
  have hcode : code (Line.render indentUnit ⟨1 + d, text⟩) =
      List.replicate (2 * (1 + d)) ' ' ++ code text := by
    rw [code, toList_render, outside_blanks, code]
  refine ⟨single_render (Reader.isLineEnd_of_read h), ?_, ?_, ?_⟩
  · have hround : a.opened.filter isRound = [] := by rcases ha with rfl | rfl <;> rfl
    rw [hcode, rounds_blanks]
    rw [hround, hb] at hrounds
    exact hrounds
  · rw [hcode, braces_blanks]
    exact hbraces d
  · simp only [indentation_render ⟨1 + d, text⟩ hblank, startsClosing,
      dropWhile_render ⟨1 + d, text⟩ hblank, hfirst, decide_eq_true_eq]
    rcases ha with rfl | rfl
    · simp [Reader.fresh, Reader.closing]
    · simp [Reader.closing, isRound]
      omega

/-- A line that shifts the open braces stands where it should. -/
theorem Shift.stands {ok : String → String → Prop} {base : Nat} {opened opened' : List String}
    (h : Shift ok base opened line opened') :
    Stands (base + opened.length) (line.render indentUnit) (base + opened'.length) := by
  cases h with
  | flat h =>
    obtain ⟨remark, h⟩ := h
    exact h.stands (.inl rfl) (.inl rfl) rfl
  | opens h => exact Reads.stands h (.inl rfl) (.inr rfl) rfl
  | closes h => exact Reads.stands h (.inr rfl) (.inl rfl) rfl
  | turns h => exact Reads.stands h (.inr rfl) (.inr rfl) rfl

/-! ### The outline of nested lines -/

/-- How the lines of a whole script look: each of them is one line and balanced in round and square
brackets, its indentation is two blanks for each open brace and two more, with two less where it
begins by closing one, and the braces are balanced. -/
structure LaidOut (lines : List String) : Prop where
  single : ∀ line ∈ lines, ∀ c ∈ line.toList, isLineEnd c = false
  rounds : ∀ line ∈ lines, Script.rounds [] (code line) = some []
  braces : bracesAfter 0 lines = some 0
  indentation : ∀ front line back, lines = front ++ line :: back →
    ∃ d, bracesAfter 0 front = some d ∧
      Script.indentation line + (if startsClosing line then 2 else 0) = 2 * (1 + d)

namespace Nested

open List

variable {ok : String → String → Prop} {base : Nat} {opened opened₁ opened₂ : List String}
  {lines more : List Line}

theorem append (h : Nested ok base opened lines opened₁)
    (h' : Nested ok base opened₁ more opened₂) : Nested ok base opened (lines ++ more) opened₂ := by
  induction h with
  | nil => exact h'
  | cons h _ ih => exact .cons h (ih h')

theorem snoc (h : Nested ok base opened lines opened₁) (h' : Shift ok base opened₁ line opened₂) :
    Nested ok base opened (lines ++ [line]) opened₂ :=
  h.append (.cons h' .nil)

/-- Flat lines, all at the depth of the place. -/
theorem flats {texts : List String} (h : ∀ text ∈ texts, Flat text) :
    Nested ok base opened (texts.map (Line.mk (1 + (base + opened.length)))) opened := by
  induction texts with
  | nil => exact .nil
  | cons text rest ih =>
    exact .cons (.flat (h text (.head _))) (ih fun t ht => h t (.tail _ ht))

/-- Braces around nested lines. -/
theorem around {outer : List String} (h : Nested ok (base + outer.length) opened lines opened₁) :
    Nested ok base (opened ++ outer) lines (opened₁ ++ outer) := by
  have hdepth : ∀ l : List String, 1 + (base + outer.length + l.length) =
      1 + (base + (l ++ outer).length) := fun l => by simp only [length_append]; omega
  induction h with
  | nil => exact .nil
  | cons h _ ih =>
    refine .cons ?_ ih
    cases h with
    | flat h => rw [hdepth]; exact .flat h
    | opens h => rw [hdepth]; exact .opens h
    | closes h hok => rw [hdepth]; exact .closes h hok
    | turns h hok => rw [hdepth]; exact .turns h hok

theorem stands (h : Nested ok base opened lines opened₁) :
    bracesAfter (base + opened.length) (lines.map (Line.render indentUnit)) =
        some (base + opened₁.length) ∧
      (∀ line ∈ lines.map (Line.render indentUnit), ∃ d d', Stands d line d') ∧
      ∀ front line back, lines.map (Line.render indentUnit) = front ++ line :: back →
        ∃ d, bracesAfter (base + opened.length) front = some d ∧
          indentation line + (if startsClosing line then 2 else 0) = 2 * (1 + d) := by
  induction h with
  | nil => simp [bracesAfter]
  | cons h _ ih =>
    obtain ⟨hbraces, hlines, hindent⟩ := ih
    have hline := h.stands
    simp only [map_cons, bracesAfter, hline.braces, Option.bind_some]
    refine ⟨hbraces, forall_mem_cons.2 ⟨⟨_, _, hline⟩, hlines⟩, fun front line back he => ?_⟩
    cases front with
    | nil =>
      obtain ⟨rfl, -⟩ := List.cons.inj he
      exact ⟨_, rfl, hline.indentation⟩
    | cons first front =>
      obtain ⟨rfl, hrest⟩ := List.cons.inj he
      obtain ⟨d, hd, hl⟩ := hindent front line back hrest
      exact ⟨d, by simp [bracesAfter, hline.braces, hd], hl⟩

/-- **Nested lines that leave no brace open are laid out.** -/
theorem laidOut (h : Nested ok 0 [] lines []) : LaidOut (lines.map (Line.render indentUnit)) := by
  obtain ⟨hbraces, hlines, hindent⟩ := h.stands
  simp only [length_nil, Nat.add_zero] at hbraces hindent
  exact {
    single := fun line hline => by obtain ⟨d, d', hstands⟩ := hlines line hline; exact hstands.1
    rounds := fun line hline => by obtain ⟨d, d', hstands⟩ := hlines line hline; exact hstands.2
    braces := hbraces
    indentation := hindent }

end Nested

end BasicScript.Script
