import BasicScript.CommandLine

/-!
# Positional arguments

The words of a command are items (`items`): an option with its value, another flag, or a positional
word, which names the input.  A lone dash is a positional word and stands for the standard input.

* `settings_returns_iff`: a command is taken if and only if its options are in order, its target
  exists, and every positional word but the last is a lone dash.  So a second one is refused only
  behind a file name (`dash_then_file_taken`): the dash leaves no input behind, and the next word
  finds none.
-/

namespace BasicScript.CommandLine

open List

/-! ### Items -/

/-- Part of a command. -/
inductive Item where
  /-- An option that takes a value, which is missing at the end of the command. -/
  | valued (name : String) (value : Option String)
  | flag (name : String)
  | positional (word : String)

/-- Whether the next word is the value of an option. -/
def takesValue (word : String) : Bool := word = "--target" || word = "-o" || word = "--output"

def items : List String → List Item
  | [] => []
  | word :: rest =>
    if takesValue word then
      match rest with
      | [] => [.valued word none]
      | value :: rest => .valued word (some value) :: items rest
    else if isFlag word then .flag word :: items rest
    else .positional word :: items rest

namespace Item

/-- Whether an item is in order: a value is there, and a flag is known and does not ask for help. -/
def InOrder : Item → Prop
  | valued _ value => value.isSome
  | flag name => name ∈ ["--lint", "--no-cache", "--verbose"]
  | positional _ => True

def positional? : Item → Option String
  | positional word => some word
  | valued .. | flag _ => none

/-- The target that an item names. -/
def target? : Item → Option String
  | valued name value => if name = "--target" then value else none
  | flag _ | positional _ => none

end Item

/-- The positional words of a command. -/
def positionals (words : List String) : List String := (items words).filterMap Item.positional?

section Items

variable {word : String} (rest : List String)

theorem items_valued (h : takesValue word = true) (value : String) :
    items (word :: value :: rest) = .valued word (some value) :: items rest := by
  rw [items.eq_def]
  simp [h]

theorem items_flag (h : takesValue word = false) (hflag : isFlag word = true) :
    items (word :: rest) = .flag word :: items rest := by
  rw [items.eq_def]
  simp [h, hflag]

theorem items_positional (h : takesValue word = false) (hflag : isFlag word = false) :
    items (word :: rest) = .positional word :: items rest := by
  rw [items.eq_def]
  simp [h, hflag]

end Items

/-! ### What is taken -/

/-- Whether positional words can be taken where an input may be known already. -/
def Takes : Option String → List String → Prop
  | _, [] => True
  | some _, _ :: _ => False
  | none, word :: rest => Takes (if word = "-" then none else some word) rest

theorem takes_none_iff (words : List String) :
    Takes none words ↔ ∀ word ∈ words.dropLast, word = "-" := by
  induction words with
  | nil => simp [Takes]
  | cons word rest ih =>
    cases rest with
    | nil => simp [Takes]
    | cons next rest =>
      rw [Takes, dropLast_cons_cons, forall_mem_cons, ← ih]
      split
      · simp [*]
      · simp [*, Takes]

/-- Whether items can be taken where a target and perhaps an input are known: they are in order, the
target that is named last exists, and the positional words can be taken. -/
def Taken (target : String) (input : Option String) (parts : List Item) : Prop :=
  (∀ item ∈ parts, item.InOrder) ∧
    (∃ found, Target.ofName ((parts.filterMap Item.target?).getLast?.getD target) = .ok found) ∧
    Takes input (parts.filterMap Item.positional?)

section Taken

variable {target : String} {input : Option String} {parts : List Item}

theorem taken_valued (name value : String) :
    Taken target input (.valued name (some value) :: parts) ↔
    Taken (if name = "--target" then value else target) input parts := by
  by_cases h : name = "--target" <;>
    simp [Taken, Item.InOrder, Item.target?, Item.positional?, h, filterMap_cons, getLast?_cons]

theorem taken_flag (name : String) :
    Taken target input (.flag name :: parts) ↔ (Item.flag name).InOrder ∧
      Taken target input parts := by
  simp [Taken, Item.target?, Item.positional?, filterMap_cons, and_assoc]

theorem taken_positional (word : String) : Taken target input (.positional word :: parts) ↔
    input = none ∧ Taken target (if word = "-" then none else some word) parts := by
  cases input <;> simp [Taken, Item.InOrder, Item.target?, Item.positional?, Takes]

end Taken

/-- The words are taken one by one. -/
theorem settingsFrom_returns_iff (known : Settings) (words : List String) :
    (∃ settings, settingsFrom known words = .ok settings) ↔
      Taken known.target known.input (items words) := by
  fun_induction settingsFrom known words with
  | case1 known target h => simp [items, Taken, Takes, h]
  | case2 known fault h => simp [items, Taken, Takes, h]
  | case3 known word rest h =>
    have hword : takesValue word = false ∧ isFlag word = true ∧ ¬(Item.flag word).InOrder := by
      rcases h with rfl | rfl <;> simp [Item.InOrder] <;> decide
    rw [items_flag rest hword.1 hword.2.1, taken_flag]
    simp [hword.2.2]
  | case4 => simp [items, takesValue, Taken, Item.InOrder]
  | case5 known value rest _ ih => rw [ih, items_valued rest rfl, taken_valued, if_pos rfl]
  | case6 known word hhelp htarget h =>
    have hword : takesValue word = true := by rcases h with rfl | rfl <;> decide
    simp [items, hword, Taken, Item.InOrder]
  | case7 known word hhelp htarget h value rest ih =>
    have hword : takesValue word = true := by rcases h with rfl | rfl <;> decide
    rw [ih, items_valued rest hword, taken_valued, if_neg htarget]
  | case8 known rest _ _ _ ih | case9 known rest _ _ _ _ ih | case10 known rest _ _ _ _ _ ih =>
    rw [ih, items_flag rest (by decide) (by decide), taken_flag]
    simp [Item.InOrder]
  | case11 known word rest _ htarget houtput hlint hcache hverbose hflag =>
    have hword : takesValue word = false := by simp_all [takesValue]
    rw [items_flag rest hword hflag, taken_flag]
    simp [Item.InOrder, hlint, hcache, hverbose]
  | case12 known word rest _ htarget houtput _ _ _ hflag hinput =>
    have hword : takesValue word = false := by simp_all [takesValue]
    rw [items_positional rest hword (by simpa using hflag), taken_positional]
    simp [Option.isSome_iff_ne_none.1 hinput]
  | case13 known word rest _ htarget houtput _ _ _ hflag hinput ih =>
    have hword : takesValue word = false := by simp_all [takesValue]
    rw [ih, items_positional rest hword (by simpa using hflag), taken_positional]
    simp [Option.not_isSome_iff_eq_none.1 hinput]

/-- **When a command is taken.**  Its options are known and have their values, the target that it
names last exists, and of its positional words each but the last is a lone dash. -/
theorem settings_returns_iff (words : List String) : (∃ known, settings words = .ok known) ↔
    (∀ item ∈ items words, item.InOrder) ∧
    (∃ target, Target.ofName (((items words).filterMap Item.target?).getLast?.getD "node") =
      .ok target) ∧
    ∀ word ∈ (positionals words).dropLast, word = "-" := by
  rw [← takes_none_iff]
  exact settingsFrom_returns_iff {} words

/-- Two positional words are taken where the first is a dash, and refused where it is a file. -/
theorem dash_then_file_taken : positionals ["-", "a.bas"] = ["-", "a.bas"] ∧
    settings ["-", "a.bas"] = .ok { input := some "a.bas" } ∧
    settings ["a.bas", "-"] = .error (.surplus "-") :=
  ⟨rfl, rfl, rfl⟩

end BasicScript.CommandLine
