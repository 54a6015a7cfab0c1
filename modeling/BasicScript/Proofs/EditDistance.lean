import BasicScript.Diagnostic.EditDistance
import Mathlib.Order.Bounds.Basic

/-!
# Edit distance

A text turns into another by single edits, each of them anywhere in what the edits before it left
(`Turns`).  The table knows nothing of such sequences: it goes through both texts once, and where
two characters agree it takes neither of the other two ways.  What it holds is `steps`, which reads
the texts from their ends.

* `distance_isLeast`: the distance of two texts is the least number of edits that turn one into the
  other.

That so many edits are enough follows the recursion of `steps`.  That fewer are not rests on one
fact: a single edit of a text changes its steps to any other text by one at most (`Edit.steps_le`).
The ways that were not taken cost nothing by the same fact (`steps_cons`).
-/

namespace BasicScript.EditDistance

open List

variable {a b x y : List Char} {c d : Char} {n : Nat}

/-! ### Edits -/

/-- A character is put in, taken out or replaced. -/
inductive Edit : List Char → List Char → Prop
  | insert (front back : List Char) (c : Char) : Edit (front ++ back) (front ++ c :: back)
  | delete (front back : List Char) (c : Char) : Edit (front ++ c :: back) (front ++ back)
  | substitute (front back : List Char) (c d : Char) :
      Edit (front ++ c :: back) (front ++ d :: back)

/-- A number of edits, one after the other, turn a text into another. -/
inductive Turns : Nat → List Char → List Char → Prop
  | done (a : List Char) : Turns 0 a a
  | edit {n : Nat} {a b x : List Char} : Edit a b → Turns n b x → Turns (n + 1) a x

theorem Edit.cons (c : Char) (h : Edit a b) : Edit (c :: a) (c :: b) := by
  cases h with
  | insert front back e => exact .insert (c :: front) back e
  | delete front back e => exact .delete (c :: front) back e
  | substitute front back e d => exact .substitute (c :: front) back e d

theorem Turns.cons (c : Char) (h : Turns n a b) : Turns n (c :: a) (c :: b) := by
  induction h with
  | done a => exact .done _
  | edit h _ ih => exact .edit (h.cons c) ih

theorem Edit.reverse (h : Edit a b) : Edit a.reverse b.reverse := by
  cases h with
  | insert front back c => simpa using Edit.insert back.reverse front.reverse c
  | delete front back c => simpa using Edit.delete back.reverse front.reverse c
  | substitute front back c d => simpa using Edit.substitute back.reverse front.reverse c d

theorem Turns.reverse (h : Turns n a b) : Turns n a.reverse b.reverse := by
  induction h with
  | done a => exact .done _
  | edit h _ ih => exact .edit h.reverse ih

/-! ### The steps between two texts -/

/-- The number of edits that are made from the front on: none where the first characters agree, else
one of the three. -/
def steps : List Char → List Char → Nat
  | [], y => y.length
  | x, [] => x.length
  | c :: x, d :: y =>
    if c = d then steps x y else min (steps x y) (min (steps (c :: x) y) (steps x (d :: y))) + 1
termination_by x y => x.length + y.length

theorem steps_nil (x : List Char) : steps x [] = x.length := by
  cases x <;> simp [steps]

theorem steps_cons_ne (h : c ≠ d) :
    steps (c :: x) (d :: y) = min (steps x y) (min (steps (c :: x) y) (steps x (d :: y))) + 1 := by
  rw [steps, if_neg h]

theorem steps_cons_self (c : Char) (x y : List Char) : steps (c :: x) (c :: y) = steps x y := by
  rw [steps, if_pos rfl]

theorem steps_self (x : List Char) : steps x x = 0 := by
  induction x with
  | nil => simp [steps]
  | cons c x ih => rw [steps_cons_self, ih]

theorem steps_comm (x y : List Char) : steps x y = steps y x := by
  fun_induction steps x y with
  | case1 y => rw [steps_nil]
  | case2 x => simp [steps]
  | case3 x d y ih => rw [steps_cons_self, ih]
  | case4 c x d y h ih₁ ih₂ ih₃ =>
    rw [steps_cons_ne (Ne.symm h), ih₁, ih₂, ih₃, Nat.min_comm (steps (d :: y) x)]

/-- As many edits as there are steps are enough. -/
theorem turns_steps (x y : List Char) : Turns (steps x y) x y := by
  fun_induction steps x y with
  | case1 y =>
    induction y with
    | nil => exact .done _
    | cons d y ih => exact .edit (.insert [] [] d) (ih.cons d)
  | case2 x h =>
    clear h
    induction x with
    | nil => exact .done _
    | cons c x ih => exact .edit (.delete [] x c) ih
  | case3 x d y ih => exact ih.cons d
  | case4 c x d y h ih₁ ih₂ ih₃ =>
    rcases Nat.le_total (steps x y) (min (steps (c :: x) y) (steps x (d :: y))) with h | h
    · rw [Nat.min_eq_left h]
      exact .edit (.substitute [] x c d) (ih₁.cons d)
    · rw [Nat.min_eq_right h]
      rcases Nat.le_total (steps (c :: x) y) (steps x (d :: y)) with h | h
      · rw [Nat.min_eq_left h]
        exact .edit (.insert [] (c :: x) d) (ih₂.cons d)
      · rw [Nat.min_eq_right h]
        exact .edit (.delete [] x c) ih₃

/-- A character in front changes the steps by one at most. -/
theorem steps_cons (c : Char) (x y : List Char) :
    steps x y ≤ steps (c :: x) y + 1 ∧ steps (c :: x) y ≤ steps x y + 1 := by
  cases y with
  | nil =>
    rw [steps_nil, steps_nil, length_cons]
    omega
  | cons d y =>
    -- the same for `d` in front of the other text, against `x`
    have hother := steps_cons d y x
    rw [steps_comm y, steps_comm (d :: y)] at hother
    by_cases h : c = d
    · subst h
      rw [steps_cons_self]
      omega
    · have := steps_cons c x y
      rw [steps_cons_ne h]
      omega
termination_by x.length + y.length

theorem steps_substitute (c d : Char) (x y : List Char) :
    steps (c :: x) y ≤ steps (d :: x) y + 1 := by
  induction y with
  | nil => simp [steps_nil]
  | cons e y ih =>
    have hx := steps_cons e y x
    have hd := steps_cons d x y
    rw [steps_comm y, steps_comm (e :: y)] at hx
    by_cases hc : c = e <;> by_cases he : d = e
    · rw [hc, he]; omega
    · rw [hc, steps_cons_self, steps_cons_ne he]; omega
    · rw [he, steps_cons_self, steps_cons_ne hc]; omega
    · rw [steps_cons_ne hc, steps_cons_ne he]; omega

/-- Behind one more character the steps differ by no more than they did. -/
theorem steps_cons_le (h : ∀ y, steps a y ≤ steps b y + 1) (c : Char) (y : List Char) :
    steps (c :: a) y ≤ steps (c :: b) y + 1 := by
  induction y with
  | nil => simpa [steps_nil] using h []
  | cons d y ih =>
    by_cases hd : c = d
    · rw [hd, steps_cons_self, steps_cons_self]
      exact h y
    · have := h y
      have := h (d :: y)
      rw [steps_cons_ne hd, steps_cons_ne hd]
      omega

/-- An edit changes the steps to any text by one at most. -/
theorem Edit.steps_le (h : Edit a b) (y : List Char) : steps a y ≤ steps b y + 1 := by
  have hfront {x x' : List Char} (h : ∀ y, steps x y ≤ steps x' y + 1) (front : List Char) :
      ∀ y, steps (front ++ x) y ≤ steps (front ++ x') y + 1 := by
    induction front with
    | nil => exact h
    | cons c front ih => exact steps_cons_le ih c
  cases h with
  | insert front back c => exact hfront (fun y => (steps_cons c back y).1) front y
  | delete front back c => exact hfront (fun y => (steps_cons c back y).2) front y
  | substitute front back c d => exact hfront (steps_substitute c d back) front y

theorem Turns.steps_le (h : Turns n a b) : steps a b ≤ n := by
  induction h with
  | done a => exact (steps_self a).le
  | edit h _ ih => exact (h.steps_le _).trans (Nat.succ_le_succ ih)

/-! ### The table -/

/-- The entries of a row behind the front part `y` of the other text.  Both texts are given from
their ends. -/
def entries (x y : List Char) : List Char → List Nat
  | [] => []
  | d :: other => steps x (d :: y) :: entries x (d :: y) other

theorem fillRow_eq (c : Char) (x y other : List Char) :
    fillRow c other (steps (c :: x) y) (steps x y)
      (entries x y other) = entries (c :: x) y other := by
  induction other generalizing y with
  | nil => rfl
  | cons d other ih =>
    have hentry :
        (if c = d then steps x y
          else min (steps x y) (min (steps (c :: x) y) (steps x (d :: y))) + 1) =
        steps (c :: x) (d :: y) := by rw [steps]
    rw [entries, fillRow, hentry, ih (d :: y), entries]

theorem firstRow_eq (other : List Char) : firstRow other = steps [] [] :: entries [] [] other := by
  have hlengths (y : List Char) : steps [] y :: entries [] y other =
      List.range' y.length (other.length + 1) := by
    induction other generalizing y with
    | nil => simp [entries, steps]
    | cons d other ih => rw [entries, ih, length_cons, steps, ← range'_succ, length_cons]
  rw [hlengths, firstRow, range_eq_range', length_nil]

theorem lastRow_eq (text other : List Char) :
    lastRow text other = steps text.reverse [] :: entries text.reverse [] other := by
  have hfold (x : List Char) : text.foldl (nextRow other) (steps x [] :: entries x [] other) =
      steps (text.reverse ++ x) [] :: entries (text.reverse ++ x) [] other := by
    induction text generalizing x with
    | nil => rfl
    | cons c text ih =>
      have hnext : nextRow other (steps x [] :: entries x [] other) c =
          steps (c :: x) [] :: entries (c :: x) [] other := by
        rw [nextRow, ← fillRow_eq, steps_nil, steps_nil, length_cons]
      rw [foldl_cons, hnext, ih, reverse_cons, append_assoc, singleton_append]
  rw [lastRow, firstRow_eq, hfold, append_nil]

theorem getLast?_entries (x y other : List Char) :
    (steps x y :: entries x y other).getLast? = some (steps x (other.reverse ++ y)) := by
  induction other generalizing y with
  | nil => rfl
  | cons d other ih =>
    rw [entries, getLast?_cons_cons, ih, reverse_cons, append_assoc, singleton_append]

/-- The table gives the same for equal texts and for an empty one. -/
theorem distance_eq (a b : String) : distance a b = steps a.toList.reverse b.toList.reverse := by
  unfold distance
  split
  · subst b
    rw [steps_self]
  · split
    · rw [String.isEmpty_iff.1 ‹a.isEmpty = true›]
      simp [steps, String.length_toList]
    · split
      · rw [String.isEmpty_iff.1 ‹b.isEmpty = true›]
        simp [steps_nil, String.length_toList]
      · rw [lastRow_eq, getLast?_entries, append_nil, Option.getD_some]

/-- **The distance of two texts** is the least number of edits that turn one into the other. -/
theorem distance_isLeast (a b : String) :
    IsLeast {n | Turns n a.toList b.toList} (distance a b) := by
  rw [distance_eq]
  constructor
  · simpa using (turns_steps a.toList.reverse b.toList.reverse).reverse
  · intro n h
    exact h.reverse.steps_le

example : distance "kitten" "sitting" = 3 := by decide +kernel

end BasicScript.EditDistance
