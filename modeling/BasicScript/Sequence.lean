/-!
# Signed positions

A signed position names an item of a sequence: `0` is the first item, `-1` the last.  A bound of a
cut is signed too, and one that lies outside the sequence is moved to its nearer end.
-/

namespace BasicScript.Sequence

/-- The place that a signed position names in a sequence of `size` items, if it names one. -/
def resolve (size : Nat) (position : Int) : Option Nat :=
  let place := if position < 0 then position + size else position
  if 0 ≤ place ∧ place < size then some place.toNat else none

/-- The place at which a signed bound cuts a sequence of `size` items. -/
def bound (size : Nat) (position : Int) : Nat :=
  let place := if position < 0 then position + size else position
  min place.toNat size

/-- The item at a signed position. -/
def at? {α : Type} (items : Array α) (position : Int) : Option α :=
  (resolve items.size position).bind (items[·]?)

/-- The items from `start` up to and without `stop`; a missing bound is the end of that side. -/
def slice {α : Type} (items : List α) (start stop : Option Int) : List α :=
  let first := (start.map (bound items.length)).getD 0
  let last := (stop.map (bound items.length)).getD items.length
  (items.drop first).take (last - first)

/-- The sequence with `added` put in front of the item at a signed bound. -/
def insertAt {α : Type} (items : List α) (position : Int) (added : List α) : List α :=
  let place := bound items.length position
  items.take place ++ added ++ items.drop place

/-- The two positions that name a place. -/
theorem resolve_eq_some_iff {size place : Nat} {position : Int} :
    resolve size position = some place ↔ place < size ∧
      (position = place ∨ position = place - size) := by
  simp only [resolve, Option.ite_none_right_eq_some, Option.some.injEq]
  constructor
  · rintro ⟨hbounds, rfl⟩
    omega
  · rintro ⟨hlt, rfl | rfl⟩ <;> omega

theorem resolve_lt {size : Nat} {position : Int} {place : Nat}
    (h : resolve size position = some place) : place < size :=
  (resolve_eq_some_iff.1 h).1

theorem resolve_natCast (size place : Nat) :
    resolve size place = if place < size then some place else none := by
  have h : ¬ (place : Int) < 0 := by omega
  simp [resolve, h]

/-- A cut at a bound that is not negative keeps the first items. -/
theorem slice_none_some {α : Type} (items : List α) {stop : Int} (h : 0 ≤ stop) :
    slice items none (some stop) = items.take stop.toNat := by
  have hneg : ¬ stop < 0 := by omega
  simp [slice, bound, hneg, List.take_eq_take_iff]

end BasicScript.Sequence
