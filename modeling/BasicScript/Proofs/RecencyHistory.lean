import BasicScript.Proofs.Session
import Mathlib.Data.List.Nodup
import Mathlib.Data.List.Induction

/-!
# Recency as history

What a table of bounded size holds can be told from what was asked of it.  A key is touched where a
value is put in for it, and where it is looked for and found.  The table holds the keys that were
touched last (`recent`), as many as it has room for, each with the value that was put in last
(`latestValue?`).

The history has all keys, but the table only ever looks at those it holds.  This is enough because a
touch moves one key to the front: of the others, the first ones stay the first ones
(`recent_touch`).

* `keys_eq_recent`: after any accesses to a new table its keys are the recent ones, the least recent
  first.  They have their latest values and are found, and no others are.  Every key that was put in
  anew is still there, was dropped by a clearing, or is counted as evicted.
-/

namespace BasicScript

open List

variable {α : Type}

/-! ### Distinct keys -/

section Distinct

variable {keys : List String} {key : String}

theorem eraseDups_filter (p : String → Bool) :
    ∀ keys : List String, (keys.filter p).eraseDups = keys.eraseDups.filter p
  | [] => rfl
  | key :: rest => by
    have ih := eraseDups_filter p (rest.filter (!· == key))
    rw [eraseDups_cons, filter_cons, filter_cons, ← ih]
    cases hp : p key with
    | true =>
      rw [if_pos rfl, if_pos rfl, eraseDups_cons, filter_comm]
    | false =>
      -- what passes is another key anyway
      have hsame : (rest.filter (!· == key)).filter p = rest.filter p := by
        rw [filter_filter]
        refine filter_congr fun other _ => ?_
        by_cases h : other = key
        · rw [h, hp, Bool.false_and]
        · simp [h]
      rw [hsame]
      rfl
termination_by keys => keys.length
decreasing_by exact Nat.lt_succ_of_le (length_filter_le ..)

/-- A key in front of others stands there only. -/
theorem eraseDups_touch (key : String) (keys : List String) :
    (key :: keys).eraseDups = key :: keys.eraseDups.filter (· ≠ key) := by
  rw [eraseDups_cons, eraseDups_filter]
  congr 2
  funext other
  by_cases h : other = key <;> simp [h]

theorem nodup_eraseDups (keys : List String) : keys.eraseDups.Nodup := by
  induction keys with
  | nil => exact .nil
  | cons key rest ih =>
    rw [eraseDups_touch]
    exact nodup_cons.2 ⟨by simp, ih.filter _⟩

/-- Of the first keys one is left out: the others are the first ones of the others. -/
theorem take_filter_ne (h : keys.Nodup) (key : String) (n : Nat) :
    ((keys.take (n + 1)).filter (· ≠ key)).take n = (keys.filter (· ≠ key)).take n := by
  induction keys generalizing n with
  | nil => rfl
  | cons first rest ih =>
    obtain ⟨hfirst, hrest⟩ := nodup_cons.1 h
    by_cases heq : first = key
    · subst heq
      have hkeep (keys : List String) (hsub : keys ⊆ rest) : keys.filter (· ≠ first) = keys := by
        refine filter_eq_self.2 fun other hother => ?_
        simpa using fun heq : other = first => hfirst (heq ▸ hsub hother)
      rw [take_succ_cons, filter_cons_of_neg (by simp), filter_cons_of_neg (by simp),
        hkeep _ (take_subset ..), hkeep _ (Subset.refl _), take_take, Nat.min_self]
    · rw [take_succ_cons, filter_cons_of_pos (by simpa), filter_cons_of_pos (by simpa)]
      cases n with
      | zero => rfl
      | succ n => rw [take_succ_cons, take_succ_cons, ih hrest]

end Distinct

/-! ### Accesses -/

/-- What can be asked of a table of bounded size. -/
inductive Access (α : Type) where
  | get (key : String)
  | set (key : String) (value : α)
  | has (key : String)
  | clear
deriving Repr

/-- The table behind an access. -/
def Access.run (table : Recency α) : Access α → Recency α
  | get key => (table.get? key).2
  | set key value => table.insert key value
  | has _ => table
  | clear => table.clear

/-- The table behind some accesses. -/
def Recency.run (table : Recency α) (history : List (Access α)) : Recency α :=
  history.foldl Access.run table

theorem Access.capacity_run (table : Recency α) (access : Access α) :
    (access.run table).capacity = table.capacity := by
  cases access with
  | get key =>
    rw [Access.run, Recency.get?]
    split <;> rfl
  | set | has | clear => rfl

theorem Recency.capacity_run (table : Recency α) (history : List (Access α)) :
    (table.run history).capacity = table.capacity := by
  induction history generalizing table with
  | nil => rfl
  | cons access rest ih => exact (ih _).trans (access.capacity_run table)

/-! ### The history of a table

In what follows the accesses of the past stand with the latest one first. -/

/-- The keys that were touched since the last clearing, the latest first.  A table that has room for
some keys finds those that were touched last. -/
def touched (capacity : Nat) : List (Access α) → List String
  | [] | .clear :: _ => []
  | .set key _ :: past => key :: touched capacity past
  | .get key :: past =>
    if key ∈ (touched capacity past).eraseDups.take capacity then key :: touched capacity past
    else touched capacity past
  | .has _ :: past => touched capacity past

/-- The keys that were touched last, each once, the latest first. -/
def recent (capacity : Nat) (past : List (Access α)) : List String :=
  (touched capacity past).eraseDups.take capacity

/-- The value that was put in last for a key. -/
def latestValue? (key : String) : List (Access α) → Option α
  | [] => none
  | .set other value :: past => if other = key then some value else latestValue? key past
  | .get _ :: past | .has _ :: past | .clear :: past => latestValue? key past

/-- How often a value was put in for a key that was not there. -/
def additions (capacity : Nat) : List (Access α) → Nat
  | [] => 0
  | .set key _ :: past => additions capacity past + if key ∈ recent capacity past then 0 else 1
  | .get _ :: past | .has _ :: past | .clear :: past => additions capacity past

/-- How many keys the clearings dropped. -/
def clearances (capacity : Nat) : List (Access α) → Nat
  | [] => 0
  | .clear :: past => clearances capacity past + (recent capacity past).length
  | .set .. :: past | .get _ :: past | .has _ :: past => clearances capacity past

section Recent

variable {capacity : Nat} {past : List (Access α)} {key : String} {value : α}

theorem recent_get_of_mem (h : key ∈ recent capacity past) :
    recent capacity (.get key :: past) = recent capacity (.set key value :: past) := by
  rw [recent] at h
  rw [recent, touched, if_pos h, recent, touched]

theorem recent_get_of_not_mem (h : key ∉ recent capacity past) :
    recent capacity (.get key :: past) = recent capacity past := by
  rw [recent] at h
  rw [recent, touched, if_neg h, recent]

theorem nodup_recent : (recent capacity past).Nodup := (nodup_eraseDups _).take

theorem length_recent_le : (recent capacity past).length ≤ capacity := length_take_le ..

/-- **A touch** moves a key to the front, and pushes out the last one if there is no room. -/
theorem recent_touch (h : 1 ≤ capacity) (key : String) (value : α) :
    recent capacity (.set key value :: past) =
      (key :: (recent capacity past).filter (· ≠ key)).take capacity := by
  obtain ⟨n, rfl⟩ := Nat.exists_eq_add_of_le' h
  rw [recent, touched, eraseDups_touch, take_succ_cons, take_succ_cons, recent,
    take_filter_ne (nodup_eraseDups _)]

end Recent

/-! ### The table and its history -/

section Table

variable {table : Recency α} {key : String} {value : α}

/-- Every entry has the value that is given for its key. -/
def Recency.Shows (values : String → Option α) (table : Recency α) : Prop :=
  ∀ entry ∈ table.entries, values entry.1 = some entry.2

/-- A value that is put in replaces that of its key only. -/
theorem Recency.Shows.insert {values values' : String → Option α} (h : table.Shows values)
    (hkey : values' key = some value)
    (hother : ∀ other, other ≠ key → values' other = values other) :
    (table.insert key value).Shows values' := by
  intro entry hentry
  rcases mem_append.1 (mem_of_mem_drop hentry) with hentry | hentry
  · obtain ⟨hmem, hne⟩ := mem_filter.1 hentry
    rw [hother entry.1 (by simpa using hne)]
    exact h entry hmem
  · rw [mem_singleton.1 hentry]
    exact hkey

theorem Table.keys_erase (entries : Table α) (key : String) :
    (entries.erase key).keys = entries.keys.filter (· ≠ key) := by
  rw [Table.keys, Table.erase, Table.keys, filter_map]
  rfl

theorem Table.isSome_get?_iff {entries : Table α} :
    (entries.get? key).isSome = true ↔ key ∈ entries.keys := by
  simp [Table.get?, Table.keys]

/-- The table behind a value that is put in has its key last, and has dropped the first ones if
there is no room. -/
theorem Recency.keys_insert (table : Recency α) (key : String) (value : α) :
    (table.insert key value).keys =
      ((key :: table.keys.reverse.filter (· ≠ key)).take table.capacity).reverse := by
  have hkeys : (table.entries.erase key ++ [(key, value)]).map Prod.fst =
      (key :: table.keys.reverse.filter (· ≠ key)).reverse := by
    rw [map_append, reverse_cons, filter_reverse, reverse_reverse]
    exact congrArg (· ++ [key]) (Table.keys_erase ..)
  have hlength := congrArg List.length hkeys
  rw [length_map, length_reverse] at hlength
  rw [Recency.keys, Recency.insert, Table.keys]
  dsimp only
  rw [map_drop, hkeys, hlength, drop_reverse]
  congr 1
  exact take_eq_take_iff.2 (by omega)

theorem Table.length_erase {entries : Table α} (h : entries.keys.Nodup) (key : String) :
    (entries.erase key).length + (if key ∈ entries.keys then 1 else 0) = entries.length := by
  have hlength := congrArg List.length (Table.keys_erase entries key)
  have hkeys : entries.keys.filter (· ≠ key) = entries.keys.erase key := by
    rw [h.erase_eq_filter]
    refine filter_congr fun other _ => ?_
    by_cases heq : other = key <;> simp [heq]
  have hsize (entries : Table α) : entries.keys.length = entries.length := length_map _
  rw [hkeys, List.length_erase, hsize, hsize] at hlength
  by_cases hmem : key ∈ entries.keys
  · have hpos : 0 < entries.length := hsize entries ▸ length_pos_of_mem hmem
    rw [if_pos hmem] at hlength ⊢
    omega
  · rw [if_neg hmem] at hlength ⊢
    exact hlength

/-- What is put in anew is there or counted as evicted. -/
theorem Recency.balance_insert (h : table.keys.Nodup) (key : String) (value : α) :
    (table.insert key value).evictions + (table.insert key value).size =
      table.evictions + table.size + if key ∈ table.keys then 0 else 1 := by
  have hlength := Table.length_erase h key
  rw [← Recency.keys] at hlength
  simp only [Recency.insert, Recency.size, length_drop, length_append, length_singleton]
  split at hlength
  · rw [if_pos ‹_›]
    omega
  · rw [if_neg ‹_›]
    omega

/-- To find a key is to put in its value again. -/
theorem Recency.get?_snd_eq_insert (h : table.keys.Nodup) (hroom : table.size ≤ table.capacity)
    (hfound : table.entries.get? key = some value) :
    (table.get? key).2 = table.insert key value := by
  have hmem : key ∈ table.entries.keys := Table.isSome_get?_iff.1 (by rw [hfound]; rfl)
  have hlength := Table.length_erase h key
  rw [if_pos hmem] at hlength
  have hexcess : (table.entries.erase key ++ [(key, value)]).length - table.capacity = 0 := by
    rw [Recency.size] at hroom
    rw [length_append, length_singleton]
    omega
  simp only [Recency.get?, hfound, Recency.insert, hexcess, drop_zero, Nat.add_zero]

end Table

/-- What a table holds is told by the accesses of the past. -/
structure Recency.Follows (past : List (Access α)) (table : Recency α) : Prop where
  room : 1 ≤ table.capacity
  keys : table.keys = (recent table.capacity past).reverse
  values : table.Shows (latestValue? · past)
  balance : table.evictions + table.size + clearances table.capacity past =
    additions table.capacity past

namespace Recency.Follows

variable {table : Recency α} {past : List (Access α)} {key : String} {value : α} {access : Access α}

theorem start {capacity : Nat} (h : 1 ≤ capacity) : ({ capacity } : Recency α).Follows [] :=
  ⟨h, congrArg List.reverse take_nil.symm, (fun _ hentry => nomatch hentry), rfl⟩

variable (h : table.Follows past)

include h

theorem mem_keys_iff : key ∈ table.keys ↔ key ∈ recent table.capacity past := by
  rw [h.keys, mem_reverse]

theorem nodup : table.keys.Nodup := by
  rw [h.keys]
  exact nodup_reverse.2 nodup_recent

theorem size_eq : table.size = (recent table.capacity past).length := by
  rw [← length_reverse, ← h.keys, Recency.keys, Table.keys, length_map, Recency.size]

theorem size_le : table.size ≤ table.capacity := by
  rw [h.size_eq]
  exact length_recent_le

/-- An access that moves a key to the front and gives it a value. -/
theorem touch
    (hrecent : recent table.capacity (access :: past) =
      recent table.capacity (.set key value :: past))
    (hvalue : ∀ other, latestValue? other (access :: past) =
      latestValue? other (.set key value :: past))
    (hadditions : additions table.capacity (access :: past) =
      additions table.capacity (.set key value :: past))
    (hclearances : clearances table.capacity (access :: past) = clearances table.capacity past) :
    (table.insert key value).Follows (access :: past) where
  room := h.room
  keys := by
    rw [keys_insert, h.keys, reverse_reverse, show (table.insert key value).capacity =
      table.capacity from rfl, hrecent, recent_touch h.room]
  values := by
    refine h.values.insert ?_ fun other hother => ?_
    · rw [hvalue, latestValue?, if_pos rfl]
    · rw [hvalue, latestValue?, if_neg hother.symm]
  balance := by
    have hbalance := h.balance
    have hinsert := balance_insert h.nodup key value
    simp only [h.mem_keys_iff] at hinsert
    rw [show (table.insert key value).capacity = table.capacity from rfl, hclearances,
      hadditions, additions, hinsert]
    omega

/-- **Every access** keeps the table with its history. -/
theorem step (access : Access α) : (access.run table).Follows (access :: past) := by
  cases access with
  | set key value => exact h.touch rfl (fun _ => rfl) rfl rfl
  | get key =>
    rw [Access.run]
    cases hfound : table.entries.get? key with
    | none =>
      have hmiss : key ∉ recent table.capacity past := by
        rw [← h.mem_keys_iff, Recency.keys, ← Table.isSome_get?_iff, hfound]
        exact Bool.false_ne_true
      rw [Recency.get?, hfound]
      exact ⟨h.room, by rw [recent_get_of_not_mem hmiss]; exact h.keys, h.values, h.balance⟩
    | some value =>
      have hhit : key ∈ recent table.capacity past := by
        rw [← h.mem_keys_iff, Recency.keys, ← Table.isSome_get?_iff, hfound]
        rfl
      have hvalue : latestValue? key past = some value := h.values _ (Table.mem_of_get? hfound)
      rw [Recency.get?_snd_eq_insert h.nodup h.size_le hfound]
      refine h.touch (recent_get_of_mem hhit) (fun other => ?_) ?_ rfl
      · by_cases hother : key = other
        · rw [latestValue?, latestValue?, if_pos hother, ← hother, hvalue]
        · rw [latestValue?, latestValue?, if_neg hother]
      · rw [additions, additions, if_pos hhit, Nat.add_zero]
  | has key => exact ⟨h.room, h.keys, h.values, h.balance⟩
  | clear =>
    have hnone : recent table.capacity (.clear :: past) = [] := take_nil
    have hbalance := h.balance
    rw [h.size_eq] at hbalance
    refine ⟨h.room, congrArg List.reverse hnone.symm, forall_mem_nil _, ?_⟩
    simp only [Access.run, Recency.clear, Recency.size, clearances, additions, length_nil]
    omega

/-- **All accesses** do. -/
theorem run (history : List (Access α)) :
    (table.run history).Follows (history.reverse ++ past) := by
  induction history generalizing table past with
  | nil => exact h
  | cons access rest ih =>
    rw [reverse_cons, append_assoc]
    exact ih (h.step access)

/-- A key is found exactly if it is recent, and then with its latest value. -/
theorem get?_eq (key : String) :
    (table.get? key).1 =
      if key ∈ recent table.capacity past then latestValue? key past else none := by
  have hmem : (table.entries.get? key).isSome = true ↔ key ∈ recent table.capacity past :=
    Table.isSome_get?_iff.trans h.mem_keys_iff
  rw [Recency.get?_fst]
  cases hfound : table.entries.get? key with
  | none => rw [if_neg (by rw [← hmem, hfound]; exact Bool.false_ne_true)]
  | some value =>
    rw [if_pos (by rw [← hmem, hfound]; rfl)]
    exact (h.values _ (Table.mem_of_get? hfound)).symm

end Recency.Follows

/-- **Recency is history.**  After any accesses to a new table with some room, its keys are those
that were touched last since it was cleared, the least recent first.  Each has the value that was
put in last; a key is found, and told to be there, exactly if it is one of them.  A key that was put
in anew is still there, or was dropped by a clearing, or was evicted. -/
theorem keys_eq_recent (capacity : Int) (hcapacity : 1 ≤ capacity) (history : List (Access α)) :
    ∃ table : Recency α, Recency.create capacity = .ok table ∧
      (table.run history).keys = (recent capacity.toNat history.reverse).reverse ∧
      (∀ entry ∈ (table.run history).entries, latestValue? entry.1 history.reverse = some entry.2) ∧
      (∀ key, ((table.run history).get? key).1 =
        if key ∈ recent capacity.toNat history.reverse then latestValue? key history.reverse
        else none) ∧
      (∀ key, ((table.run history).get? key).1.isSome = (table.run history).has key ∧
        ((table.run history).has key = true ↔ key ∈ recent capacity.toNat history.reverse)) ∧
      (table.run history).evictions + (table.run history).size +
        clearances capacity.toNat history.reverse = additions capacity.toNat history.reverse := by
  refine ⟨{ capacity := capacity.toNat }, by rw [Recency.create, if_neg (by omega)], ?_⟩
  have hsame : (({ capacity := capacity.toNat } : Recency α).run history).capacity =
      capacity.toNat :=
    Recency.capacity_run ..
  have h := (Recency.Follows.start (α := α) (by omega : 1 ≤ capacity.toNat)).run history
  rw [append_nil] at h
  have hkeys := h.keys
  have hfound (key : String) := h.get?_eq key
  have hmem (key : String) : key ∈ (Recency.run _ history).keys ↔ _ := h.mem_keys_iff
  have hbalance := h.balance
  simp only [hsame] at hkeys hfound hmem hbalance
  refine ⟨hkeys, h.values, hfound, fun key => ⟨?_, ?_⟩, hbalance⟩
  · rw [Recency.get?_fst, Recency.has, Table.holds]
  · rw [Recency.has, Table.holds, Table.isSome_get?_iff]
    exact hmem key

/-- Four keys for two places.  The second one is pushed out, as the first one was found in
between. -/
theorem two_places_recent : ∃ table : Recency Nat, Recency.create 2 = .ok table ∧
    (table.run [.set "z" 0, .clear, .set "a" 1, .set "b" 2, .get "a", .set "c" 3,
      .get "b", .set "a" 4]).keys =
      ["c", "a"] ∧
    ((table.run [.set "z" 0, .clear, .set "a" 1, .set "b" 2, .get "a", .set "c" 3,
      .get "b", .set "a" 4]).get?
      "a").1 = some 4 := by
  obtain ⟨table, hcreate, hkeys, -, hfound, -⟩ := keys_eq_recent 2 (by decide)
    [.set "z" 0, .clear, .set "a" 1, .set "b" 2, .get "a", .set "c" 3, .get "b", .set "a" 4]
  exact ⟨table, hcreate, hkeys.trans (by decide +kernel), (hfound "a").trans (by decide +kernel)⟩

end BasicScript
