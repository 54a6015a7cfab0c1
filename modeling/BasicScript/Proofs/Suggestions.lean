import BasicScript.Diagnostic.Suggestion
import Mathlib.Data.List.FinRange

/-!
# The choice of suggestions

Words are sorted by their distance alone.  That words at the same distance stay in the order of the
vocabulary, also where a word stands in it more than once, is the stability of the sort
(`pairwise_mergeSort_places`).  So the sort is taken back to the places of the vocabulary, which are
all different (`nearestWords_eq`).

* `nearestWords_first`: the suggestions are the words at the first places within reach, in the order
  of `Precedes`, and no place is left out while there is room.
-/

namespace BasicScript.Suggestion

open List

variable (word : String) (vocabulary : List String) (reach : Int)

/-- The place of a nearer word comes first, and of words at the same distance the one further up. -/
def Precedes (i j : Fin vocabulary.length) : Prop :=
  distance word vocabulary[i] < distance word vocabulary[j] ∨
    distance word vocabulary[i] = distance word vocabulary[j] ∧ i < j

/-- The places of the words within reach. -/
def within : List (Fin vocabulary.length) :=
  (List.finRange vocabulary.length).filter fun i => (distance word vocabulary[i] : Int) ≤ reach

/-- The places within reach, the nearest word first. -/
def ranking : List (Fin vocabulary.length) :=
  (within word vocabulary reach).mergeSort fun i j => distance word vocabulary[i] ≤
    distance word vocabulary[j]

theorem mem_ranking {i : Fin vocabulary.length} :
    i ∈ ranking word vocabulary reach ↔ (distance word vocabulary[i] : Int) ≤ reach := by
  simp [ranking, within]

/-- Where places in order are sorted by a number, those with the same number stay in order. -/
theorem pairwise_mergeSort_places {n : Nat} {places : List (Fin n)} (h : places.Pairwise (· < ·))
    (f : Fin n → Nat) :
    (places.mergeSort fun i j => f i ≤ f j).Pairwise fun i j => f i < f j ∨ f i = f j ∧ i < j := by
  have hsorted : (places.zipIdx.mergeSort (List.zipIdxLE fun i j => f i ≤ f j)).Pairwise
      fun a b => List.zipIdxLE (fun i j => f i ≤ f j) a b := by
    apply pairwise_mergeSort
    · exact zipIdxLE_trans fun i j k => by simpa using Nat.le_trans
    · exact zipIdxLE_total fun i j => by simpa using Nat.le_total (f i) (f j)
  have hdistinct : (places.mergeSort fun i j => f i ≤ f j).Nodup :=
    (mergeSort_perm ..).nodup_iff.2 (h.imp fun hlt => hlt.ne)
  rw [← mergeSort_zipIdx, Nodup, pairwise_map] at hdistinct
  rw [← mergeSort_zipIdx, pairwise_map]
  refine (hsorted.and hdistinct).imp_of_mem fun {a b} ha hb ⟨hle, hne⟩ => ?_
  rw [mem_mergeSort, mem_zipIdx_iff_getElem?, List.getElem?_eq_some_iff] at ha hb
  obtain ⟨hi, ha⟩ := ha
  obtain ⟨hj, hb⟩ := hb
  rcases Nat.lt_or_ge (f a.1) (f b.1) with hlt | hge
  · exact .inl hlt
  · simp only [List.zipIdxLE, decide_eq_true_eq, hge, if_true, ite_eq_iff, Bool.false_eq_true,
      and_false, or_false] at hle
    have hplaces : a.2 < b.2 := by
      refine lt_of_le_of_ne hle.2 fun heq => hne ?_
      simp [← ha, ← hb, heq]
    refine .inr ⟨le_antisymm hle.1 hge, ?_⟩
    rw [← ha, ← hb]
    exact pairwise_iff_getElem.1 h _ _ hi hj hplaces

/-- The suggestions are the words at the first places. -/
theorem nearestWords_eq (limit : Nat) : nearestWords word vocabulary reach limit =
    ((ranking word vocabulary reach).take limit).map (vocabulary[·]) := by
  have hscored : scored word vocabulary reach =
      (within word vocabulary reach).map fun i => (distance word vocabulary[i], vocabulary[i]) := by
    have hwords : vocabulary = (List.finRange vocabulary.length).map (vocabulary[·]) :=
      (map_get_finRange _).symm
    rw [scored, within]
    conv_lhs => rw [hwords]
    rw [map_map, filter_map]
    rfl
  have hsort : (scored word vocabulary reach).mergeSort (fun a b => a.1 ≤ b.1) =
      (ranking word vocabulary reach).map fun i =>
        (distance word vocabulary[i], vocabulary[i]) := by
    rw [hscored, ranking, map_mergeSort]
    simp
  simp only [nearestWords, hsort, Sequence.slice_none_some _ (Int.natCast_nonneg limit),
    Int.toNat_natCast, ← map_take, map_map]
  rfl

/-- **The suggestions for a word.** -/
theorem nearestWords_first (limit : Nat) : ∃ places : List (Fin vocabulary.length),
    nearestWords word vocabulary reach limit = places.map (vocabulary[·]) ∧
    places.length ≤ limit ∧ places.Nodup ∧ places.Pairwise (Precedes word vocabulary) ∧
    (∀ i ∈ places, (distance word vocabulary[i] : Int) ≤ reach) ∧
    (∀ j ∉ places, (distance word vocabulary[j] : Int) ≤ reach → ∀ i ∈ places,
      Precedes word vocabulary i j) ∧
    (places.length < limit → ∀ j, (distance word vocabulary[j] : Int) ≤ reach → j ∈ places) := by
  have hsorted : (ranking word vocabulary reach).Pairwise (Precedes word vocabulary) :=
    pairwise_mergeSort_places ((pairwise_lt_finRange _).filter _) _
  have hcut := hsorted
  rw [← take_append_drop limit (ranking ..), pairwise_append] at hcut
  obtain ⟨htaken, -, hleft⟩ := hcut
  refine ⟨(ranking word vocabulary reach).take limit, nearestWords_eq .., length_take_le .., ?_,
    htaken, ?_, ?_, ?_⟩
  · refine htaken.imp fun {i j} h heq => ?_
    subst heq
    rcases h with h | ⟨-, h⟩ <;> exact lt_irrefl _ h
  · exact fun i hi => (mem_ranking ..).1 (mem_of_mem_take hi)
  · intro j hj hreach i hi
    have hmem := (mem_ranking word vocabulary reach).2 hreach
    rw [← take_append_drop limit (ranking ..), mem_append] at hmem
    exact hleft i hi j (hmem.resolve_left hj)
  · intro hroom j hreach
    rw [take_of_length_le]
    · exact (mem_ranking word vocabulary reach).2 hreach
    · rw [length_take] at hroom
      omega

end BasicScript.Suggestion
