import BasicScript.Proofs.RecencyHistory

/-!
# What a cache finds

The cache keeps a program under a key that is made from one text, the source with the target behind
it.  So all it can tell of a source and a target is that text (`Subject.text`).  What it finds for a
subject is the program that was kept last for some subject with the same text
(`Cache.Recalls.found`).

* `found_iff_texts_apart`: what is found is always the program that was kept last for the same
  source and the same target, if and only if no two subjects that are asked for have the same text.
* `found_for_another`: the text does not tell where the source ends, so a program is found for
  another subject.
-/

namespace BasicScript

open List

/-! ### Subjects -/

/-- A source and a target, any two texts. -/
structure Subject where
  source : String
  target : String
deriving Repr, DecidableEq

namespace Subject

/-- The text that the key is made from. -/
def text (subject : Subject) : String := subject.source ++ subject.target

/-- The key under which the cache keeps a program. -/
def key (subject : Subject) : String := Cache.key subject.source subject.target

theorem key_eq_of_text_eq {subject other : Subject} (h : subject.text = other.text) :
    subject.key = other.key := by
  rw [text, text] at h
  rw [key, key, Cache.key, Cache.key, h]

end Subject

/-- What can be asked of a cache. -/
inductive Errand where
  | keep (subject : Subject) (cached : Cached)
  | find (subject : Subject)
  | clear
  | setEnabled (flag : Bool)
deriving Repr

namespace Errand

/-- The cache behind an errand. -/
def run (cache : Cache) : Errand → Cache
  | keep subject cached => cache.store subject.source subject.target cached
  | find subject => (cache.lookup subject.source subject.target).2
  | clear => cache.clear
  | setEnabled flag => cache.setEnabled flag

/-- The subject of an errand. -/
def subject? : Errand → Option Subject
  | keep subject _ | find subject => some subject
  | clear | setEnabled _ => none

end Errand

/-- The cache behind some errands. -/
def Cache.run (cache : Cache) (history : List Errand) : Cache := history.foldl Errand.run cache

/-- The program that was kept last for a subject of some sort.  The latest errand stands first. -/
def latestKept? (sort : Subject → Bool) : List Errand → Option Cached
  | [] => none
  | .keep subject cached :: past => if sort subject then some cached else latestKept? sort past
  | .find _ :: past | .clear :: past | .setEnabled _ :: past => latestKept? sort past

theorem latestKept?_congr {sort sort' : Subject → Bool} {past : List Errand}
    (h : ∀ errand ∈ past, ∀ subject, errand.subject? = some subject →
      sort subject = sort' subject) :
    latestKept? sort past = latestKept? sort' past := by
  induction past with
  | nil => rfl
  | cons errand past ih =>
    obtain ⟨hfirst, hrest⟩ := forall_mem_cons.1 h
    cases errand with
    | keep subject cached => rw [latestKept?, latestKept?, hfirst subject rfl, ih hrest]
    | find | clear | setEnabled => exact ih hrest

/-! ### The cache and its history -/

/-- Every program in the cache is the one that was kept last under its key.  A cache that is
switched off has none. -/
structure Cache.Recalls (past : List Errand) (cache : Cache) : Prop where
  latest : cache.table.Shows fun key => latestKept? (·.key = key) past
  off : cache.enabled = false → cache.table.entries = []

namespace Cache.Recalls

variable {cache : Cache} {past : List Errand} {subject : Subject} {cached : Cached}

theorem of_empty (h : cache.table.entries = []) : cache.Recalls past := by
  refine ⟨fun entry hentry => ?_, fun _ => h⟩
  rw [h] at hentry
  cases hentry

/-- **Every errand** keeps the cache with its history. -/
theorem step (h : cache.Recalls past) (errand : Errand) :
    (errand.run cache).Recalls (errand :: past) := by
  cases errand with
  | keep subject cached =>
    rw [Errand.run, Cache.store]
    cases henabled : cache.enabled with
    | false =>
      rw [if_neg Bool.false_ne_true]
      exact of_empty (h.off henabled)
    | true =>
      rw [if_pos rfl]
      refine ⟨h.latest.insert ?_ fun other hother => ?_, Bool.noConfusion⟩
      · simp [latestKept?, Subject.key]
      · have hne : ¬ subject.key = other := fun heq => hother heq.symm
        simp [latestKept?, hne]
  | find subject =>
    rw [Errand.run, Cache.lookup]
    split
    · rename_i henabled
      have hkept : (cache.table.get? (Cache.key subject.source subject.target)).2.Shows fun key =>
          latestKept? (·.key = key) past :=
            fun entry hentry => h.latest entry (Recency.mem_of_mem_get? hentry)
      split <;> rename_i hget <;> rw [hget] at hkept <;>
        exact ⟨hkept, fun hoff => Bool.noConfusion (henabled.symm.trans hoff)⟩
    · exact ⟨h.latest, h.off⟩
  | clear => exact of_empty rfl
  | setEnabled flag =>
    cases flag with
    | false => exact of_empty rfl
    | true => exact ⟨h.latest, Bool.noConfusion⟩

/-- **All errands** do. -/
theorem run (h : cache.Recalls past) (history : List Errand) :
    (cache.run history).Recalls (history.reverse ++ past) := by
  induction history generalizing cache past with
  | nil => exact h
  | cons errand rest ih =>
    rw [reverse_cons, append_assoc]
    exact ih (h.step errand)

/-- What is found was kept last under its key. -/
theorem found (h : cache.Recalls past)
    (hfound : (cache.lookup subject.source subject.target).1 = some cached) :
    latestKept? (·.key = subject.key) past = some cached :=
  Cache.Keeps.found (P := fun key cached => latestKept? (·.key = key) past =
    some cached) h.latest hfound

end Cache.Recalls

/-! ### Texts that are told apart -/

/-- The subjects of errands are among those that are asked for. -/
def Errands.Within (asked : List Subject) (history : List Errand) : Prop :=
  ∀ errand ∈ history, ∀ subject, errand.subject? = some subject → subject ∈ asked

/-- What is found for a subject is the program that was kept last for just this subject. -/
def Cache.Exact (asked : List Subject) (cache : Cache) : Prop :=
  ∀ history, Errands.Within asked history → ∀ subject ∈ asked, ∀ cached,
    ((cache.run history).lookup subject.source subject.target).1 = some cached →
      latestKept? (· = subject) history.reverse = some cached

section Apart

variable {asked : List Subject} {cache : Cache} {capacity : Int} {enabled : Bool}

/-- What is found was kept last for the same text. -/
theorem Cache.found_text
    (hapart : ∀ subject ∈ asked, ∀ other ∈ asked, subject.key = other.key →
      subject.text = other.text) (hempty :
      cache.table.entries = []) {history : List Errand} (hwithin : Errands.Within asked history)
    {subject : Subject} (hsubject : subject ∈ asked) {cached : Cached}
    (hfound : ((cache.run history).lookup subject.source subject.target).1 = some cached) :
    latestKept? (·.text = subject.text) history.reverse = some cached := by
  have hstart : cache.Recalls [] := .of_empty hempty
  have hkept := (hstart.run history).found hfound
  rw [append_nil] at hkept
  rw [← hkept]
  refine latestKept?_congr fun errand herrand other hother =>
    decide_eq_decide.2 ⟨Subject.key_eq_of_text_eq, ?_⟩
  exact hapart other (hwithin errand (mem_reverse.1 herrand) other hother) subject hsubject

/-- A cache that is switched on finds under one text what was kept under it. -/
theorem Cache.found_of_text_eq (hroom : 1 ≤ cache.table.capacity) {subject other : Subject}
    (h : subject.text = other.text) (cached : Cached) :
    ((cache.run [.setEnabled true, .keep subject cached]).lookup other.source other.target).1 =
      some cached := by
  have hsame : Cache.key other.source other.target = Cache.key subject.source subject.target :=
    Subject.key_eq_of_text_eq h.symm
  have henabled : (cache.setEnabled true).enabled = true := rfl
  have hfound := Cache.lookup_store henabled hroom subject.source subject.target cached
  rw [Cache.lookup] at hfound
  rw [Cache.lookup, hsame]
  exact hfound

end Apart

/-- **Texts that are told apart.**  What a cache finds for a subject was kept last for a subject
with the same text; and it was always kept last for just this subject, if and only if no two
subjects that are asked for have one text.  This holds as long as no two of the texts have one
key. -/
theorem found_iff_texts_apart (capacity : Int) (enabled : Bool) (cache : Cache)
    (hcreate : Cache.create capacity enabled = .ok cache) (asked : List Subject)
    (hapart : ∀ subject ∈ asked, ∀ other ∈ asked, subject.key = other.key →
      subject.text = other.text) :
    (∀ history, Errands.Within asked history → ∀ subject ∈ asked, ∀ cached,
        ((cache.run history).lookup subject.source subject.target).1 = some cached →
          latestKept? (·.text = subject.text) history.reverse = some cached) ∧
      (cache.Exact asked ↔ ∀ subject ∈ asked, ∀ other ∈ asked, subject.text = other.text →
        subject = other) := by
  obtain ⟨hempty, -, hroom⟩ := Cache.create_eq hcreate
  refine ⟨fun history hwithin subject hsubject cached =>
    Cache.found_text hapart hempty hwithin hsubject, ?_, ?_⟩
  · intro hexact subject hsubject other hother htext
    have hwithin : Errands.Within asked [.setEnabled true, .keep subject ⟨"", []⟩] := by
      intro errand herrand found hfound
      simp only [mem_cons, not_mem_nil, or_false] at herrand
      rcases herrand with rfl | rfl
      · cases hfound
      · exact Option.some.inj hfound ▸ hsubject
    have hkept := hexact _ hwithin other hother ⟨"", []⟩ (Cache.found_of_text_eq hroom htext _)
    by_contra hne
    simp [latestKept?, hne] at hkept
  · intro htexts history hwithin subject hsubject cached hfound
    rw [← Cache.found_text hapart hempty hwithin hsubject hfound]
    refine latestKept?_congr fun errand herrand other hother =>
      decide_eq_decide.2 ⟨fun heq => heq ▸ rfl, ?_⟩
    exact htexts other (hwithin errand (mem_reverse.1 herrand) other hother) subject hsubject

/-- A line for a target, and a longer line for the rest of its name. -/
def sharedText : List Subject := [⟨"PRINT 1", "node"⟩, ⟨"PRINT 1n", "ode"⟩]

/-- The two have one text, so the cache does not always find what was kept for just one of them. -/
theorem sharedText_inexact :
    (∀ subject ∈ sharedText, ∀ other ∈ sharedText, subject.key = other.key →
      subject.text = other.text) ∧
      Cache.create 1 true = .ok .single ∧ ¬ Cache.single.Exact sharedText := by
  have htexts : ∀ subject ∈ sharedText, ∀ other ∈ sharedText, subject.text = other.text := by decide
  refine ⟨fun subject hsubject other hother _ => htexts subject hsubject other hother, rfl,
    fun hexact => ?_⟩
  have hsame := (found_iff_texts_apart 1 true .single rfl sharedText
    fun subject hsubject other hother _ => htexts subject hsubject other hother).2.1 hexact
  exact absurd (hsame ⟨"PRINT 1", "node"⟩ (by decide) ⟨"PRINT 1n", "ode"⟩ (by decide) rfl)
    (by decide)

/-- **A program is found for another subject.**  It was kept for the line and its target; it is
found for the longer line, for which nothing was kept. -/
theorem found_for_another :
    ((Cache.single.run [.keep ⟨"PRINT 1", "node"⟩ ⟨"x", []⟩]).lookup "PRINT 1n" "ode").1 =
      some ⟨"x", []⟩ ∧
      latestKept? (· = ⟨"PRINT 1n", "ode"⟩) [.keep ⟨"PRINT 1", "node"⟩ ⟨"x", []⟩] = none := by
  have htext : Subject.text ⟨"PRINT 1", "node"⟩ = Subject.text ⟨"PRINT 1n", "ode"⟩ := rfl
  have hroom : 1 ≤ Cache.single.table.capacity := Nat.le_refl 1
  exact ⟨Cache.found_of_text_eq hroom htext _, by decide⟩

end BasicScript
