import BasicScript.Proofs.DataItems
import BasicScript.Proofs.Layout
import BasicScript.Proofs.Target
import Mathlib.Data.List.Pairwise
import Mathlib.Data.List.Sort

/-!
# The table of data

Two readers decide what the data of a program is.  Before the pass, every `DATA` keyword outside
other data announces a span that ends with its line or at a colon (`announcedSpans`); the table in
front of the program has the values of these spans (`announce_tableOf`).  The pass itself executes a
`DATA` keyword that begins a statement, and ends it also in front of an `ELSE` (`State.dataPassed`).

The table has the values of the statements that were executed if and only if every announced span
was executed from its start and no `ELSE` stands in it (`table_executed_iff`).  Otherwise no
coincidence of the values can help: what is executed of an announced span weighs less than it.
-/

namespace BasicScript

open Emit Lexer List

variable {tape : Tape} {tokens : Array Token} {place : Int} {s s' : State} {token : Token}
    {front rest : List Token}
  {whole : Span} {spans announced : List Span} {source : String}

/-! ### Announced spans -/

/-- How many tokens there are in front of the one that ends data. -/
def dataLength (tokens : List Token) : Nat := (tokens.takeWhile fun token => !endsData token).length

theorem dataLength_cons (token : Token) (rest : List Token) :
    dataLength (token :: rest) = if endsData token then 0 else dataLength rest + 1 := by
  cases h : endsData token <;> simp [dataLength, h]

/-- Where tokens announce data.  `inData` says whether they begin inside data, and `place` is the
place of the first of them. -/
def dataSpans (inData : Bool) (place : Int) : List Token → List Span
  | [] => []
  | token :: rest =>
    if inData then dataSpans (!endsData token) (place + 1) rest
    else if token.isKeyword "DATA" then
      (place + 1, place + 1 + dataLength rest) :: dataSpans true (place + 1) rest
    else dataSpans false (place + 1) rest

/-- Where a program announces data. -/
def announcedSpans (tokens : Array Token) : List Span := dataSpans false 0 tokens.toList

/-- The items that are announced. -/
def Emit.Announcement.items : Announcement → List (List Token)
  | .data items => items
  | .header _ _ _ => []

/-- The tokens of a span that begins behind some tokens. -/
theorem tokensIn_dataLength (h : tokens.toList = front ++ rest) (hplace : place = front.length) :
    tokensIn tokens (place, place + dataLength rest) = rest.takeWhile fun token =>
      !endsData token := by
  have hstop : (place + (dataLength rest : Int)).toNat = front.length + dataLength rest := by omega
  have hstart : place.toNat = front.length := by omega
  simp only [tokensIn, hstop, hstart, h, drop_take, drop_left, Nat.add_sub_cancel_left]
  exact Eq.symm <| prefix_iff_eq_take.1 <| takeWhile_prefix _

theorem items_announcements (inData : Bool) (before : Option Token)
    (h : tokens.toList = front ++ rest) (hplace : place = front.length) :
    (announcements inData before rest).flatMap Announcement.items =
      itemsIn tokens (dataSpans inData place rest) := by
  induction rest generalizing inData before front place with
  | nil => rfl
  | cons token rest ih =>
    have h' : tokens.toList = (front ++ [token]) ++ rest := by simpa using h
    have hplace' : place + 1 = ((front ++ [token]).length : Nat) := by simp [hplace]
    have ih' := fun inData before => ih inData before h' hplace'
    unfold announcements dataSpans
    split
    · exact ih' _ _
    split
    · rw [flatMap_cons, ih', itemsIn_cons, tokensIn_dataLength h' hplace']
      rfl
    split
    · split
      · exact ih' _ _
      · rw [flatMap_append, ih']
        unfold header?
        repeat' split
        all_goals rfl
    · exact ih' _ _

theorem absorb_values {a : Announcement} (h : absorb a tokens s = .ok () s') :
    ∃ values, a.items.mapM dataLiteral = .ok values ∧ s'.dataValues = s.dataValues ++ values := by
  cases a with
  | data items =>
    simp only [absorb] at h
    cases hvalues : items.mapM dataLiteral with
    | ok values =>
      rw [hvalues] at h
      cases h
      exact ⟨values, hvalues, rfl⟩
    | error fault =>
      rw [hvalues] at h
      cases h
  | header kind name parameters =>
    refine ⟨[], rfl, ?_⟩
    rw [append_nil]
    have hget : (get : Emit State) tokens s = .ok s s := rfl
    simp only [absorb, bind_ok hget] at h
    split at h <;> cases h <;> rfl

theorem absorbAll_values {list : List Announcement} (h : absorbAll list tokens s = .ok () s') :
    ∃ values, (list.flatMap Announcement.items).mapM dataLiteral = .ok values ∧
      s'.dataValues = s.dataValues ++ values := by
  induction list generalizing s with
  | nil =>
    cases h
    exact ⟨[], rfl, (append_nil _).symm⟩
  | cons announcement list ih =>
    rw [absorbAll] at h
    cases habsorb : absorb announcement tokens s with
    | error failure s₁ =>
      rw [bind_error habsorb] at h
      cases h
    | ok _ s₁ =>
    rw [bind_ok habsorb] at h
    obtain ⟨first, hfirst, hs₁⟩ := absorb_values habsorb
    obtain ⟨values, hvalues, hs'⟩ := ih h
    refine ⟨first ++ values, ?_, by rw [hs', hs₁, append_assoc]⟩
    rw [flatMap_cons, mapM_append, hfirst, hvalues]
    rfl

/-- **The table** has the values of the announced spans. -/
theorem announce_tableOf (h : announce tokens s = .ok () s') :
    ∃ values, tableOf tokens (announcedSpans tokens) = .ok values ∧
      s'.dataValues = s.dataValues ++ values := by
  have habsorb : absorbAll (announcements false none tokens.toList) tokens s = .ok () s' := h
  obtain ⟨values, hvalues, hs'⟩ := absorbAll_values habsorb
  rw [items_announcements false none (nil_append _).symm rfl] at hvalues
  exact ⟨values, hvalues, hs'⟩

/-! ### Where announced spans are -/

theorem endsData_of_isKeyword {word : String} (h : token.isKeyword word = true) :
    endsData token = false := by
  simp [endsData, Token.endsLine, Token.isMark, Token.kind_of_isKeyword h]

/-- What is announced ends in front of the next token that ends data. -/
structure Tape.AnnouncedAt (tape : Tape) (span : Span) : Prop where
  pos : 0 < span.1
  le : span.1 ≤ span.2
  inside : ∀ n token, span.1.toNat ≤ n → n < span.2.toNat → tape.tokens[n]? = some token →
    endsData token = false
  ends : ∃ token, tape.tokens[span.2.toNat]? = some token ∧ endsData token = true

/-- Tokens up to the end of a tape hold one that ends data. -/
theorem exists_endsData (h : tape.tokens.toList = front ++ rest) (hne : rest ≠ []) :
    ∃ token ∈ rest, endsData token = true := by
  have hbound : tape.tokens.size - 1 < tape.tokens.size :=
    Nat.sub_one_lt (Nat.ne_of_gt tape.size_pos)
  have hkind := (tape.kind_iff _ hbound).2 (Nat.sub_add_cancel tape.size_pos)
  have hlast : rest.getLast hne = tape.tokens[tape.tokens.size - 1] := by
    have hwhole : tape.tokens.toList.getLast (by simp [h, hne]) = rest.getLast hne := by
      simp only [h, getLast_append_of_ne_nil _ hne]
    rw [← hwhole, getLast_eq_getElem, Array.getElem_toList]
    rfl
  exact ⟨rest.getLast hne, getLast_mem hne, by simp [endsData, Token.endsLine, hlast, hkind]⟩

theorem announcedAt_takeWhile (h : tape.tokens.toList = front ++ rest)
    (hplace : place = front.length) (hpos : 0 < front.length) (hne : rest ≠ []) :
    tape.AnnouncedAt (place, place + dataLength rest) := by
  refine ⟨by simp only; omega, by simp only; omega, fun n token hstart hstop hn => ?_, ?_⟩
  · have hmem := mem_tokensIn_iff.2 ⟨n, hstart, hstop, hn⟩
    rw [tokensIn_dataLength h hplace] at hmem
    simpa using mem_takeWhile_imp hmem
  · obtain ⟨last, hlast, hends⟩ := exists_endsData h hne
    cases hdrop : rest.dropWhile fun token => !endsData token with
    | nil => simpa [hends] using dropWhile_eq_nil_iff.1 hdrop last hlast
    | cons next back =>
      have hnext := head_dropWhile_not (p := fun token => !endsData token) (l :=
        rest) (by simp [hdrop])
      simp only [hdrop, head_cons, Bool.not_eq_false'] at hnext
      refine ⟨next, ?_, hnext⟩
      have hplaces : (place + (dataLength rest : Int)).toNat = front.length + dataLength rest := by
        omega
      have hsplit : rest = (rest.takeWhile fun token => !endsData token) ++ next :: back := by
        rw [← hdrop, takeWhile_append_dropWhile]
      rw [← Array.getElem?_toList, h]
      simp only [hplaces]
      rw [getElem?_append_right (Nat.le_add_right _ _), Nat.add_sub_cancel_left, hsplit,
        getElem?_append_right (by rw [← hsplit]; exact Nat.le_refl _)]
      simp [← hsplit, dataLength]

theorem announcedAt_dataSpans (inData : Bool) (h : tape.tokens.toList = front ++ rest)
    (hplace : place = front.length) :
    ∀ span ∈ dataSpans inData place rest, tape.AnnouncedAt span := by
  induction rest generalizing inData front place with
  | nil => simp [dataSpans]
  | cons token rest ih =>
    have h' : tape.tokens.toList = (front ++ [token]) ++ rest := by simpa using h
    have hplace' : place + 1 = ((front ++ [token]).length : Nat) := by simp [hplace]
    have ih' := fun inData => ih inData h' hplace'
    unfold dataSpans
    split
    · exact ih' _
    split
    · rename_i hdata
      refine forall_mem_cons.2 ⟨announcedAt_takeWhile h' hplace' (by simp) ?_, ih' _⟩
      -- a keyword is not the last token
      rintro rfl
      obtain ⟨last, hlast, hends⟩ := exists_endsData h (cons_ne_nil _ _)
      obtain rfl := mem_singleton.1 hlast
      simp [endsData_of_isKeyword hdata] at hends
    · exact ih' _

/-- Data that is announced further on begins behind what ends the data that is being read. -/
theorem lt_of_mem_dataSpans (inData : Bool) (rest : List Token) (place : Int) :
    ∀ span ∈ dataSpans inData place rest,
      place + (if inData then dataLength rest + 1 else 0 : Nat) < span.1 := by
  induction rest generalizing inData place with
  | nil => simp [dataSpans]
  | cons token rest ih =>
    intro span hspan
    unfold dataSpans at hspan
    cases inData with
    | true =>
      have hlt := ih _ _ span (by simpa using hspan)
      rw [if_pos rfl, dataLength_cons]
      cases hends : endsData token <;> simp [hends] at hlt ⊢ <;> omega
    | false =>
      simp only [Bool.false_eq_true, if_false] at hspan ⊢
      split at hspan
      · rcases mem_cons.1 hspan with rfl | hspan
        · simp only
          omega
        · have hlt := ih _ _ span hspan
          simp at hlt
          omega
      · have hlt := ih _ _ span hspan
        simp at hlt
        omega

theorem pairwise_dataSpans (inData : Bool) (rest : List Token) (place : Int) :
    (dataSpans inData place rest).Pairwise fun a b => a.2 < b.1 := by
  induction rest generalizing inData place with
  | nil => exact .nil
  | cons token rest ih =>
    unfold dataSpans
    split
    · exact ih _ _
    split
    · refine .cons (fun span hspan => ?_) (ih _ _)
      have hlt := lt_of_mem_dataSpans true rest (place + 1) span hspan
      simp only [if_true] at hlt
      omega
    · exact ih _ _

/-- Every `DATA` keyword announces data, or stands in data that is announced. -/
theorem exists_span_of_data (inData : Bool) {n : Nat}
    (hn : rest[n]? = some token) (hdata : token.isKeyword "DATA" = true) :
    (∃ span ∈ dataSpans inData place rest, span.1 ≤ place + n + 1 ∧ place + n + 1 ≤ span.2) ∨
      inData = true ∧ n < dataLength rest := by
  induction rest generalizing inData place n with
  | nil => cases hn
  | cons t rest ih =>
    unfold dataSpans
    cases n with
    | zero =>
      obtain rfl : t = token := by simpa using hn
      cases inData with
      | true => exact .inr ⟨rfl, by simp [dataLength_cons, endsData_of_isKeyword hdata]⟩
      | false =>
        rw [if_neg Bool.false_ne_true, if_pos hdata]
        exact .inl ⟨_, .head _, by simp, by simp only; omega⟩
    | succ n =>
      have hn' : rest[n]? = some token := by simpa using hn
      have hplace : place + ((n + 1 : Nat) : Int) + 1 = place + 1 + n + 1 := by omega
      rw [hplace]
      cases inData with
      | true =>
        rw [if_pos rfl]
        refine (ih (!endsData t) hn').imp_right fun ⟨ht, hlt⟩ => ⟨rfl, ?_⟩
        rw [dataLength_cons, if_neg (by simpa using ht)]
        exact Nat.succ_lt_succ hlt
      | false =>
        rw [if_neg Bool.false_ne_true]
        split
        · rcases ih true hn' with ⟨span, hspan, hin⟩ | ⟨-, hlt⟩
          · exact .inl ⟨span, .tail _ hspan, hin⟩
          · exact .inl ⟨_, .head _, by simp only; omega, by simp only; omega⟩
        · exact (ih false hn').imp_right fun hin => absurd hin.1 Bool.false_ne_true

/-! ### Executed spans -/

/-- Spans one behind the other. -/
def Ordered (spans : List Span) : Prop := spans.Pairwise fun a b => a.2 < b.1

/-- What the pass has executed so far. -/
structure Executed (tape : Tape) (spans : List Span) : Prop where
  dataAt : ∀ span ∈ spans, tape.DataAt span.1 span.2
  ordered : Ordered spans

/-- **Every event** keeps the executed spans in order. -/
theorem Executed.apply {e : Event} (h : Executed tape s.dataPassed) (hfit : e.Fits tape s) :
    Executed tape (e.apply s).dataPassed := by
  rcases (e.owns s).passed with ⟨start, rfl⟩ | hsame
  · obtain ⟨hat, hbehind⟩ := hfit
    constructor
    · intro span hspan
      rcases mem_append.1 hspan with hspan | hspan
      · exact h.dataAt span hspan
      · obtain rfl := mem_singleton.1 hspan
        exact hat
    · refine pairwise_append.2 ⟨h.ordered, pairwise_singleton _ _, fun a ha b hb => ?_⟩
      obtain rfl := mem_singleton.1 hb
      exact hbehind a ha
  · rwa [hsame]

theorem Run.executed {level : Level} {es : List Event} (h : Run tape level s es s')
    (hs : Executed tape s.dataPassed) : Executed tape s'.dataPassed :=
  h.invariant (I := fun s => Executed tape s.dataPassed) (fun h hfit => h.apply hfit) hs

/-! ### What is executed of an announced span -/

/-- A span that was cut out of another one: it begins with it or behind a `DATA` keyword, and ends
with it or in front of an `ELSE`. -/
structure CutFrom (tokens : Array Token) (whole part : Span) : Prop where
  start : part.1 = whole.1 ∨ whole.1 < part.1 ∧
    ∃ token, tokens[(part.1 - 1).toNat]? = some token ∧ token.isKeyword "DATA" = true
  le : part.1 ≤ part.2
  stop : part.2 = whole.2 ∨ part.2 < whole.2 ∧
    ∃ token, tokens[part.2.toNat]? = some token ∧ token.isKeyword "ELSE" = true

theorem Token.isKeyword_of_endsStatement (h : token.endsStatement = true)
    (h' : endsData token = false) : token.isKeyword "ELSE" = true := by
  have hno : (token.endsLine || token.isMark ":") = false := h'
  rwa [Token.endsStatement, hno, Bool.false_or] at h

theorem Token.endsStatement_of_endsData (h : endsData token = true) :
    token.endsStatement = true := by
  have hyes : (token.endsLine || token.isMark ":") = true := h
  rw [Token.endsStatement, hyes, Bool.true_or]

/-- What is executed from inside an announced span is cut from it. -/
theorem Tape.AnnouncedAt.cutFrom {part : Span} (h : tape.AnnouncedAt whole)
    (hpart : tape.DataAt part.1 part.2) (hstart : whole.1 ≤ part.1) (hinside : part.1 ≤ whole.2) :
    CutFrom tape.tokens whole part := by
  have hpos := h.pos
  have hle := hpart.le
  obtain ⟨last, hlast, hends⟩ := h.ends
  obtain ⟨stop, hstop, hstops⟩ := hpart.ends
  have hstopLe : part.2 ≤ whole.2 := by
    by_contra hlt
    have hno := hpart.inside whole.2.toNat last (by omega) (by omega) hlast
    rw [Token.endsStatement_of_endsData hends] at hno
    cases hno
  refine ⟨?_, hle, ?_⟩
  · rcases Int.lt_or_eq_of_le hstart with hlt | heq
    · exact .inr ⟨hlt, hpart.keyword⟩
    · exact .inl heq.symm
  · rcases Int.lt_or_eq_of_le hstopLe with hlt | heq
    · exact .inr ⟨hlt, stop, hstop, Token.isKeyword_of_endsStatement hstops
        (h.inside part.2.toNat stop (by omega) (by omega) hstop)⟩
    · exact .inl heq

theorem spanWeight_pos (tokens : Array Token) (span : Span) : 0 < spanWeight tokens span := by
  unfold spanWeight
  cases h : splitItems (tokensIn tokens span) with
  | nil => exact absurd h (splitItems_ne_nil _)
  | cons item items => exact Nat.lt_of_lt_of_le (itemWeight_pos item) (Nat.le_add_right _ _)

theorem totalWeight_itemsIn_cons (tokens : Array Token) (span : Span) (spans : List Span) :
    totalWeight (itemsIn tokens (span :: spans)) = spanWeight tokens span + totalWeight
      (itemsIn tokens spans) := by
  rw [itemsIn_cons, totalWeight_append, spanWeight]

/-- **Parts of a span** weigh no more than it, and as much only if there is one part and it is the
whole. -/
theorem totalWeight_cutFrom {parts : List Span} (h₀ : 0 ≤ whole.1)
    (hparts : ∀ part ∈ parts, CutFrom tokens whole part) (hordered : Ordered parts) :
    totalWeight (itemsIn tokens parts) < spanWeight tokens whole ∨ parts = [whole] := by
  induction parts generalizing whole with
  | nil => exact .inl (spanWeight_pos tokens whole)
  | cons part parts ih =>
    obtain ⟨start, stop⟩ := whole
    obtain ⟨first, last⟩ := part
    obtain ⟨hbehind, hrest⟩ := pairwise_cons.1 hordered
    obtain ⟨hstart, hle, hstop⟩ := hparts _ (.head _)
    simp only at h₀ hstart hle hstop
    rw [totalWeight_itemsIn_cons]
    -- what is cut off in front
    have hfront : first = start ∨ spanWeight tokens (first, stop) <
        spanWeight tokens (start, stop) := by
      refine hstart.imp_right fun ⟨hlt, token, htoken, hdata⟩ => ?_
      have hcut : spanWeight tokens (start, first - 1) + spanWeight tokens (first - 1 + 1, stop) <
          spanWeight tokens (start, stop) :=
        spanWeight_cut h₀ (by omega) (by omega) htoken hdata (by decide)
      rw [Int.sub_add_cancel] at hcut
      omega
    rcases hstop with rfl | ⟨hlt, token, htoken, helse⟩
    · -- nothing can begin behind a part that ends with the whole
      have hnil : parts = [] := by
        refine eq_nil_iff_forall_not_mem.2 fun part hpart => ?_
        have hafter := hbehind part hpart
        obtain ⟨-, hle', hstop'⟩ := hparts part (.tail _ hpart)
        simp only at hafter hstop'
        omega
      subst hnil
      rcases hfront with rfl | hfront
      · exact .inr rfl
      · exact .inl hfront
    · have hcut : spanWeight tokens (first, last) + spanWeight tokens (last + 1, stop) <
          spanWeight tokens (first, stop) :=
        spanWeight_cut (by omega) hle hlt htoken helse (by decide)
      have hback : totalWeight (itemsIn tokens parts) ≤ spanWeight tokens (last + 1, stop) := by
        have hcuts : ∀ part ∈ parts, CutFrom tokens (last + 1, stop) part := by
          intro part hpart
          have hafter := hbehind part hpart
          obtain ⟨hstart', hle', hstop'⟩ := hparts part (.tail _ hpart)
          refine ⟨?_, hle', hstop'⟩
          simp only at hafter hstart' ⊢
          rcases hstart' with heq | ⟨-, hkeyword⟩
          · omega
          · rcases Int.lt_or_eq_of_le (Int.add_one_le_of_lt hafter) with hlt' | heq
            · exact .inr ⟨hlt', hkeyword⟩
            · exact .inl heq.symm
        have hnext : totalWeight (itemsIn tokens parts) < spanWeight tokens (last + 1, stop) ∨
            parts = [(last + 1, stop)] := ih (by simp only; omega) hcuts hrest
        rcases hnext with hless | heq
        · exact Nat.le_of_lt hless
        · rw [heq, totalWeight_itemsIn_cons]
          exact Nat.le_refl _
      refine .inl ?_
      rcases hfront with rfl | hfront <;> omega

/-- Spans in order are cut in two at a place. -/
theorem exists_parts (hle : ∀ span ∈ spans, span.1 ≤ span.2)
    (hordered : Ordered spans) (place : Int) :
    ∃ front back, spans = front ++ back ∧ (∀ span ∈ front, span.1 ≤ place) ∧
      ∀ span ∈ back, place < span.1 := by
  induction spans with
  | nil => exact ⟨[], [], rfl, by simp, by simp⟩
  | cons span spans ih =>
    obtain ⟨hbehind, hrest⟩ := pairwise_cons.1 hordered
    rcases Int.lt_or_le place span.1 with hlt | hplace
    · refine ⟨[], span :: spans, rfl, by simp, forall_mem_cons.2 ⟨hlt, fun other hother => ?_⟩⟩
      have hspan := hle span (.head _)
      have hother := hbehind other hother
      omega
    · obtain ⟨front, back, rfl, hfront, hback⟩ := ih (fun other hother =>
        hle other (.tail _ hother)) hrest
      exact ⟨span :: front, back, rfl, forall_mem_cons.2 ⟨hplace, hfront⟩, hback⟩

/-- Spans that are executed inside announced ones. -/
structure Covers (tape : Tape) (announced executed : List Span) : Prop where
  announcedAt : ∀ whole ∈ announced, tape.AnnouncedAt whole
  announced_ordered : Ordered announced
  valid : Executed tape executed
  covered : ∀ part ∈ executed, ∃ whole ∈ announced, whole.1 ≤ part.1 ∧ part.1 ≤ whole.2

/-- **What is executed** weighs no more than what is announced, and as much only if it is the
same. -/
theorem Covers.totalWeight_lt {executed : List Span} (h : Covers tape announced executed) :
    totalWeight (itemsIn tape.tokens executed) < totalWeight (itemsIn tape.tokens announced) ∨
      executed = announced := by
  obtain ⟨hannounced, hordered, ⟨hexecuted, hordered'⟩, hcovered⟩ := h
  induction announced generalizing executed with
  | nil =>
    refine .inr (eq_nil_iff_forall_not_mem.2 fun part hpart => ?_)
    obtain ⟨whole, hwhole, -⟩ := hcovered part hpart
    cases hwhole
  | cons whole announced ih =>
    obtain ⟨hbehind, hrest⟩ := pairwise_cons.1 hordered
    have hwhole := hannounced whole (.head _)
    obtain ⟨parts, later, rfl, hparts, hlater⟩ :=
      exists_parts (fun span hspan => (hexecuted span hspan).le) hordered' whole.2
    obtain ⟨hparts', hlater', -⟩ := pairwise_append.1 hordered'
    -- what starts inside the first announced span is cut from it; the later ones are in the rest
    have hcuts : ∀ part ∈ parts, CutFrom tape.tokens whole part := by
      intro part hpart
      have hmem := mem_append_left later hpart
      obtain ⟨other, hother, hstart, hstop⟩ := hcovered part hmem
      rcases mem_cons.1 hother with rfl | hother
      · exact hwhole.cutFrom (hexecuted part hmem) hstart hstop
      · have hafter := hbehind other hother
        have hplace := hparts part hpart
        omega
    have hcovered' : ∀ part ∈ later, ∃ whole ∈ announced, whole.1 ≤ part.1 ∧ part.1 ≤ whole.2 := by
      intro part hpart
      obtain ⟨other, hother, hstart, hstop⟩ := hcovered part (mem_append_right parts hpart)
      rcases mem_cons.1 hother with rfl | hother
      · have hplace := hlater part hpart
        omega
      · exact ⟨other, hother, hstart, hstop⟩
    have hfirst := totalWeight_cutFrom (by have := hwhole.pos; omega) hcuts hparts'
    have hnext := ih (fun span hspan => hannounced span (.tail _ hspan)) hrest hcovered'
      (fun span hspan => hexecuted span (mem_append_right parts hspan)) hlater'
    have hweight : totalWeight (itemsIn tape.tokens (parts ++ later)) =
        totalWeight (itemsIn tape.tokens parts) + totalWeight (itemsIn tape.tokens later) := by
      rw [itemsIn, flatMap_append, totalWeight_append]
      rfl
    rw [hweight, totalWeight_itemsIn_cons]
    rcases hfirst with hfirst | rfl
    · left
      rcases hnext with hnext | rfl <;> omega
    · rcases hnext with hnext | rfl
      · left
        rw [totalWeight_itemsIn_cons]
        simp only [itemsIn, flatMap_nil, totalWeight]
        simp only [itemsIn] at hnext
        omega
      · exact .inr rfl

/-- The weight of values. -/
def tableWeight : List String → Nat
  | [] => 0
  | value :: values => valueWeight value + tableWeight values

theorem totalWeight_eq {items : List (List Token)} {values : List String}
    (h : items.mapM dataLiteral = .ok values) : totalWeight items = tableWeight values := by
  have hvalues := forall₂_of_mapM h
  clear h
  induction hvalues with
  | nil => rfl
  | cons hvalue _ ih => rw [totalWeight, tableWeight, ih, itemWeight, hvalue]

/-- Executed spans have the table of the announced ones only if they are the same. -/
theorem Covers.tableOf_eq_iff {executed : List Span} {table : List String}
    (h : Covers tape announced executed) (htable : tableOf tape.tokens announced = .ok table) :
    tableOf tape.tokens executed = .ok table ↔ executed = announced := by
  constructor
  · intro htable'
    refine h.totalWeight_lt.resolve_left (Nat.not_lt_of_le (Nat.le_of_eq ?_))
    rw [totalWeight_eq htable, totalWeight_eq htable']
  · rintro rfl
    exact htable

theorem Ordered.eq_of_mem_iff {a b : List Span} (ha : Ordered a) (hb : Ordered b)
    (hle : ∀ span ∈ a, span.1 ≤ span.2) (hmem : ∀ span, span ∈ a ↔ span ∈ b) : a = b := by
  have hstarts : ∀ {spans : List Span}, (∀ span ∈ spans, span.1 ≤ span.2) → Ordered spans →
      spans.Pairwise fun x y => x.1 < y.1 :=
    fun hle h => h.imp_of_mem fun hx _ hlt => Int.lt_of_le_of_lt (hle _ hx) hlt
  have hirrefl : Std.Irrefl fun x y : Span => x.1 < y.1 := ⟨fun x => Int.lt_irrefl x.1⟩
  have hantisymm : Std.Antisymm fun x y : Span => x.1 < y.1 :=
    ⟨fun x y hxy hyx => absurd (Int.lt_trans hxy hyx) (Int.lt_irrefl x.1)⟩
  exact (hstarts hle ha).eq_of_mem_iff
    (hstarts (fun span hspan => hle span ((hmem span).2 hspan)) hb) hmem

/-- Two spans of a list in order are the same, or one ends before the other begins. -/
theorem Ordered.eq_or_lt (h : Ordered spans) {x y : Span} (hx : x ∈ spans) (hy : y ∈ spans) :
    x = y ∨ x.2 < y.1 ∨ y.2 < x.1 := by
  have hsymm : Std.Symm fun x y : Span => x = y ∨ x.2 < y.1 ∨ y.2 < x.1 :=
    ⟨fun _ _ h => h.imp Eq.symm Or.symm⟩
  have hapart : spans.Pairwise fun x y => x = y ∨ x.2 < y.1 ∨ y.2 < x.1 :=
    h.imp fun hlt => .inr (.inl hlt)
  exact hapart.forall_of_forall (fun _ _ => .inl rfl) hx hy

/-- The executed spans are the announced ones if and only if each of these was executed from its
start and no `ELSE` stands in it. -/
theorem Covers.eq_iff {executed : List Span} (h : Covers tape announced executed) :
    executed = announced ↔ ∀ whole ∈ announced, (∃ stop, (whole.1, stop) ∈ executed) ∧
      ∀ token ∈ tokensIn tape.tokens whole, token.isKeyword "ELSE" = false := by
  constructor
  · intro heq whole hwhole
    rw [← heq] at hwhole
    refine ⟨⟨whole.2, hwhole⟩, fun token htoken => ?_⟩
    obtain ⟨n, hstart, hstop, hn⟩ := mem_tokensIn_iff.1 htoken
    have hno := (h.valid.dataAt whole hwhole).inside n token hstart hstop hn
    simp only [Token.endsStatement, Bool.or_eq_false_iff] at hno
    exact hno.2
  · intro hall
    have hmem : ∀ whole ∈ announced, whole ∈ executed := by
      intro whole hwhole
      obtain ⟨⟨stop, hstop⟩, helse⟩ := hall whole hwhole
      have hat := h.announcedAt whole hwhole
      have hpos := hat.pos
      have hcut := hat.cutFrom (h.valid.dataAt _ hstop) (Int.le_refl _) hat.le
      rcases hcut.stop with heq | ⟨hlt, token, htoken, hword⟩
      · obtain rfl : stop = whole.2 := heq
        exact hstop
      · have hle : whole.1 ≤ stop := hcut.le
        have hno := helse token
            (mem_tokensIn_iff.2 ⟨stop.toNat, by omega, by simp only at hlt; omega, htoken⟩)
        rw [hword] at hno
        cases hno
    refine h.valid.ordered.eq_of_mem_iff h.announced_ordered
      (fun span hspan => (h.valid.dataAt span hspan).le)
      fun span => ⟨fun hspan => ?_, hmem span⟩
    obtain ⟨whole, hwhole, hstart, hstop⟩ := h.covered span hspan
    have hle := (h.valid.dataAt span hspan).le
    rcases h.valid.ordered.eq_or_lt hspan (hmem whole hwhole) with rfl | hlt | hlt
    · exact hwhole
    · omega
    · omega

/-! ### The table -/

/-- What the pass executes is covered by what was announced. -/
theorem covers_of_path {collector : Collector} (h : Path tape .full { collector } s) :
    Covers tape (announcedSpans tape.tokens) s.dataPassed := by
  obtain ⟨es, hrun⟩ := h
  have hexecuted : Executed tape s.dataPassed := hrun.executed ⟨by simp, .nil⟩
  refine ⟨announcedAt_dataSpans false (nil_append _).symm rfl, pairwise_dataSpans .., hexecuted,
    fun part hpart => ?_⟩
  have hat := hexecuted.dataAt part hpart
  have hpos := hat.pos
  obtain ⟨token, htoken, hdata⟩ := hat.keyword
  rw [← Array.getElem?_toList] at htoken
  rcases exists_span_of_data false htoken hdata with ⟨whole, hwhole, hstart, hstop⟩ | ⟨hno, -⟩
  · exact ⟨whole, hwhole, by omega, by omega⟩
  · cases hno

/-- The values in front of a program are those that the source announces. -/
theorem exists_announced
    (hread : (scan source).fault = none)
    (hpass : pass (scan source).tokens.toArray (firstState source).collector = .ok () s) :
    ∃ values, tableOf (scan source).tokens.toArray (announcedSpans (scan source).tokens.toArray) =
      .ok values ∧ ∀ target, (Generated.ofScan target (scan source)).failure = none ∧
        (Generated.ofScan target (scan source)).code =
          Text.joinWith "\n"
            (target.preamble values ++ s.page.render Script.indentUnit ++ target.postamble) := by
  obtain ⟨values, hannounced, hframed⟩ :=
    exists_framed (Tape.ofSource source hread) (firstState source).collector
  cases hr : announce (Tape.ofSource source hread).tokens (firstState source) with
  | error failure s₁ => cases hpass.symm.trans (bind_error hr _)
  | ok _ s₁ =>
    obtain ⟨table, htable, hs₁⟩ := announce_tableOf hr
    obtain rfl : table = values := hs₁.symm.trans (hannounced s₁ hr)
    refine ⟨table, htable, fun target => ?_⟩
    have hgenerated := (hframed target).ofPass
    rw [show pass (Tape.ofSource source hread).tokens _ = _ from hpass] at hgenerated
    simp only [Generated.ofScan, hread]
    exact ⟨congrArg Generated.failure hgenerated, congrArg Generated.code hgenerated⟩

/-- **The table of data.**  The program that is generated for a source has, whatever the target, a
table of the values of all announced spans in front of it.  The pass has executed `DATA` statements
one behind the other, each from behind its keyword to the end of the statement.  The table is that
of the executed statements if and only if every announced span was executed from its start and no
`ELSE` stands in it. -/
theorem table_executed_iff (source : String) (hread : (scan source).fault = none) (s : State)
    (hpass : pass (scan source).tokens.toArray (Collector.empty.addAll (scan source).warnings) =
      .ok () s) :
    ∃ table,
      (∀ target, (Generated.ofScan target (scan source)).code = Text.joinWith "\n"
        (target.preamble table ++ s.page.render Script.indentUnit ++ target.postamble)) ∧
      tableOf (scan source).tokens.toArray (announcedSpans (scan source).tokens.toArray) =
        .ok table ∧
      Executed (Tape.ofSource source hread) s.dataPassed ∧
      (tableOf (scan source).tokens.toArray s.dataPassed = .ok table ↔
        ∀ whole ∈ announcedSpans (scan source).tokens.toArray,
          (∃ stop, (whole.1, stop) ∈ s.dataPassed) ∧
          ∀ token ∈ tokensIn (scan source).tokens.toArray whole,
          token.isKeyword "ELSE" = false) := by
  obtain ⟨table, htable, hgenerated⟩ := exists_announced hread hpass
  obtain ⟨last, hfinished, rfl⟩ := exists_finished hread hpass
  have hpassed : last.hoisted.dataPassed = last.dataPassed := by
    obtain ⟨page, hhoisted⟩ := last.hoisted_eq
    rw [hhoisted]
  have hcovers := covers_of_path hfinished.path
  refine ⟨table, fun target => (hgenerated target).2, htable, hpassed ▸ hcovers.valid, ?_⟩
  rw [hpassed]
  exact (hcovers.tableOf_eq_iff htable).trans hcovers.eq_iff

/-- The values that are announced and those that are executed, if the pass over a source comes to
its end, and whether an error is reported. -/
def dataOutcome? (source : String) : Option (List String × List String × Bool) :=
  let tokens := (scan source).tokens.toArray
  match pass tokens (Collector.empty.addAll (scan source).warnings) with
  | .ok _ s =>
    match tableOf tokens (announcedSpans tokens), tableOf tokens s.dataPassed with
    | .ok announced, .ok executed =>
      some (announced, executed, decide (HasError s.collector.toList))
    | _, _ => none
  | .error _ _ => none

theorem exists_of_dataOutcome? {announced executed : List String} {errs : Bool}
    (h : dataOutcome? source = some (announced, executed, errs)) :
    ∃ s, pass (scan source).tokens.toArray (Collector.empty.addAll (scan source).warnings) =
      .ok () s ∧ (HasError s.collector.toList ↔ errs = true) ∧
      tableOf (scan source).tokens.toArray (announcedSpans (scan source).tokens.toArray) =
        .ok announced ∧
      tableOf (scan source).tokens.toArray s.dataPassed = .ok executed := by
  unfold dataOutcome? at h
  extract_lets tokens at h
  split at h
  · rename_i s hpass
    split at h
    · rename_i hannounced hexecuted
      cases h
      exact ⟨s, hpass, decide_eq_true_iff.symm, hannounced, hexecuted⟩
    · cases h
  · cases h

/-- Data in two lines, in a single-line `IF` and behind a colon. -/
def spreadData : String := "READ a: DATA 1, -2\nIF a THEN DATA 3\nDATA \"b\", c d"

/-- All of it is executed as it was announced. -/
theorem spreadData_executed :
    ∃ s table, pass (scan spreadData).tokens.toArray
      (Collector.empty.addAll (scan spreadData).warnings) =
        .ok () s ∧
      (Generated.ofScan .node (scan spreadData)).code = Text.joinWith "\n"
        (Target.node.preamble table ++ s.page.render Script.indentUnit ++ Target.node.postamble) ∧
      table = ["1", "-2", "3", "\"b\"", "\"c d\""] ∧
      ∀ whole ∈ announcedSpans (scan spreadData).tokens.toArray, ∃ stop,
        (whole.1, stop) ∈ s.dataPassed := by
  have hread : (scan spreadData).fault = none := by decide +kernel
  have houtcome : dataOutcome? spreadData = some (["1", "-2", "3", "\"b\"", "\"c d\""],
      ["1", "-2", "3", "\"b\"", "\"c d\""], false) := by
    decide +kernel
  obtain ⟨s, hpass, -, hannounced, hexecuted⟩ := exists_of_dataOutcome? houtcome
  obtain ⟨table, hcode, htable, -, hiff⟩ := table_executed_iff spreadData hread s hpass
  cases hannounced.symm.trans htable
  exact ⟨s, _, hpass, hcode .node, rfl, fun whole hwhole => ((hiff.1 hexecuted) whole hwhole).1⟩

/-- **Values that no statement has.**  Without any error, the end of a single-line `IF` is taken for
data, and so is the type of a field that is called `DATA`. -/
theorem table_of_no_statement :
    (∃ s, pass (scan "IF x THEN DATA 1 ELSE PRINT 2").tokens.toArray
          (Collector.empty.addAll (scan "IF x THEN DATA 1 ELSE PRINT 2").warnings) = .ok () s ∧
        ¬ HasError s.collector.toList ∧
        tableOf (scan "IF x THEN DATA 1 ELSE PRINT 2").tokens.toArray
          (announcedSpans (scan "IF x THEN DATA 1 ELSE PRINT 2").tokens.toArray) =
          .ok ["\"1 ELSE PRINT 2\""] ∧
        tableOf (scan "IF x THEN DATA 1 ELSE PRINT 2").tokens.toArray s.dataPassed = .ok ["1"]) ∧
      ∃ s, pass (scan "TYPE t\nDATA AS INTEGER\nEND TYPE").tokens.toArray
          (Collector.empty.addAll (scan "TYPE t\nDATA AS INTEGER\nEND TYPE").warnings) = .ok () s ∧
        ¬ HasError s.collector.toList ∧
        tableOf (scan "TYPE t\nDATA AS INTEGER\nEND TYPE").tokens.toArray
          (announcedSpans (scan "TYPE t\nDATA AS INTEGER\nEND TYPE").tokens.toArray) =
            .ok ["\"AS INTEGER\""] ∧
        tableOf (scan "TYPE t\nDATA AS INTEGER\nEND TYPE").tokens.toArray s.dataPassed =
          .ok [] := by
  constructor
  · have houtcome : dataOutcome? "IF x THEN DATA 1 ELSE PRINT 2" =
        some (["\"1 ELSE PRINT 2\""], ["1"], false) := by
      decide +kernel
    obtain ⟨s, hpass, herrs, htables⟩ := exists_of_dataOutcome? houtcome
    exact ⟨s, hpass, fun h => Bool.false_ne_true (herrs.1 h), htables⟩
  · have houtcome : dataOutcome? "TYPE t\nDATA AS INTEGER\nEND TYPE" =
        some (["\"AS INTEGER\""], [], false) := by
      decide +kernel
    obtain ⟨s, hpass, herrs, htables⟩ := exists_of_dataOutcome? houtcome
    exact ⟨s, hpass, fun h => Bool.false_ne_true (herrs.1 h), htables⟩

end BasicScript
