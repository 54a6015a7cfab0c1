import BasicScript.Emit.Announcement
import BasicScript.Proofs.StringLiteral
import BasicScript.Proofs.Wording
import Mathlib.Data.List.Forall2

/-!
# Items of data

A span of data is the place of its first token and the place of the token that ends it.  The items
of a span are its tokens cut at the commas, and its values are their literals.

**Weights.**  A value weighs as much as it has characters if it is a string, and one if it is a
number.  A keyword inside a span makes one item out of the item in front of it and the item behind
it, and this item weighs more than the two (`spanWeight_cut`).  So spans that are cut out of another
one at its keywords weigh less than it.
-/

namespace BasicScript

open Emit Script List

variable {token : Token} {tokens : Array Token} {items : List (List Token)} {values : List String}
    {value : String}
  {start middle stop : Int}

/-- A place where data begins, and the place where it ends. -/
abbrev Span := Int × Int

/-- The tokens of a span. -/
def tokensIn (tokens : Array Token) (span : Span) : List Token :=
  (tokens.toList.take span.2.toNat).drop span.1.toNat

theorem mem_tokensIn_iff {span : Span} :
    token ∈ tokensIn tokens span ↔
      ∃ n, span.1.toNat ≤ n ∧ n < span.2.toNat ∧ tokens[n]? = some token := by
  simp only [tokensIn, mem_iff_getElem?, getElem?_drop, getElem?_take, Array.getElem?_toList]
  constructor
  · rintro ⟨i, hi⟩
    split at hi
    · exact ⟨_, Nat.le_add_right _ _, ‹_›, hi⟩
    · cases hi
  · rintro ⟨n, hstart, hstop, hn⟩
    refine ⟨n - span.1.toNat, ?_⟩
    rw [Nat.add_sub_cancel' hstart, if_pos hstop, hn]

/-- The items of spans, one after another. -/
def itemsIn (tokens : Array Token) (spans : List Span) : List (List Token) :=
  spans.flatMap fun span => splitItems (tokensIn tokens span)

theorem itemsIn_cons (tokens : Array Token) (span : Span) (spans : List Span) :
    itemsIn tokens (span :: spans) = splitItems (tokensIn tokens span) ++ itemsIn tokens spans :=
  flatMap_cons

/-- The values of spans, one after another. -/
def tableOf (tokens : Array Token) (spans : List Span) : Except Fault (List String) :=
  (itemsIn tokens spans).mapM dataLiteral

/-! ### Values -/

theorem forall₂_of_mapM (h : items.mapM dataLiteral = .ok values) :
    Forall₂ (fun item value => dataLiteral item = .ok value) items values := by
  induction items generalizing values with
  | nil =>
    cases h
    exact .nil
  | cons item items ih =>
    rw [mapM_cons] at h
    cases hvalue : dataLiteral item with
    | error fault =>
      rw [hvalue] at h
      cases h
    | ok value =>
      rw [hvalue] at h
      cases hvalues : items.mapM dataLiteral with
      | error fault =>
        rw [hvalues] at h
        cases h
      | ok rest =>
        rw [hvalues] at h
        cases h
        exact .cons hvalue (ih hvalues)

/-- An item that is a number, with or without a sign. -/
def isNumeric : List Token → Bool
  | [token] => token.kind = .number
  | [sign, token] => token.kind = .number && (sign.isOperator "-" || sign.isOperator "+")
  | _ => false

/-- What the value of an item can be. -/
inductive DataValue : List Token → String → Prop where
  | number {token : Token} {value : String} (hkind : token.kind = .number)
      (hvalue : number token.text = .ok value) : DataValue [token] value
  | positive {sign token : Token} {value : String} (hkind : token.kind = .number)
      (hsign : sign.isOperator "+" = true) (hvalue : number token.text = .ok value) :
      DataValue [sign, token] value
  | negative {sign token : Token} {value : String} (hkind : token.kind = .number)
      (hsign : sign.isOperator "-" = true) (hvalue : number token.text = .ok value) :
      DataValue [sign, token] ("-" ++ value)
  | text {item : List Token} (hitem : isNumeric item = false) :
      DataValue item (literal (itemText item))

theorem dataValue_of_dataLiteral {item : List Token} (h : dataLiteral item = .ok value) :
    DataValue item value := by
  unfold dataLiteral at h
  split at h
  case h_1 token =>
    split at h
    · exact .number ‹_› h
    · cases h
      exact .text (by simpa [isNumeric])
  case h_2 sign token =>
    simp only [Bool.and_eq_true, decide_eq_true_eq] at h
    split at h
    · rename_i hnegative
      cases hdigits : number token.text with
      | error fault =>
        rw [hdigits] at h
        cases h
      | ok digits =>
        rw [hdigits] at h
        cases h
        exact .negative hnegative.1 hnegative.2 hdigits
    · rename_i hnegative
      split at h
      · rename_i hpositive
        exact .positive hpositive.1 hpositive.2 h
      · rename_i hpositive
        cases h
        refine .text (Bool.eq_false_iff.2 fun hnumeric => ?_)
        simp only [isNumeric, Bool.and_eq_true, Bool.or_eq_true, decide_eq_true_eq] at hnumeric
        exact hnumeric.2.elim (fun hsign => hnegative ⟨hnumeric.1, hsign⟩) fun hsign =>
          hpositive ⟨hnumeric.1, hsign⟩
  case h_3 hone htwo =>
    cases h
    refine .text ?_
    unfold isNumeric
    split
    · exact absurd rfl (hone _)
    · exact absurd rfl (htwo _ _)
    · rfl

theorem exists_dataValue (h : items.mapM dataLiteral = .ok values) :
    ∀ value ∈ values, ∃ item, DataValue item value := by
  have hvalues := forall₂_of_mapM h
  clear h
  induction hvalues with
  | nil => exact nofun
  | cons hvalue _ ih => exact forall_mem_cons.2 ⟨⟨_, dataValue_of_dataLiteral hvalue⟩, ih⟩

/-! ### Cutting items -/

theorem splitItems_ne_nil (tokens : List Token) : splitItems tokens ≠ [] := by
  fun_induction splitItems tokens with
  | case1 => exact cons_ne_nil _ _
  | case2 => exact cons_ne_nil _ _
  | case3 => exact cons_ne_nil _ _
  | case4 => exact cons_ne_nil _ _

/-- Tokens on both sides of one that is no comma: the last item in front and the first one behind
are one. -/
theorem splitItems_append (h : token.isMark "," = false) (front back : List Token) :
    ∃ items last first rest, splitItems front = items ++ [last] ∧ splitItems back = first :: rest ∧
      splitItems (front ++ token :: back) = items ++ (last ++ token :: first) :: rest := by
  induction front with
  | nil =>
    cases hback : splitItems back with
    | nil => exact absurd hback (splitItems_ne_nil back)
    | cons first rest => exact ⟨[], [], first, rest, rfl, rfl, by simp [splitItems, h, hback]⟩
  | cons t front ih =>
    obtain ⟨items, last, first, rest, hfront, hback, hboth⟩ := ih
    by_cases hcomma : t.isMark "," = true
    · exact ⟨[] :: items, last, first, rest, by simp [splitItems, hcomma, hfront], hback,
        by simp [splitItems, hcomma, hboth]⟩
    · cases items with
      | nil => exact ⟨[], t :: last, first, rest, by simp [splitItems, hcomma, hfront], hback,
          by simp [splitItems, hcomma, hboth]⟩
      | cons item items => exact ⟨(t :: item) :: items, last, first, rest,
        by simp [splitItems, hcomma, hfront],
          hback, by simp [splitItems, hcomma, hboth]⟩

/-! ### Weights -/

/-- How many characters a text has inside a literal. -/
def escapedLength (text : String) : Nat := (text.toList.flatMap escapeChar).length

theorem escapedLength_append (a b : String) :
    escapedLength (a ++ b) = escapedLength a + escapedLength b := by
  simp [escapedLength]

/-- The characters of tokens, with one for a blank in front of each. -/
def spread : List Token → Nat
  | [] => 0
  | token :: rest => 1 + escapedLength token.text + spread rest

theorem spread_append (a b : List Token) : spread (a ++ b) = spread a + spread b := by
  induction a with
  | nil => simp [spread]
  | cons token a ih =>
    simp only [cons_append, spread, ih]
    omega

theorem escapedLength_joined (item : List Token) (text : String) :
    escapedLength ((item.map (·.text)).foldl (fun front next => front ++ " " ++ next) text) =
      escapedLength text + spread item := by
  induction item generalizing text with
  | nil => rfl
  | cons token item ih =>
    have hblank : escapedLength " " = 1 := by decide
    rw [map_cons, foldl_cons, ih, escapedLength_append, escapedLength_append, hblank, spread]
    omega

theorem escapedLength_itemText (item : List Token) :
    escapedLength (itemText item) = spread item - 1 := by
  cases item with
  | nil => rfl
  | cons token item =>
    rw [itemText, map_cons, Text.joinWith, escapedLength_joined, spread]
    omega

/-- How much a value weighs. -/
def valueWeight (text : String) : Nat :=
  if text.toList.head? = some '"' then text.toList.length else 1

theorem valueWeight_literal (text : String) :
    valueWeight (Script.literal text) = escapedLength text + 2 := by
  rw [valueWeight, Script.toList_literal, List.head?_cons, if_pos rfl, List.length_cons,
    List.length_append, escapedLength]
  rfl

theorem valueWeight_pos (text : String) : 0 < valueWeight text := by
  unfold valueWeight
  split
  · rename_i h
    exact List.length_pos_of_mem (List.mem_of_head? h)
  · exact Nat.one_pos

/-- How much the value of an item weighs. -/
def itemWeight (item : List Token) : Nat :=
  match dataLiteral item with
  | .ok text => valueWeight text
  | .error _ => 1

theorem itemWeight_pos (item : List Token) : 0 < itemWeight item := by
  unfold itemWeight
  split
  · exact valueWeight_pos _
  · exact Nat.one_pos

theorem valueWeight_number {text : String} (h : Script.number text = .ok value) :
    valueWeight value = 1 := by
  refine if_neg fun hhead => ?_
  have hplain := (Script.wordy_of_number h).2 '"' (mem_of_head? hhead)
  simp [isPlain] at hplain

theorem valueWeight_negated (value : String) : valueWeight ("-" ++ value) = 1 :=
  if_neg (by simp [String.toList_append])

/-- A value weighs at most what the tokens of its item weigh as a string. -/
theorem itemWeight_le (item : List Token) : itemWeight item ≤ spread item + 2 := by
  unfold itemWeight
  cases hvalue : dataLiteral item with
  | error fault =>
    simp only
    omega
  | ok value =>
    simp only
    cases dataValue_of_dataLiteral hvalue with
    | number _ hnumber | positive _ _ hnumber =>
      have hone := valueWeight_number hnumber
      omega
    | @negative _ _ digits =>
      have hone := valueWeight_negated digits
      omega
    | text =>
      rw [valueWeight_literal, escapedLength_itemText]
      omega

/-- An item with a keyword in it is a string. -/
theorem dataLiteral_keyword (h : token.kind = .keyword) (front back : List Token) :
    dataLiteral (front ++ token :: back) = .ok (literal (itemText (front ++ token :: back))) := by
  unfold dataLiteral
  split
  · rename_i only heq
    cases front with
    | nil =>
      obtain ⟨rfl, rfl⟩ : token = only ∧ back = [] := by simpa using heq
      rw [if_neg (by simp [h])]
      rfl
    | cons => simp at heq
  · rename_i sign second heq
    have hno : (second.kind = .number && sign.isOperator "-") = false ∧
        (second.kind = .number && sign.isOperator "+") = false := by
      rcases front with _ | ⟨first, _ | ⟨next, front⟩⟩
      · obtain ⟨rfl, rfl⟩ : token = sign ∧ back = [second] := by simpa using heq
        simp [Token.isOperator, h]
      · obtain ⟨rfl, rfl, rfl⟩ : first = sign ∧ token = second ∧ back = [] := by simpa using heq
        simp [h]
      · simp at heq
    rw [hno.1, hno.2]
    rfl
  · rfl

/-- **A keyword between two items** makes one item of them that weighs more than both. -/
theorem itemWeight_join (hk : token.kind = .keyword) (hlong : 2 < escapedLength token.text)
    (front back : List Token) :
    itemWeight front + itemWeight back < itemWeight (front ++ token :: back) := by
  have hfront := itemWeight_le front
  have hback := itemWeight_le back
  have hboth : itemWeight (front ++ token :: back) = spread (front ++ token :: back) - 1 + 2 := by
    rw [itemWeight, dataLiteral_keyword hk]
    simp only [valueWeight_literal, escapedLength_itemText]
  rw [hboth, spread_append, spread]
  omega

/-- The weight of items. -/
def totalWeight : List (List Token) → Nat
  | [] => 0
  | item :: items => itemWeight item + totalWeight items

theorem totalWeight_append (a b : List (List Token)) :
    totalWeight (a ++ b) = totalWeight a + totalWeight b := by
  induction a with
  | nil => simp [totalWeight]
  | cons item a ih =>
    simp only [cons_append, totalWeight, ih]
    omega

/-- The weight of what a span holds. -/
def spanWeight (tokens : Array Token) (span : Span) : Nat :=
  totalWeight (splitItems (tokensIn tokens span))

/-- A span around a keyword, cut at it. -/
theorem tokensIn_cut (h₀ : 0 ≤ start)
    (h₁ : start ≤ middle) (h₂ : middle < stop) (htoken : tokens[middle.toNat]? = some token) :
    tokensIn tokens (start, stop) = tokensIn tokens (start, middle) ++ token :: tokensIn tokens
      (middle + 1, stop) := by
  have hlt : middle.toNat < stop.toNat := by omega
  have hnext : (middle + 1).toNat = middle.toNat + 1 := by omega
  have hget : (tokens.toList.take stop.toNat)[middle.toNat]? = some token := by
    rw [getElem?_take_of_lt hlt, Array.getElem?_toList, htoken]
  obtain ⟨hbound, hvalue⟩ := List.getElem?_eq_some_iff.1 hget
  have hfront : (tokens.toList.take stop.toNat).take middle.toNat =
      tokens.toList.take middle.toNat := by
    rw [take_take, Nat.min_eq_left (Nat.le_of_lt hlt)]
  have hback : (tokens.toList.take stop.toNat).drop middle.toNat =
      token :: (tokens.toList.take stop.toNat).drop (middle.toNat + 1) := by
    rw [drop_eq_getElem_cons hbound, hvalue]
  rw [tokensIn, ← take_append_drop middle.toNat (tokens.toList.take stop.toNat), hfront, hback,
    drop_append_of_le_length ?_, tokensIn, tokensIn, hnext]
  rw [length_take, Array.length_toList]
  have hsize : middle.toNat < tokens.size := (Array.getElem?_eq_some_iff.1 htoken).1
  omega

/-- **A span that is cut at a keyword** weighs more than its two parts. -/
theorem spanWeight_cut {word : String} (h₀ : 0 ≤ start)
    (h₁ : start ≤ middle) (h₂ : middle < stop) (htoken : tokens[middle.toNat]? = some token)
    (hword : token.isKeyword word = true) (hlong : 2 < escapedLength word) :
    spanWeight tokens (start, middle) + spanWeight tokens (middle + 1, stop) <
      spanWeight tokens (start, stop) := by
  simp only [Token.isKeyword, Bool.and_eq_true, decide_eq_true_eq] at hword
  obtain ⟨hk, rfl⟩ := hword
  have hmark : token.isMark "," = false := by simp [Token.isMark, hk]
  obtain ⟨items, last, first, rest, hfront, hback, hboth⟩ :=
    splitItems_append hmark (tokensIn tokens (start, middle)) (tokensIn tokens (middle + 1, stop))
  have hjoin := itemWeight_join hk hlong last first
  simp only [spanWeight, tokensIn_cut h₀ h₁ h₂ htoken, hfront, hback, hboth,
    totalWeight_append, totalWeight]
  omega

end BasicScript
