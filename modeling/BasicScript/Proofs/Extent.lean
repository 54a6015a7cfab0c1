import BasicScript.Proofs.Tape
import Mathlib.Data.List.Forall2
import Mathlib.Data.Nat.Digits.Defs

/-!
# Where the tokens of a source stand

Reading keeps a line and a column as it goes from piece to piece.  This module says that they are
true places: the place of a token is the number of line ends in front of it and the number of
characters behind the last of them, both counted from one (`placeBehind`).

The extents of a source (`extents`) are the stretches of characters that its tokens come from.  They
follow one another without overlap, each token spells its extent (`Spells`), and a character outside
all extents is a blank, part of a comment, or begins no token (`PassedOver`).  The proof follows the
pieces: what a piece looks like is said once (`Piece.Cut`), and one piece in front of a reading that
is accounted for leaves it accounted for (`Accounts.pass`, `Accounts.take`).
-/

namespace BasicScript.Lexer

open List

variable {text rest source after : List Char} {c : Char} {piece : Piece} {kind : Kind} {i : Nat}

/-! ### Places -/

/-- The place behind some characters that begin a source. -/
def placeBehind (front : List Char) : Place :=
  ⟨1 + front.count '\n', 1 + (front.reverse.takeWhile (· ≠ '\n')).length⟩

/-- A place in front of another, on an earlier line or further left. -/
def Place.Before (p q : Place) : Prop :=
  p.line < q.line ∨ p.line = q.line ∧ p.column < q.column

instance (p q : Place) : Decidable (p.Before q) :=
  inferInstanceAs (Decidable (_ ∨ _))

theorem placeBehind_newline (front : List Char) :
    placeBehind (front ++ ['\n']) = ⟨(placeBehind front).line + 1, 1⟩ := by
  simp [placeBehind, Int.add_assoc]

theorem placeBehind_append (front : List Char) (h : '\n' ∉ text) :
    placeBehind (front ++ text) =
      ⟨(placeBehind front).line, (placeBehind front).column + text.length⟩ := by
  have htext : ∀ c ∈ text.reverse, decide (c ≠ '\n') = true := by
    intro c hc
    exact decide_eq_true fun hc' => h (hc' ▸ mem_reverse.1 hc)
  have hline : (front ++ text).count '\n' = front.count '\n' := by
    rw [count_append, count_eq_zero_of_not_mem h, Nat.add_zero]
  simp only [placeBehind, hline, reverse_append, takeWhile_append_of_pos htext,
    length_append, length_reverse, Place.mk.injEq, true_and]
  omega

/-- More characters have a later place behind them. -/
theorem placeBehind_before (front : List Char) (h : text ≠ []) :
    (placeBehind front).Before (placeBehind (front ++ text)) := by
  by_cases hmem : '\n' ∈ text
  · have hpos : 0 < text.count '\n' := count_pos_iff.2 hmem
    refine .inl ?_
    simp only [placeBehind, count_append]
    omega
  · have hpos : 0 < text.length := length_pos_iff.2 h
    rw [placeBehind_append front hmem]
    exact .inr ⟨rfl, by simp only; omega⟩

/-- Look-alikes stand for no line end, and no line end for a look-alike. -/
theorem plainChar_eq_newline (c : Char) : plainChar c = '\n' ↔ c = '\n' := by
  constructor
  · intro h
    simp only [plainChar] at h
    split at h
    · exact absurd h (by decide)
    split at h
    · exact absurd h (by decide)
    split at h
    · exact absurd h (by decide)
    · exact h
  · rintro rfl
    decide

/-- Putting plain characters in the place of look-alikes moves nothing. -/
theorem placeBehind_plain (front : List Char) :
    placeBehind (front.map plainChar) = placeBehind front := by
  have hcount : (front.map plainChar).count '\n' = front.count '\n' := by
    rw [count_eq_countP, countP_map, count_eq_countP]
    refine countP_congr fun c _ => ?_
    simp [plainChar_eq_newline]
  have hrun : (front.map plainChar).reverse.takeWhile (· ≠ '\n') =
      (front.reverse.takeWhile (· ≠ '\n')).map plainChar := by
    rw [← map_reverse, takeWhile_map]
    congr 2
    funext c
    simp [plainChar_eq_newline]
  simp only [placeBehind, hcount, hrun, length_map]

/-! ### What a piece looks like -/

/-- Whether a token begins with the first of some characters. -/
def startsToken : List Char → Bool
  | [] => false
  | c :: rest => c = '\n' || c = '"' || c = '?' || isDigit c || isLetter c || isMark c ||
      isOperator c || startsHexadecimal (c :: rest)

/-- Whether a comment begins with the first of some characters. -/
def startsComment (source : List Char) : Bool :=
  source.head? = some '\'' || startsRemark source

/-- What a piece looks like, with the characters behind it. -/
def Piece.Cut (piece : Piece) (after : List Char) : Prop :=
  match piece.shape with
  | .newline => piece.text = ['\n']
  | .blank => ∃ c, piece.text = [c] ∧ isBlank c = true
  | .comment => startsComment (piece.text ++ after) = true ∧ '\n' ∉ piece.text
  | .number => '\n' ∉ piece.text ∧ piece.text.head? ≠ some '&'
  | .hexadecimal => ∃ mark digits, piece.text = '&' :: mark :: digits ∧ (mark = 'H' ∨ mark = 'h') ∧
      ∀ c ∈ digits, isHexDigit c = true
  | .string closed => ∃ inside, '"' ∉ inside ∧ '\n' ∉ inside ∧
    if closed then piece.text = '"' :: inside ++ ['"']
      else piece.text = '"' :: inside ∧ (after = [] ∨ after.head? = some '\n')
  | .word => '\n' ∉ piece.text ∧ piece.text ≠ ['?']
  | .query => piece.text = ['?']
  | .mark | .operator => '\n' ∉ piece.text
  | .stray => ∃ c, piece.text = [c] ∧ startsToken (c :: after) = false

theorem Parts.head {result : Piece × List Char} (h : Parts result (c :: rest)) :
    result.1.text.head? = some c := by
  obtain ⟨happend, hne⟩ := h
  cases htext : result.1.text with
  | nil => exact absurd htext hne
  | cons d text =>
    rw [htext, List.cons_append, List.cons.injEq] at happend
    rw [happend.1, List.head?_cons]

theorem newline_not_mem_of_plain (h : Script.Plain text) : '\n' ∉ text :=
  fun hmem => absurd (h _ hmem) (by decide)

theorem cutNumber_cut (h : startsNumber (c :: rest) = true) :
    (cutNumber (c :: rest)).1.Cut (cutNumber (c :: rest)).2 := by
  have hfits : Numeral (cutNumber (c :: rest)).1.text := cutNumber_fits h
  refine ⟨newline_not_mem_of_plain (Numeral.plain hfits).2, ?_⟩
  rw [(cutNumber_parts h).head]
  rintro hc
  obtain rfl : c = '&' := Option.some.inj hc
  exact absurd h (by simp [startsNumber, show isDigit '&' = false by decide])

theorem cutHexadecimal_cut (h : startsHexadecimal source = true) :
    (cutHexadecimal source).1.Cut (cutHexadecimal source).2 := by
  unfold startsHexadecimal at h
  split at h
  · rename_i mark rest
    refine ⟨mark, (split isHexDigit rest).1, rfl, ?_, split_all _ _⟩
    simpa using h
  · simp at h

/-- What stops a longest front part fails the test. -/
theorem split_snd_head (test : Char → Bool) (source : List Char) :
    ∀ c ∈ (split test source).2.head?, test c = false := by
  induction source with
  | nil => simp [split]
  | cons c rest ih =>
    simp only [split]
    by_cases hc : test c = true
    · simpa [hc] using ih
    · simp [hc]

theorem cutString_cut (rest : List Char) (h : c = '"') :
    (cutString (c :: rest)).1.Cut (cutString (c :: rest)).2 := by
  subst h
  have hinside := split_all (fun c => c ≠ '"' && c ≠ '\n') rest
  have hstop := split_snd_head (fun c => c ≠ '"' && c ≠ '\n') rest
  refine ⟨(split (fun c => c ≠ '"' && c ≠ '\n') rest).1, ?_, ?_, ?_⟩
  · exact fun hmem => by simpa using hinside _ hmem
  · exact fun hmem => by simpa using hinside _ hmem
  simp only [cutString, List.drop_one, List.tail_cons]
  cases hrest : (split (fun c => c ≠ '"' && c ≠ '\n') rest).2 with
  | nil => simp [splitOne]
  | cons d after =>
    have hd : d = '"' ∨ d = '\n' := by
      have htest := hstop d (by rw [hrest]; rfl)
      simpa only [ne_eq, decide_not, Bool.and_eq_false_iff, Bool.not_eq_false',
        decide_eq_true_eq] using htest
    rcases hd with rfl | rfl
    · simp [splitOne]
    · simp [splitOne]

theorem cutOperator_cut (rest : List Char) (h : c ≠ '\n') :
    (cutOperator (c :: rest)).1.Cut (cutOperator (c :: rest)).2 := by
  unfold cutOperator
  split
  · exact (by decide : '\n' ∉ ['<', '='])
  · exact (by decide : '\n' ∉ ['>', '='])
  · exact (by decide : '\n' ∉ ['<', '>'])
  · simpa [Piece.Cut] using h.symm

/-- What the first piece of a source looks like. -/
theorem cut_cut (c : Char) (rest : List Char) : (cut c rest).1.Cut (cut c rest).2 := by
  have hparts := cut_parts c rest
  have hfits := cut_fits c rest
  revert hparts hfits
  fun_cases cut c rest with
  | case1 hc => exact fun _ _ => congrArg (fun d => [d]) hc
  | case2 _ hblank => exact fun _ _ => ⟨c, rfl, hblank⟩
  | case3 source _ _ hcomment remark after hsplit =>
    intro hparts _
    refine ⟨?_, fun hmem => ?_⟩
    · rw [hparts.1]
      simpa [startsComment] using hcomment
    · have hremark : remark = (split (· ≠ '\n') (c :: rest)).1 := (congrArg Prod.fst hsplit).symm
      exact of_decide_eq_true (split_all (· ≠ '\n') (c :: rest) '\n' (hremark ▸ hmem)) rfl
  | case4 source _ _ _ hnumber => exact fun _ _ => cutNumber_cut hnumber
  | case5 source _ _ _ _ hhex => exact fun _ _ => cutHexadecimal_cut hhex
  | case6 source _ _ _ _ _ hquote => exact fun _ _ => cutString_cut rest hquote
  | case7 source _ _ _ _ _ _ hletter =>
    intro hparts hfits
    refine ⟨newline_not_mem_of_plain hfits.plain, fun htext => ?_⟩
    have hhead := hparts.head
    rw [htext] at hhead
    obtain rfl : '?' = c := Option.some.inj hhead
    exact absurd hletter (by decide)
  | case8 source _ _ _ _ _ _ _ hquery => exact fun _ _ => congrArg (fun d => [d]) hquery
  | case9 source hnewline => exact fun _ _ => by simpa [Piece.Cut] using Ne.symm hnewline
  | case10 source hnewline => exact fun _ _ => cutOperator_cut rest hnewline
  | case11 source hnewline _ _ hnumber hhex hquote hletter hquery hmark hoperator =>
    intro _ _
    have hdigit : isDigit c = false := by
      simp only [source, startsNumber, Bool.or_eq_true, not_or, Bool.not_eq_true] at hnumber
      exact hnumber.1
    have hhex : ¬ startsHexadecimal (c :: rest) = true := hhex
    refine ⟨c, rfl, ?_⟩
    simp [startsToken, hnewline, hquote, hquery, hdigit, hletter, hmark, hoperator, hhex]

/-- The place behind a piece is the place behind its characters. -/
theorem placeBehind_piece (h : piece.Cut after)
    (front : List Char) : placeBehind (front ++ piece.text) = (placeBehind front).after piece := by
  obtain ⟨shape, text⟩ := piece
  cases shape with
  | newline =>
    obtain rfl : text = ['\n'] := h
    exact placeBehind_newline front
  | blank =>
    obtain ⟨c, rfl, hc⟩ : ∃ c, text = [c] ∧ isBlank c = true := h
    refine placeBehind_append front fun hmem => ?_
    obtain rfl := List.mem_singleton.1 hmem
    exact absurd hc (by decide)
  | comment => exact placeBehind_append front h.2
  | number | word => exact placeBehind_append front h.1
  | mark | operator => exact placeBehind_append front h
  | hexadecimal =>
    obtain ⟨mark, digits, rfl, hmark, hdigits⟩ : ∃ mark digits, text = '&' :: mark :: digits ∧
      (mark = 'H' ∨ mark = 'h') ∧ ∀ c ∈ digits, isHexDigit c = true := h
    refine placeBehind_append front fun hmem => ?_
    rcases List.mem_cons.1 hmem with hc | hmem
    · exact absurd hc (by decide)
    rcases List.mem_cons.1 hmem with rfl | hmem
    · exact absurd hmark (by decide)
    · exact absurd (hdigits _ hmem) (by decide)
  | string closed =>
    obtain ⟨inside, -, hinside, htext⟩ := h
    refine placeBehind_append front fun hmem => ?_
    cases closed with
    | true => simp_all
    | false => simp_all
  | query =>
    obtain rfl : text = ['?'] := h
    exact placeBehind_append front (by decide)
  | stray =>
    obtain ⟨c, rfl, hc⟩ : ∃ c, text = [c] ∧ startsToken (c :: after) = false := h
    refine placeBehind_append front fun hmem => ?_
    obtain rfl := List.mem_singleton.1 hmem
    simp [startsToken] at hc

/-! ### Extents -/

/-- A stretch of characters, from an offset up to another. -/
structure Extent where
  start : Nat
  stop : Nat
deriving Repr, DecidableEq

namespace Extent

/-- The characters of a stretch. -/
def slice (extent : Extent) (source : List Char) : List Char :=
  (source.drop extent.start).take (extent.stop - extent.start)

/-- Whether a stretch has the character at an offset. -/
def Covers (extent : Extent) (offset : Nat) : Prop :=
  extent.start ≤ offset ∧ offset < extent.stop

end Extent

/-- The stretches of the pieces that tokens come from; the end of the input comes from an empty
one. -/
def extentsFrom (offset : Nat) : List Piece → List Extent
  | [] => [⟨offset, offset⟩]
  | piece :: rest =>
    match piece.reading with
    | .nothing => extentsFrom (offset + piece.text.length) rest
    | .token _ _ =>
      ⟨offset, offset + piece.text.length⟩ :: extentsFrom (offset + piece.text.length) rest
    | .fault _ => []

/-- The stretches that the tokens of a source come from. -/
def extents (source : String) : List Extent :=
  extentsFrom 0 (pieces (source.toList.map plainChar))

/-- Whether a token is what a stretch of characters spells, with the characters behind it. -/
def Spells (token : Token) (slice after : List Char) : Prop :=
  match token.kind with
  | .identifier | .operator | .punctuation | .newline => token.text.toList = slice
  | .keyword => token.text = if slice = ['?'] then "PRINT" else Text.upper (String.ofList slice)
  | .number =>
    if slice.head? = some '&' then
      ∃ mark digits, slice = '&' :: mark :: digits ∧ (mark = 'H' ∨ mark = 'h') ∧
        (∀ c ∈ digits, isHexDigit c = true) ∧
        token.text = toString (Nat.ofDigits 16 (digits.map hexValue).reverse)
    else token.text.toList = slice
  | .string => '"' ∉ token.text.toList ∧ '\n' ∉ token.text.toList ∧
      (slice = '"' :: token.text.toList ++ ['"'] ∨
        slice = '"' :: token.text.toList ∧ (after = [] ∨ after.head? = some '\n'))
  | .endOfInput => token.text = "" ∧ slice = [] ∧ after = []
  | .other _ => False

/-- Whether a character lies in a comment: one begins at it or in front of it on the line, and up to
it no token comes from a character of the comment. -/
def InComment (source : List Char) (extents : List Extent) (offset : Nat) : Prop :=
  ∃ start ≤ offset, startsComment (source.drop start) = true ∧
    ∀ i, start ≤ i → i ≤ offset → source[i]? ≠ some '\n' ∧ ∀ extent ∈ extents, ¬ extent.Covers i

/-- Whether reading passes over a character: it is a blank, lies in a comment, or begins no
token. -/
def PassedOver (source : List Char) (extents : List Extent) (offset : Nat) : Prop :=
  (∃ c, source[offset]? = some c ∧ isBlank c = true) ∨ InComment source extents offset ∨
    startsToken (source.drop offset) = false

/-- The place of a token. -/
def placeOf (token : Token) : Place := ⟨token.line, token.column⟩

/-- Tokens account for a source from an offset on: they stand where their stretches begin and spell
them, the stretches follow one another, the last one is the end of the input, and what no stretch
covers is passed over, whatever stretches there are in front of the offset. -/
structure Accounts (source : List Char) (offset : Nat) (tokens : List Token)
    (extents : List Extent) : Prop where
  stand : List.Forall₂ (fun token extent => placeOf token = placeBehind (source.take extent.start) ∧
    Spells token (extent.slice source) (source.drop extent.stop)) tokens extents
  bounded : ∀ extent ∈ extents, offset ≤ extent.start ∧ extent.start ≤ extent.stop ∧
    extent.stop ≤ source.length
  ordered : extents.Pairwise fun a b => a.start < a.stop ∧ a.stop ≤ b.start
  ends : tokens.getLast?.map (·.kind) = some .endOfInput
  passed : ∀ earlier : List Extent, (∀ extent ∈ earlier, extent.stop ≤ offset) →
    ∀ i, offset ≤ i → i < source.length → (∀ extent ∈ extents, ¬ extent.Covers i) →
      PassedOver source (earlier ++ extents) i

theorem ofHexDigits_eq (digits : List Char) :
    ofHexDigits digits = Nat.ofDigits 16 (digits.map hexValue).reverse := by
  rw [Nat.ofDigits_eq_foldr, List.foldr_reverse, List.foldl_map]
  simp only [ofHexDigits, Nat.cast_id, Nat.add_comm]

/-- A token that a piece contributes is spelled by it. -/
theorem spells_reading (h : piece.Cut after)
    {text : String} (hr : piece.reading = .token kind text) (line column : Int) :
    Spells ⟨kind, text, line, column⟩ piece.text after := by
  obtain ⟨shape, chars⟩ := piece
  cases shape <;> simp only [Piece.reading, reduceCtorEq, Reading.token.injEq] at hr
  case newline =>
    obtain ⟨rfl, rfl⟩ := hr
    obtain rfl : chars = ['\n'] := h
    exact (by decide : "\n".toList = ['\n'])
  case number =>
    obtain ⟨rfl, rfl⟩ := hr
    simp [Spells, if_neg h.2, String.toList_ofList]
  case hexadecimal =>
    obtain ⟨mark, digits, hchars, hmark, hdigits⟩ := h
    obtain rfl : chars = '&' :: mark :: digits := hchars
    simp only [readHexadecimal] at hr
    split at hr
    · simp only [Reading.token.injEq, List.drop_succ_cons, List.drop_zero, ofHexDigits_eq] at hr
      obtain ⟨rfl, rfl⟩ := hr
      simpa [Spells] using ⟨hmark, hdigits⟩
    · simp at hr
  case string closed =>
    obtain ⟨rfl, rfl⟩ := hr
    obtain ⟨inside, hquote, hnewline, hchars⟩ := h
    cases closed with
    | true =>
      obtain rfl : chars = '"' :: inside ++ ['"'] := hchars
      simpa [Spells, insideQuotes, String.toList_ofList] using ⟨hquote, hnewline⟩
    | false =>
      obtain ⟨hchars, hafter⟩ := hchars
      obtain rfl : chars = '"' :: inside := hchars
      simpa [Spells, insideQuotes, String.toList_ofList] using ⟨hquote, hnewline, hafter⟩
  case word =>
    simp only [readWord] at hr
    split at hr <;> simp only [Reading.token.injEq] at hr <;> obtain ⟨rfl, rfl⟩ := hr
    · exact (if_neg h.2).symm
    · exact String.toList_ofList
  case query =>
    obtain ⟨rfl, rfl⟩ := hr
    obtain rfl : chars = ['?'] := h
    rfl
  case mark | operator =>
    obtain ⟨rfl, rfl⟩ := hr
    exact String.toList_ofList

section Piece

variable {offset : Nat} (hdrop : source.drop offset = piece.text ++ after)

include hdrop

theorem offset_add_le (hne : piece.text ≠ []) : offset + piece.text.length ≤ source.length := by
  have hlength := congrArg List.length hdrop
  have hpos : 0 < piece.text.length := length_pos_iff.2 hne
  rw [length_drop, length_append] at hlength
  omega

theorem drop_piece : source.drop (offset + piece.text.length) = after := by
  rw [← drop_drop, hdrop, drop_left]

theorem take_piece :
    source.take (offset + piece.text.length) = source.take offset ++ piece.text := by
  rw [take_add, hdrop, take_left]

theorem getElem?_piece (hi : offset ≤ i) (hlt : i < offset + piece.text.length) :
    source[i]? = piece.text[i - offset]? := by
  have hget : (source.drop offset)[i - offset]? = source[i]? := by
    rw [getElem?_drop, Nat.add_sub_cancel' hi]
  rw [← hget, hdrop, getElem?_append_left (by omega)]

/-- The characters of a piece that contributes nothing are passed over. -/
theorem passedOver_piece (hcut : piece.Cut after) (hr : piece.reading = .nothing)
    {extents : List Extent}
    (hout : ∀ i, offset ≤ i → i < offset + piece.text.length → ∀ extent ∈ extents,
      ¬ extent.Covers i) (hi : offset ≤ i) (hlt : i < offset + piece.text.length) :
    PassedOver source extents i := by
  have hget := getElem?_piece hdrop hi hlt
  obtain ⟨shape, text⟩ := piece
  cases shape <;> simp only [Piece.reading, reduceCtorEq] at hr
  case blank =>
    obtain ⟨c, rfl, hc⟩ : ∃ c, text = [c] ∧ isBlank c = true := hcut
    obtain rfl : i = offset := by simp at hlt; omega
    exact .inl ⟨c, by simpa using hget, hc⟩
  case comment =>
    refine .inr (.inl ⟨offset, hi, by rw [hdrop]; exact hcut.1, fun j hj hji => ⟨?_, ?_⟩⟩)
    · intro hnewline
      rw [getElem?_piece hdrop hj (by simp only at hlt ⊢; omega)] at hnewline
      exact hcut.2 (mem_of_getElem? hnewline)
    · exact hout j hj (Nat.lt_of_le_of_lt hji hlt)
  case stray =>
    obtain ⟨c, rfl, hc⟩ : ∃ c, text = [c] ∧ startsToken (c :: after) = false := hcut
    obtain rfl : i = offset := by simp at hlt; omega
    exact .inr (.inr (by rw [hdrop]; exact hc))
  case hexadecimal =>
    simp only [readHexadecimal] at hr
    split at hr <;> simp at hr
  case word =>
    simp only [readWord] at hr
    split at hr <;> simp at hr

variable {tokens : List Token} {extents : List Extent}

/-- A piece that contributes nothing, in front of what is accounted for. -/
theorem Accounts.pass (h : Accounts source (offset + piece.text.length) tokens extents)
    (hcut : piece.Cut after) (hr : piece.reading = .nothing) :
    Accounts source offset tokens extents where
  stand := h.stand
  bounded extent hmem :=
    ⟨Nat.le_of_add_right_le (h.bounded extent hmem).1, (h.bounded extent hmem).2⟩
  ordered := h.ordered
  ends := h.ends
  passed earlier hearlier i hi hlt hout := by
    by_cases hinside : i < offset + piece.text.length
    · refine passedOver_piece hdrop hcut hr (fun j hj hjlt extent hmem hcovers => ?_) hi hinside
      rcases mem_append.1 hmem with hmem | hmem
      · exact absurd hcovers.2 (Nat.not_lt.2 ((hearlier extent hmem).trans hj))
      · exact absurd (hcovers.1.trans_lt hjlt) (Nat.not_lt.2 (h.bounded extent hmem).1)
    · exact h.passed earlier (fun extent hmem =>
        (hearlier extent hmem).trans (Nat.le_add_right _ _)) i
        (Nat.not_lt.1 hinside) hlt hout

/-- A piece that contributes a token, in front of what is accounted for. -/
theorem Accounts.take (h : Accounts source (offset + piece.text.length) tokens extents)
    (hcut : piece.Cut after) (hne : piece.text ≠ []) {text : String}
    (hr : piece.reading = .token kind text) {place : Place}
    (hplace : place = placeBehind (source.take offset)) :
    Accounts source offset (⟨kind, text, place.line, place.column⟩ :: tokens)
      (⟨offset, offset + piece.text.length⟩ :: extents) where
  stand := by
    refine .cons ⟨by rw [← hplace]; rfl, ?_⟩ h.stand
    rw [drop_piece hdrop, Extent.slice, hdrop, Nat.add_sub_cancel_left, take_left]
    exact spells_reading hcut hr place.line place.column
  bounded extent hmem := by
    rcases mem_cons.1 hmem with rfl | hmem
    · exact ⟨le_rfl, Nat.le_add_right _ _, offset_add_le hdrop hne⟩
    · exact ⟨Nat.le_of_add_right_le (h.bounded extent hmem).1, (h.bounded extent hmem).2⟩
  ordered := by
    refine pairwise_cons.2 ⟨fun extent hmem => ⟨?_, (h.bounded extent hmem).1⟩, h.ordered⟩
    exact Nat.lt_add_of_pos_right (length_pos_iff.2 hne)
  ends := by
    have hends := h.ends
    cases tokens with
    | nil => cases hends
    | cons token tokens => rwa [getLast?_cons_cons]
  passed earlier hearlier i hi hlt hout := by
    have hbehind : offset + piece.text.length ≤ i := by
      by_contra hinside
      exact hout _ mem_cons_self ⟨hi, Nat.not_le.1 hinside⟩
    have hpassed := h.passed (earlier ++ [⟨offset, offset + piece.text.length⟩])
      (fun extent hmem => ?_) i hbehind hlt (fun extent hmem => hout extent (by simp [hmem]))
    · rwa [append_assoc] at hpassed
    · rcases mem_append.1 hmem with hmem | hmem
      · exact (hearlier extent hmem).trans (Nat.le_add_right _ _)
      · obtain rfl := mem_singleton.1 hmem
        exact le_rfl

end Piece

/-- The end of a source accounts for itself. -/
theorem accounts_end (source : List Char) : Accounts source source.length
    [⟨.endOfInput, "", (placeBehind source).line, (placeBehind source).column⟩]
    [⟨source.length, source.length⟩] where
  stand := by
    refine .cons ⟨?_, rfl, ?_, ?_⟩ .nil
    · rw [take_length]; rfl
    · simp [Extent.slice]
    · simp
  bounded := by simp
  ordered := by simp
  ends := rfl
  passed _ _ i hi hlt := absurd hlt (Nat.not_lt.2 hi)

/-- What is left of a source behind an offset is accounted for by its reading. -/
theorem accounts_scanFrom (source rest : List Char) (offset : Nat) (hle : offset ≤ source.length)
    (hdrop : source.drop offset = rest)
    (hf : (scanFrom (placeBehind (source.take offset)) (pieces rest)).fault = none) :
    Accounts source offset (scanFrom (placeBehind (source.take offset)) (pieces rest)).tokens
      (extentsFrom offset (pieces rest)) := by
  fun_induction pieces rest generalizing offset with
  | case1 =>
    have hend : offset = source.length := Nat.le_antisymm hle (drop_eq_nil_iff.1 hdrop)
    subst hend
    rw [take_length]
    exact accounts_end source
  | case2 c rest ih =>
    have hparts := cut_parts c rest
    have hcut := cut_cut c rest
    generalize cut c rest = result at hparts hcut ih hf
    obtain ⟨piece, after⟩ := result
    have hpiece : source.drop offset = piece.text ++ after := by rw [hdrop, hparts.1]
    have hstep := ih (offset + piece.text.length) (offset_add_le hpiece hparts.2)
      (drop_piece hpiece)
    rw [take_piece hpiece, placeBehind_piece hcut] at hstep
    simp only [scanFrom, extentsFrom] at hf ⊢
    cases hr : piece.reading with
    | nothing =>
      simp only [hr] at hf ⊢
      exact (hstep hf).pass hpiece hcut hr
    | token kind text =>
      simp only [hr, Scan.before] at hf ⊢
      exact (hstep hf).take hpiece hcut hparts.2 hr rfl
    | fault fault => simp [hr] at hf

/-- Tokens that account for a source stand one behind the other. -/
theorem Accounts.places_increase {offset : Nat} {tokens : List Token}
    {extents : List Extent} (h : Accounts source offset tokens extents) :
    tokens.Pairwise fun a b => (placeOf a).Before (placeOf b) := by
  have hplaces : tokens.map placeOf = extents.map fun extent =>
      placeBehind (source.take extent.start) := by
    rw [← forall₂_eq_eq_eq, forall₂_map_left_iff, forall₂_map_right_iff]
    exact h.stand.imp fun _ _ hstand => hstand.1
  rw [← pairwise_map (f := placeOf), hplaces, pairwise_map]
  refine h.ordered.imp_of_mem fun {a b} _ hb hab => ?_
  have hlt : a.start < b.start := Nat.lt_of_lt_of_le hab.1 hab.2
  have hle : b.start ≤ source.length := (h.bounded b hb).2.1.trans (h.bounded b hb).2.2
  have hsplit : source.take b.start = source.take a.start ++
      (source.drop a.start).take (b.start - a.start) := by
    rw [← take_add, Nat.add_sub_cancel' hlt.le]
  rw [hsplit]
  refine placeBehind_before _ fun hnil => ?_
  have hlength := congrArg List.length hnil
  rw [length_take, length_drop, length_nil] at hlength
  omega

/-- The tokens of a source account for it: each stands at the line and column of its first character
and is spelled by its stretch of the source with plain characters in the place of look-alikes; the
stretches follow one another, so that the places increase; the last token, and only the last, is the
end of the input at the end of the source; and a character that no stretch covers is a blank, lies
in a comment or begins no token. -/
theorem tokens_account_for_source (source : String) (hread : (scan source).fault = none) :
    Forall₂
      (fun token extent => placeOf token = placeBehind (source.toList.take extent.start) ∧
        Spells token (extent.slice (source.toList.map plainChar))
          ((source.toList.map plainChar).drop extent.stop))
      (scan source).tokens (extents source) ∧
    (extents source).Pairwise (fun a b => a.start < a.stop ∧ a.stop ≤ b.start) ∧
    (scan source).tokens.Pairwise (fun a b => (placeOf a).Before (placeOf b)) ∧
    (scan source).tokens.getLast?.map (·.kind) = some .endOfInput ∧
    ∀ i < source.toList.length, (∀ extent ∈ extents source, ¬ extent.Covers i) →
      PassedOver (source.toList.map plainChar) (extents source) i := by
  have haccounts : Accounts (source.toList.map plainChar) 0 (scan source).tokens (extents source) :=
    accounts_scanFrom (source.toList.map plainChar) (source.toList.map plainChar) 0 (Nat.zero_le _)
      rfl hread
  refine ⟨?_, haccounts.ordered, haccounts.places_increase, haccounts.ends, ?_⟩
  · refine haccounts.stand.imp fun token extent hstand => ⟨?_, hstand.2⟩
    rw [hstand.1, ← map_take, placeBehind_plain]
  · intro i hi hout
    exact haccounts.passed [] (by simp) i (Nat.zero_le i) (by simpa using hi) hout

/-- A sign, a remark, a hexadecimal number and a string without its closing quote. -/
theorem sample_tokens_increase :
    (scan "? x ' note\n&H1F: y$ = \"ab").fault = none ∧
      (scan "? x ' note\n&H1F: y$ = \"ab").tokens.Pairwise fun a b =>
        (placeOf a).Before (placeOf b) :=
  have hread : (scan "? x ' note\n&H1F: y$ = \"ab").fault = none := by decide +kernel
  ⟨hread, (tokens_account_for_source _ hread).2.2.1⟩

end BasicScript.Lexer
