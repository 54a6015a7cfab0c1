import BasicScript.Proofs.Extent

/-!
# Reading line by line

No piece of a source reaches over a line end, and each is cut in front of a line end as it is cut at
the end of the source (`cut_line`).  So the pieces of two texts with a line end between them are the
pieces of the one, the line end and the pieces of the other (`pieces_line`), and a scan differs from
the two scans only in that the second one stands further down (`scan_line`).
-/

namespace BasicScript.Lexer

open List

/-! ### Pieces -/

/-- A character at which every piece stops, but for a comment or a string: the end of a line, and
the return in front of it. -/
def isBreak (c : Char) : Bool := c = '\n' || c = '\r'

theorem of_isBreak (P : Char → Prop) {e : Char} (he : isBreak e = true) (hnewline : P '\n')
    (hreturn : P '\r') : P e := by
  rw [isBreak, Bool.or_eq_true, decide_eq_true_eq, decide_eq_true_eq] at he
  rcases he with rfl | rfl
  · exact hnewline
  · exact hreturn

section Break

variable {e : Char} (a b : List Char)

theorem split_break (test : Char → Bool) (htest : test e = false) :
    split test (a ++ e :: b) = ((split test a).1, (split test a).2 ++ e :: b) := by
  induction a with
  | nil => simp [split, htest]
  | cons c rest ih =>
    simp only [cons_append, split]
    by_cases hc : test c = true
    · simp [hc, ih]
    · simp [hc]

theorem splitOne_break (test : Char → Bool) (htest : test e = false) :
    splitOne test (a ++ e :: b) = ((splitOne test a).1, (splitOne test a).2 ++ e :: b) := by
  cases a with
  | nil => simp [splitOne, htest]
  | cons c rest =>
    simp only [cons_append, splitOne]
    by_cases hc : test c = true
    · simp [hc]
    · simp [hc]

variable (he : isBreak e = true)

include he

theorem isDigit_break : isDigit e = false := of_isBreak (isDigit · = false) he rfl rfl

theorem startsRemark_break : startsRemark (a ++ e :: b) = startsRemark a := by
  match a with
  | [] => cases b with
    | nil => rfl
    | cons d b =>
      have hnone : (e = 'R' || e = 'r') = false :=
        of_isBreak (fun e => (e = 'R' || e = 'r') = false) he rfl rfl
      cases b <;> simp [startsRemark, hnone]
  | [r] =>
    have hnone : (e = 'E' || e = 'e') = false :=
      of_isBreak (fun e => (e = 'E' || e = 'e') = false) he rfl rfl
    cases b <;> simp [startsRemark, hnone]
  | [r, e'] =>
    have hnone : (e = 'M' || e = 'm') = false :=
      of_isBreak (fun e => (e = 'M' || e = 'm') = false) he rfl rfl
    simp [startsRemark, hnone]
  | [r, e', m] =>
    have hend : (isBlank e || e = '\n') = true :=
      of_isBreak (fun e => (isBlank e || e = '\n') = true) he rfl rfl
    simp [startsRemark, hend]
  | r :: e' :: m :: c :: rest => rfl

theorem startsNumber_break : startsNumber (a ++ e :: b) = startsNumber a := by
  have hdot : decide (e = '.') = false := of_isBreak (fun e => decide (e = '.') = false) he rfl rfl
  match a with
  | [] => simp [startsNumber, isDigit_break he, hdot]
  | [c] => simp [startsNumber, isDigit_break he]
  | c :: d :: rest => rfl

theorem startsHexadecimal_break : startsHexadecimal (a ++ e :: b) = startsHexadecimal a := by
  match a with
  | [] => exact of_isBreak (fun e => startsHexadecimal ([] ++ e :: b) = false) he rfl rfl
  | [c] =>
    have hmark : (e = 'H' || e = 'h') = false :=
      of_isBreak (fun e => (e = 'H' || e = 'h') = false) he rfl rfl
    by_cases hc : c = '&'
    · subst hc; simp [startsHexadecimal, hmark]
    · simp [startsHexadecimal, hc]
  | c :: d :: rest =>
    by_cases hc : c = '&'
    · subst hc; simp [startsHexadecimal]
    · simp [startsHexadecimal, hc]

theorem cutNumber_break :
    cutNumber (a ++ e :: b) = ((cutNumber a).1, (cutNumber a).2 ++ e :: b) := by
  have hdigits := fun source => split_break source b isDigit (isDigit_break he)
  have hpoint := fun source =>
    splitOne_break source b (· = '.') (of_isBreak (fun e => decide (e = '.') = false) he rfl rfl)
  have hsuffix := fun source =>
    splitOne_break source b isNumberSuffix (of_isBreak (isNumberSuffix · = false) he rfl rfl)
  simp only [cutNumber, hdigits, hpoint]
  by_cases hempty : (splitOne (· = '.') (split isDigit a).2).1.isEmpty = true
  · simp only [hempty, if_true, hsuffix]
  · simp only [hempty, Bool.false_eq_true, if_false, hsuffix]

theorem cutHexadecimal_break (h : startsHexadecimal a = true) :
    cutHexadecimal (a ++ e :: b) = ((cutHexadecimal a).1, (cutHexadecimal a).2 ++ e :: b) := by
  have hdigit : isHexDigit e = false := of_isBreak (isHexDigit · = false) he rfl rfl
  unfold startsHexadecimal at h
  split at h
  · simp [cutHexadecimal, split_break _ b isHexDigit hdigit]
  · simp at h

theorem cutWord_break : cutWord (a ++ e :: b) = ((cutWord a).1, (cutWord a).2 ++ e :: b) := by
  have hword : isWordChar e = false := of_isBreak (isWordChar · = false) he rfl rfl
  have hsuffix : isWordSuffix e = false := of_isBreak (isWordSuffix · = false) he rfl rfl
  simp only [cutWord, split_break _ b isWordChar hword, splitOne_break _ b isWordSuffix hsuffix]

theorem cutOperator_break (c : Char) (rest : List Char) :
    cutOperator (c :: (rest ++ e :: b)) =
      ((cutOperator (c :: rest)).1, (cutOperator (c :: rest)).2 ++ e :: b) := by
  cases rest with
  | nil =>
    refine of_isBreak (fun e => cutOperator (c :: ([] ++ e :: b)) =
      ((cutOperator [c]).1, (cutOperator [c]).2 ++ e :: b)) he ?_ ?_ <;> simp [cutOperator]
  | cons d rest =>
    simp only [cons_append]
    unfold cutOperator
    split <;> simp_all

end Break

section Line

variable (a b : List Char)

theorem isBreak_newline : isBreak '\n' = true := rfl

theorem cutString_line (c : Char) (rest : List Char) :
    cutString (c :: (rest ++ '\n' :: b)) =
      ((cutString (c :: rest)).1, (cutString (c :: rest)).2 ++ '\n' :: b) := by
  simp only [cutString, drop_one, tail_cons, take_succ_cons, take_zero,
    split_break _ b (fun c => c ≠ '"' && c ≠ '\n') (e := '\n') rfl,
    splitOne_break _ b (· = '"') (e := '\n') rfl]

/-- Two choices under one condition are related when their branches are. -/
theorem ite_eq_map {α β : Type} {p : Prop} [Decidable p] {f : α → β} {x y : β} {x' y' : α}
    (hx : p → x = f x') (hy : ¬ p → y = f y') :
    (if p then x else y) = f (if p then x' else y') := by
  split
  · exact hx ‹_›
  · exact hy ‹_›

/-- A line end behind a source changes nothing in its first piece. -/
theorem cut_line (c : Char) (rest : List Char) :
    cut c (rest ++ '\n' :: b) = ((cut c rest).1, (cut c rest).2 ++ '\n' :: b) := by
  have hremark := startsRemark_break (c :: rest) b isBreak_newline
  have hnumber := startsNumber_break (c :: rest) b isBreak_newline
  have hhex := startsHexadecimal_break (c :: rest) b isBreak_newline
  have hsplit := split_break (c :: rest) b (· ≠ '\n') (e := '\n') rfl
  simp only [cons_append] at hremark hnumber hhex hsplit
  let behind (r : Piece × List Char) : Piece × List Char := (r.1, r.2 ++ '\n' :: b)
  change cut c (rest ++ '\n' :: b) = behind (cut c rest)
  simp only [cut, hremark, hnumber, hhex, hsplit]
  refine ite_eq_map (fun _ => rfl) fun _ => ite_eq_map (fun _ => rfl) fun _ =>
    ite_eq_map (fun _ => rfl) fun _ => ?_
  refine ite_eq_map (fun _ => cutNumber_break (c :: rest) b isBreak_newline) fun _ => ?_
  refine ite_eq_map (fun h => cutHexadecimal_break (c :: rest) b isBreak_newline h) fun _ => ?_
  refine ite_eq_map (fun _ => cutString_line b c rest) fun _ => ?_
  refine ite_eq_map (fun _ => cutWord_break (c :: rest) b isBreak_newline) fun _ => ?_
  refine ite_eq_map (fun _ => rfl) fun _ => ite_eq_map (fun _ => rfl) fun _ => ?_
  exact ite_eq_map (fun _ => cutOperator_break b isBreak_newline c rest) fun _ => rfl

/-- The pieces of two texts with a line end between them. -/
theorem pieces_line : pieces (a ++ '\n' :: b) = pieces a ++ ⟨.newline, ['\n']⟩ :: pieces b := by
  fun_induction pieces a with
  | case1 =>
    rw [nil_append, pieces]
    simp [cut]
  | case2 c rest ih =>
    rw [cons_append, pieces, cut_line, ih, cons_append]

end Line

/-! ### Scans -/

/-- A token further down. -/
def lowerToken (lines : Int) (token : Token) : Token := { token with line := token.line + lines }

/-- A warning further down. -/
def lowerWarning (lines : Int) (warning : Diagnostic) : Diagnostic :=
  { warning with line := warning.line + lines }

/-- A scan that begins further down reads the same. -/
theorem scanFrom_lower (lines : Int) (place : Place) (pieces : List Piece) :
    scanFrom ⟨place.line + lines, place.column⟩ pieces =
      ⟨(scanFrom place pieces).tokens.map (lowerToken lines),
        (scanFrom place pieces).warnings.map (lowerWarning lines),
        (scanFrom place pieces).fault⟩ := by
  induction pieces generalizing place with
  | nil => rfl
  | cons piece rest ih =>
    have hafter : Place.after ⟨place.line + lines, place.column⟩ piece =
        ⟨(place.after piece).line + lines, (place.after piece).column⟩ := by
      simp only [Place.after]
      split
      · simp only [Place.mk.injEq, and_true]; omega
      · rfl
    have hwarnings : piece.warnings ⟨place.line + lines, place.column⟩ =
        (piece.warnings place).map (lowerWarning lines) := by
      simp only [Piece.warnings]
      split <;> rfl
    cases hr : piece.reading with
    | nothing => simp only [scanFrom, hr, hafter, ih]
    | token kind text =>
      simp only [scanFrom, hr, hafter, ih, hwarnings, Scan.before, map_append, map_cons,
        map_nil, lowerToken]
    | fault fault => simp only [scanFrom, hr, map_nil]

/-- The scan of pieces in front of others: its end of the input, which stands behind the pieces,
gives way to what the others read from there. -/
theorem scanFrom_append {front : List Piece} (place : Place)
    (hf : (scanFrom place front).fault = none) (rest : List Piece) :
    ∃ tokens, (scanFrom place front).tokens = tokens ++
        [⟨.endOfInput, "", (front.foldl Place.after place).line,
          (front.foldl Place.after place).column⟩] ∧
      scanFrom place (front ++ rest) =
        (scanFrom (front.foldl Place.after place) rest).before
          (scanFrom place front).warnings tokens := by
  induction front generalizing place with
  | nil => exact ⟨[], rfl, rfl⟩
  | cons piece front ih =>
    simp only [scanFrom, cons_append, foldl_cons] at hf ⊢
    cases hr : piece.reading with
    | nothing =>
      simp only [hr] at hf ⊢
      exact ih _ hf
    | fault fault => simp [hr] at hf
    | token kind text =>
      simp only [hr, Scan.before] at hf ⊢
      obtain ⟨tokens, htokens, hscan⟩ := ih _ hf
      refine ⟨⟨kind, text, place.line, place.column⟩ :: tokens, by simp [htokens], ?_⟩
      simp [hscan, Scan.before]

/-- The place behind the pieces of a source is the place behind its characters. -/
theorem foldl_after_pieces (front source : List Char) :
    (pieces source).foldl Place.after (placeBehind front) = placeBehind (front ++ source) := by
  fun_induction pieces source generalizing front with
  | case1 => simp
  | case2 c rest ih =>
    rw [foldl_cons, ← placeBehind_piece (cut_cut c rest), ih, append_assoc, (cut_parts c rest).1]

/-- How many lines a text has. -/
def lineCount (source : String) : Nat := 1 + source.toList.count '\n'

/-- Reading is local to a line: two texts with a line end between them are read as the first one,
with a line end in the place of its end of the input, and then the second one, as many lines further
down as the first one has; and they can be read when both can. -/
theorem scan_line (a b : String) (hread : (scan a).fault = none) :
    ∃ front last, (scan a).tokens = front ++ [last] ∧ last.kind = .endOfInput ∧
      scan (a ++ "\n" ++ b) =
        ⟨front ++ ⟨.newline, "\n", last.line, last.column⟩ ::
            (scan b).tokens.map (lowerToken (lineCount a)),
          (scan a).warnings ++ (scan b).warnings.map (lowerWarning (lineCount a)),
          (scan b).fault⟩ := by
  have hsource : (a ++ "\n" ++ b).toList.map plainChar =
      a.toList.map plainChar ++ '\n' :: b.toList.map plainChar := by
    have hnewline : plainChar '\n' = '\n' := by decide
    simp [String.toList_append, hnewline]
  have hend : (pieces (a.toList.map plainChar)).foldl Place.after {} = placeBehind a.toList := by
    rw [← placeBehind_plain]
    exact foldl_after_pieces [] _
  obtain ⟨front, htokens, hscan⟩ :=
    scanFrom_append {} hread (⟨.newline, ['\n']⟩ :: pieces (b.toList.map plainChar))
  rw [hend] at htokens hscan
  refine ⟨front, _, htokens, rfl, ?_⟩
  -- behind the line end, the second text begins where it would begin alone, but further down
  have hbehind : (placeBehind a.toList).after ⟨.newline, ['\n']⟩ = ⟨1 + lineCount a, 1⟩ := by
    simp only [Place.after, placeBehind, lineCount, Place.mk.injEq, and_true]
    push_cast
    omega
  have hsecond : scanFrom ⟨1 + lineCount a, 1⟩ (pieces (b.toList.map plainChar)) =
      ⟨(scan b).tokens.map (lowerToken (lineCount a)),
        (scan b).warnings.map (lowerWarning (lineCount a)), (scan b).fault⟩ :=
    scanFrom_lower (lineCount a) {} _
  rw [scan, hsource, pieces_line, hscan]
  simp only [scanFrom, Piece.reading, Piece.warnings, hbehind, hsecond, Scan.before, nil_append,
    singleton_append]
  rfl

/-- A string without its closing quote in the second line of two. -/
theorem scan_line_sample :
    (scan "IF x THEN ' note").fault = none ∧
      ∃ front last, (scan "IF x THEN ' note").tokens = front ++ [last] ∧ last.kind = .endOfInput ∧
        scan ("IF x THEN ' note" ++ "\n" ++ "PRINT \"ab") =
          ⟨front ++ ⟨.newline, "\n", last.line, last.column⟩ ::
              (scan "PRINT \"ab").tokens.map (lowerToken (lineCount "IF x THEN ' note")),
            (scan "IF x THEN ' note").warnings ++
              (scan "PRINT \"ab").warnings.map (lowerWarning (lineCount "IF x THEN ' note")),
            (scan "PRINT \"ab").fault⟩ :=
  have hread : (scan "IF x THEN ' note").fault = none := by decide +kernel
  ⟨hread, scan_line _ _ hread⟩

end BasicScript.Lexer
