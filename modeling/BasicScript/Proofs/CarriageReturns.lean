import BasicScript.Proofs.LineLocal

/-!
# Carriage returns

A return in front of the end of a line is a blank like any other, and most pieces stop in front of
it as they stop at the end of the line.  Two kinds of pieces do not: a comment, which is passed over
anyway, and a string without its closing quote, which has the return in its text (`cut_return`).  So
a source whose line ends have a return in front of them is cut into the same pieces, but for these
(`pieces_withReturns`).

* `returns_unseen_iff`: with a return in front of every line end, the tokens have the same kinds,
  texts, lines and columns, but for the columns of the line ends, if and only if every string
  without its closing quote stands on the last line.
* `return_in_string`: a string that the end of its line cuts off.
-/

namespace BasicScript.Lexer

open List

variable {a rest : List Char} {c : Char} {others others' : List Piece} {piece : Piece}

/-! ### Returns in front of line ends -/

/-- Some characters with a return in front of every line end. -/
def withReturnsIn : List Char → List Char
  | [] => []
  | c :: rest => if c = '\n' then '\r' :: '\n' :: withReturnsIn rest else c :: withReturnsIn rest

/-- A source with a return in front of every line end. -/
def withReturns (source : String) : String := String.ofList (withReturnsIn source.toList)

theorem withReturnsIn_line (h : '\n' ∉ a) (b : List Char) :
    withReturnsIn (a ++ '\n' :: b) = (a ++ ['\r']) ++ '\n' :: withReturnsIn b := by
  induction a with
  | nil => rfl
  | cons c rest ih =>
    rw [mem_cons, not_or] at h
    rw [cons_append, withReturnsIn, if_neg (Ne.symm h.1), ih h.2]
    rfl

theorem withReturnsIn_last (h : '\n' ∉ a) : withReturnsIn a = a := by
  induction a with
  | nil => rfl
  | cons c rest ih =>
    rw [mem_cons, not_or] at h
    rw [withReturnsIn, if_neg (Ne.symm h.1), ih h.2]

theorem plain_withReturnsIn (source : List Char) :
    (withReturnsIn source).map plainChar = withReturnsIn (source.map plainChar) := by
  induction source with
  | nil => rfl
  | cons c rest ih =>
    rw [map_cons, withReturnsIn, withReturnsIn]
    by_cases hc : c = '\n'
    · rw [if_pos hc, if_pos ((plainChar_eq_newline c).2 hc), map_cons, map_cons, ih]
      rfl
    · rw [if_neg hc, if_neg fun h => hc ((plainChar_eq_newline c).1 h), map_cons, ih]

/-! ### Pieces in front of a return -/

/-- A piece that only the end of its line ends: a comment, or a string without its closing quote. -/
def Piece.isOpen (piece : Piece) : Bool := piece.shape = .comment || piece.shape = .string false

/-- A piece with a return behind it. -/
def Piece.withReturn (piece : Piece) : Piece := { piece with text := piece.text ++ ['\r'] }

/-- A return is one piece, where none takes it. -/
def returnPiece : Piece := ⟨.blank, ['\r']⟩

theorem split_whole {test : Char → Bool} {source : List Char} (h : ∀ c ∈ source, test c = true) :
    split test source = (source, []) := by
  induction source with
  | nil => rfl
  | cons c rest ih =>
    obtain ⟨hc, hrest⟩ := forall_mem_cons.1 h
    rw [split_pass hc, ih hrest]

/-- What is cut off a line, and what is cut off with a return behind the line: the return is left
over, or the piece is open and takes it. -/
def Meets (result result' : Piece × List Char) : Prop :=
  result' = (result.1, result.2 ++ ['\r']) ∧ result.1.isOpen = false ∨
    result' = (result.1.withReturn, []) ∧ result.2 = [] ∧ result.1.isOpen = true

theorem Meets.ite {p : Prop} [Decidable p] {x y x' y' : Piece × List Char} (hx : p → Meets x x')
    (hy : ¬ p → Meets y y') : Meets (if p then x else y) (if p then x' else y') := by
  split
  · exact hx ‹_›
  · exact hy ‹_›

theorem cutString_return (c : Char) (h : '\n' ∉ rest) :
    Meets (cutString (c :: rest)) (cutString (c :: (rest ++ ['\r']))) := by
  have hinside {text : List Char} (hquote : '"' ∉ text) (hline : '\n' ∉ text) :
      split (fun c => c ≠ '"' && c ≠ '\n') text = (text, []) := by
    refine split_whole fun d hd => ?_
    have hne : d ≠ '"' ∧ d ≠ '\n' := ⟨fun heq => hquote (heq ▸ hd), fun heq => hline (heq ▸ hd)⟩
    simp [hne]
  by_cases hquote : '"' ∈ rest
  · obtain ⟨inside, after, rfl, hinner⟩ := eq_append_cons_of_mem hquote
    have hline : '\n' ∉ inside := fun hmem => h (mem_append_left _ hmem)
    have hsplit (after : List Char) :
        split (fun c => c ≠ '"' && c ≠ '\n') (inside ++ '"' :: after) =
        (inside, '"' :: after) := by
      rw [split_break _ _ _ (e := '"') rfl, hinside hinner hline, nil_append]
    refine .inl ⟨?_, ?_⟩
    · rw [append_assoc, cons_append]
      simp only [cutString, drop_one, tail_cons, hsplit]
      rfl
    · simp only [cutString, drop_one, tail_cons, hsplit]
      rfl
  · have hwhole {text : List Char} (hquote : '"' ∉ text) (hline : '\n' ∉ text) :
        cutString (c :: text) = (⟨.string false, c :: text⟩, []) := by
      simp only [cutString, List.drop_one, List.tail_cons, hinside hquote hline]
      exact congrArg (fun text => (Piece.mk (.string false) text, [])) (List.append_nil _)
    have hlonger : '"' ∉ rest ++ ['\r'] ∧ '\n' ∉ rest ++ ['\r'] := by simp [hquote, h]
    rw [hwhole hquote h, hwhole hlonger.1 hlonger.2]
    exact .inr ⟨rfl, rfl, rfl⟩

theorem shape_cutOperator (source : List Char) : (cutOperator source).1.shape = .operator := by
  unfold cutOperator
  split <;> rfl

/-- **A return behind the first piece** of a line is left over, or is taken by a piece that is
open. -/
theorem cut_return (h : '\n' ∉ c :: rest) : Meets (cut c rest) (cut c (rest ++ ['\r'])) := by
  have hreturn : isBreak '\r' = true := rfl
  have hremark := startsRemark_break (c :: rest) [] hreturn
  have hnumber := startsNumber_break (c :: rest) [] hreturn
  have hhex := startsHexadecimal_break (c :: rest) [] hreturn
  simp only [cons_append] at hremark hnumber hhex
  have hline {text : List Char} (htext : '\n' ∉ text) : split (· ≠ '\n') text = (text, []) :=
    split_whole fun d hd => decide_eq_true fun heq => htext (heq ▸ hd)
  have hlonger : '\n' ∉ c :: (rest ++ ['\r']) := by simpa using h
  obtain ⟨-, hrest⟩ := not_or.1 (mem_cons.not.1 h)
  simp only [cut, hremark, hnumber, hhex, hline h, hline hlonger]
  refine .ite (fun _ => .inl ⟨rfl, rfl⟩) fun _ => .ite (fun _ => .inl ⟨rfl, rfl⟩) fun _ => ?_
  refine .ite (fun _ => .inr ⟨rfl, rfl, rfl⟩) fun _ => ?_
  refine .ite (fun _ => .inl ⟨cutNumber_break (c :: rest) [] hreturn, rfl⟩) fun _ => ?_
  refine .ite (fun hstarts => .inl ⟨cutHexadecimal_break (c :: rest) [] hreturn hstarts, rfl⟩)
    fun _ => ?_
  refine .ite (fun _ => cutString_return c hrest) fun _ => ?_
  refine .ite (fun _ => .inl ⟨cutWord_break (c :: rest) [] hreturn, rfl⟩) fun _ => ?_
  refine .ite (fun _ => .inl ⟨rfl, rfl⟩) fun _ => .ite (fun _ => .inl ⟨rfl, rfl⟩) fun _ => ?_
  refine .ite (fun _ => .inl ⟨cutOperator_break [] hreturn c rest, ?_⟩) fun _ => .inl ⟨rfl, rfl⟩
  rw [Piece.isOpen, shape_cutOperator]
  rfl

/-- Pieces, and the same ones of a source that has a return in front of every line end. -/
inductive Returned : List Piece → List Piece → Prop where
  | nil : Returned [] []
  /-- The last piece of the source. -/
  | last (piece : Piece) : Returned [piece] [piece]
  | same {pieces pieces' : List Piece} (piece : Piece) (hclosed : piece.shape ≠ .string false)
      (h : Returned pieces pieces') : Returned (piece :: pieces) (piece :: pieces')
  /-- A line end, with a return that no piece takes. -/
  | blank {pieces pieces' : List Piece} (h : Returned pieces pieces') :
      Returned (⟨.newline, ['\n']⟩ :: pieces) (returnPiece :: ⟨.newline, ['\n']⟩ :: pieces')
  /-- A line end, with a return that the piece in front of it takes. -/
  | taken {pieces pieces' : List Piece} (piece : Piece) (hopen : piece.isOpen = true)
      (hne : piece.text ≠ []) (h : Returned pieces pieces') :
      Returned (piece :: ⟨.newline, ['\n']⟩ :: pieces)
      (piece.withReturn :: ⟨.newline, ['\n']⟩ :: pieces')

theorem newline_not_mem_cut (h : '\n' ∉ c :: rest) : '\n' ∉ (cut c rest).2 := by
  intro hmem
  rw [← (cut_parts c rest).1] at h
  exact h (mem_append_right _ hmem)

theorem returned_line (h : '\n' ∉ a) (hrest : Returned others others') :
    Returned (pieces a ++ ⟨.newline, ['\n']⟩ :: others)
      (pieces (a ++ ['\r']) ++ ⟨.newline, ['\n']⟩ :: others') := by
  fun_induction pieces a with
  | case1 =>
    have hcut : cut '\r' [] = (returnPiece, []) := rfl
    rw [nil_append ['\r'], pieces, hcut, pieces]
    exact .blank hrest
  | case2 c rest ih =>
    rw [show c :: rest ++ ['\r'] = c :: (rest ++ ['\r']) from rfl, pieces]
    rcases cut_return h with ⟨hcut, hclosed⟩ | ⟨hcut, hafter, hopen⟩
    · rw [hcut]
      refine .same _ (fun hshape => ?_) (ih (newline_not_mem_cut h))
      rw [Piece.isOpen, hshape] at hclosed
      cases hclosed
    · rw [hcut, hafter, pieces]
      exact .taken _ hopen (cut_parts c rest).2 hrest

theorem returned_last (h : '\n' ∉ a) : Returned (pieces a) (pieces a) := by
  fun_induction pieces a with
  | case1 => exact .nil
  | case2 c rest ih =>
    by_cases hopen : (cut c rest).1.shape = .string false
    · -- nothing stands behind a string without its closing quote
      rcases cut_return h with ⟨-, hclosed⟩ | ⟨-, hafter, -⟩
      · rw [Piece.isOpen, hopen] at hclosed
        cases hclosed
      · rw [hafter, pieces]
        exact .last _
    · exact .same _ hopen (ih (newline_not_mem_cut h))

/-- **Line by line**, returns change nothing else. -/
theorem pieces_withReturns (source : List Char) :
    Returned (pieces source) (pieces (withReturnsIn source)) := by
  by_cases hmem : '\n' ∈ source
  · obtain ⟨line, rest, hsource, hline⟩ := eq_append_cons_of_mem hmem
    have hshorter : rest.length < source.length := by simp [hsource]; omega
    rw [hsource, withReturnsIn_line hline, pieces_line, pieces_line]
    exact returned_line hline (pieces_withReturns rest)
  · rw [withReturnsIn_last hmem]
    exact returned_last hmem
termination_by source.length

/-! ### Tokens in front of a return -/

/-- A token, without its column if it is the end of a line. -/
def visible (token : Token) : Kind × String × Int × Option Int :=
  (token.kind, token.text, token.line, if token.kind = .newline then none else some token.column)

/-- A token, and the one in its place where every line end has a return in front of it. -/
structure Reread (token token' : Token) : Prop where
  kind : token'.kind = token.kind
  line : token'.line = token.line
  column : token.kind ≠ .newline → token'.column = token.column
  text : token'.text = token.text ∨ token.kind = .string ∧ token'.text = token.text ++ "\r"

theorem Reread.refl (token : Token) : Reread token token := ⟨rfl, rfl, fun _ => rfl, .inl rfl⟩

theorem forall₂_reread_refl : ∀ tokens : List Token, Forall₂ Reread tokens tokens
  | [] => .nil
  | token :: rest => .cons (.refl token) (forall₂_reread_refl rest)

/-- Two scans that agree but for returns, and entirely if all warnings are on a line. -/
structure Rescan (line : Int) (scan scan' : Scan) : Prop where
  fault : scan'.fault = scan.fault
  tokens : Forall₂ Reread scan.tokens scan'.tokens
  unseen : scan'.tokens.map visible = scan.tokens.map visible ↔ ∀ w ∈ scan.warnings, w.line = line

namespace Rescan

variable {line : Int} {scan scan' : Scan} {token token' : Token} {warnings' : List Diagnostic}

theorem refl (h : ∀ w ∈ scan.warnings, w.line = line) : Rescan line scan scan :=
  ⟨rfl, forall₂_reread_refl _, iff_of_true rfl h⟩

/-- A token in front that agrees. -/
theorem before (h : Rescan line scan scan') (htoken : Reread token token')
    (hvisible : visible token' = visible token) :
    Rescan line (scan.before [] [token]) (scan'.before [] [token']) where
  fault := h.fault
  tokens := .cons htoken h.tokens
  unseen := by
    have hunseen := h.unseen
    simpa [Scan.before, hvisible] using hunseen

/-- A token in front that does not agree, with a warning on an earlier line. -/
theorem apart {warning : Diagnostic} (h : Rescan line scan scan') (htoken : Reread token token')
    (hvisible : visible token' ≠ visible token) (hwarning : warning.line ≠ line) :
    Rescan line (scan.before [warning] [token]) (scan'.before warnings' [token']) where
  fault := h.fault
  tokens := .cons htoken h.tokens
  unseen := by
    refine iff_of_false (fun heq => ?_) fun hall => hwarning (hall warning (mem_cons_self ..))
    exact hvisible (List.cons.inj heq).1

end Rescan

/-- Where some pieces end. -/
def lastLine (place : Place) (pieces : List Piece) : Int := (pieces.foldl Place.after place).line

theorem line_le_lastLine (place : Place) (pieces : List Piece) :
    place.line ≤ lastLine place pieces := by
  induction pieces generalizing place with
  | nil => exact Int.le_refl _
  | cons piece rest ih =>
    refine Int.le_trans ?_ (ih (place.after piece))
    unfold Place.after
    split
    · exact Int.le_of_lt (Int.lt_add_one_iff.2 (Int.le_refl _))
    · exact Int.le_refl _

theorem line_after_of_isOpen (h : piece.isOpen = true) (place : Place) :
    (place.after piece).line = place.line := by
  rw [Piece.isOpen, Bool.or_eq_true, decide_eq_true_eq, decide_eq_true_eq] at h
  rcases h with h | h <;> simp only [Place.after, h]

theorem warnings_of_closed (h : piece.shape ≠ .string false) (place : Place) :
    piece.warnings place = [] := by
  unfold Piece.warnings
  split
  · exact absurd ‹_› h
  · rfl

/-- A line end may stand further to the right. -/
theorem rescan_newline {place place' : Place} (hline : place'.line = place.line)
    (h : Rescan (lastLine ⟨place.line + 1, 1⟩ others) (scanFrom ⟨place.line + 1, 1⟩ others)
      (scanFrom ⟨place.line + 1, 1⟩ others')) :
    Rescan (lastLine place (⟨.newline, ['\n']⟩ :: others))
      (scanFrom place (⟨.newline, ['\n']⟩ :: others))
        (scanFrom place' (⟨.newline, ['\n']⟩ :: others')) := by
  have hscan (place : Place) (others : List Piece) : scanFrom place (⟨.newline, ['\n']⟩ :: others) =
      (scanFrom ⟨place.line + 1, 1⟩ others).before []
        [⟨.newline, "\n", place.line, place.column⟩] := rfl
  rw [hscan, hscan, hline]
  exact h.before ⟨rfl, rfl, fun hkind => absurd rfl hkind, .inl rfl⟩ rfl

/-- A string without its closing quote, if it is the last piece, stands on the last line. -/
theorem warnings_last (piece : Piece) (place : Place) :
    ∀ w ∈ (scanFrom place [piece]).warnings, w.line = lastLine place [piece] := by
  intro w hw
  by_cases hopen : piece.shape = .string false
  · simp only [scanFrom, Piece.reading, hopen, Scan.before, Piece.warnings,
      append_nil, mem_singleton] at hw
    rw [hw, lastLine, foldl_cons, foldl_nil, line_after_of_isOpen (by simp [Piece.isOpen, hopen])]
  · cases hreading : piece.reading with
    | token kind text => simp [scanFrom, hreading, Scan.before, warnings_of_closed hopen] at hw
    | nothing | fault => simp [scanFrom, hreading] at hw

/-- **The scans agree** but for returns. -/
theorem Returned.rescan {list list' : List Piece} (h : Returned list list') (place : Place) :
    Rescan (lastLine place list) (scanFrom place list) (scanFrom place list') := by
  induction h generalizing place with
  | nil => exact .refl (forall_mem_nil _)
  | last piece => exact .refl (warnings_last piece place)
  | same piece hclosed h ih =>
    cases hreading : piece.reading with
    | nothing =>
      simp only [scanFrom, hreading]
      exact ih _
    | token kind text =>
      simp only [scanFrom, hreading, warnings_of_closed hclosed]
      exact (ih _).before (.refl _) rfl
    | fault fault =>
      simp only [scanFrom, hreading]
      exact .refl (forall_mem_nil _)
  | blank h ih =>
    rename_i others others'
    have hscan : scanFrom place (returnPiece :: ⟨.newline, ['\n']⟩ :: others') =
        scanFrom (place.after returnPiece) (⟨.newline, ['\n']⟩ :: others') := rfl
    rw [hscan]
    exact rescan_newline rfl (ih _)
  | taken piece hopen hne h ih =>
    rename_i others others'
    have hopen' : piece.withReturn.isOpen = true := hopen
    have hline : (place.after piece.withReturn).line = (place.after piece).line :=
      (line_after_of_isOpen hopen' place).trans (line_after_of_isOpen hopen place).symm
    have hrest := rescan_newline hline (ih _)
    rw [Piece.isOpen, Bool.or_eq_true, decide_eq_true_eq, decide_eq_true_eq] at hopen
    obtain ⟨shape, text⟩ := piece
    rcases hopen with rfl | rfl
    · exact hrest
    · -- the string has the return in its text, and its warning is not on the last line
      have htext : String.ofList ((text ++ ['\r']).drop 1) =
          String.ofList (text.drop 1) ++ "\r" := by
        rw [drop_append_of_le_length (length_pos_iff.2 hne), String.ofList_append]
      have hearlier :
          place.line ≠ lastLine place (⟨.string false, text⟩ :: ⟨.newline, ['\n']⟩ :: others) :=
        Int.ne_of_lt (Int.add_one_le_iff.1 (line_le_lastLine ⟨place.line + 1, 1⟩ others))
      refine hrest.apart ⟨rfl, rfl, fun _ => rfl, .inr ⟨rfl, htext⟩⟩ (fun heq => ?_) hearlier
      have hsame : String.ofList (text.drop 1) ++ "\r" = String.ofList (text.drop 1) :=
        htext.symm.trans (Prod.mk.inj (Prod.mk.inj heq).2).1
      have hlength := congrArg String.length hsame
      rw [String.length_append] at hlength
      exact absurd hlength (Nat.succ_ne_self _)

/-! ### Sources -/

theorem rescan_withReturns (source : String) :
    Rescan (lineCount source) (scan source) (scan (withReturns source)) := by
  have hlast : lastLine {} (pieces (source.toList.map plainChar)) = lineCount source := by
    have hplace := foldl_after_pieces [] (source.toList.map plainChar)
    rw [nil_append, placeBehind_plain] at hplace
    exact congrArg Place.line hplace
  have h := (pieces_withReturns (source.toList.map plainChar)).rescan {}
  rw [hlast] at h
  rw [scan, scan, withReturns, String.toList_ofList, plain_withReturnsIn]
  exact h

/-- **Returns are not seen**, but in strings.  With a return in front of every line end, a source
can be read if it can be read without; the tokens have the same kinds and lines, the same columns
but for line ends, and the same texts but for strings, which may have a return more.  All texts are
the same if and only if every string without its closing quote stands on the last line. -/
theorem returns_unseen_iff (source : String) :
    (scan (withReturns source)).fault = (scan source).fault ∧
      Forall₂ Reread (scan source).tokens (scan (withReturns source)).tokens ∧
      ((scan (withReturns source)).tokens.map visible = (scan source).tokens.map visible ↔
        ∀ w ∈ (scan source).warnings, w.line = lineCount source) :=
  have h := rescan_withReturns source
  ⟨h.fault, h.tokens, h.unseen⟩

/-- **A return in a string.**  The end of the line cuts the string off, and the return belongs to
its text. -/
theorem return_in_string :
    (scan "PRINT \"abc\nCLS").fault = none ∧
      (scan "PRINT \"abc\nCLS").tokens.map (·.text) = ["PRINT", "abc", "\n", "CLS", ""] ∧
      (scan (withReturns "PRINT \"abc\nCLS")).tokens.map (·.text) =
        ["PRINT", "abc\r", "\n", "CLS", ""] := by
  decide +kernel

end BasicScript.Lexer
