import BasicScript.Proofs.DataTable

/-!
# The values of data

What the announced data of a program comes to.  The data of a program is cut twice: the tokens into
segments, which begin behind a `DATA` keyword that is in no other segment (`Segments`), and a
segment into items with commas between them (`Itemized`).  Each item has one value, a number or a
literal, and the values stand in one array of the program.

`announced_values`: there are as many values as items, each decodes to its item, and cutting the
text of the array at its commas outside literals (`arrayElements`) gives the values back, although
literals have commas and quotes too.
-/

namespace BasicScript

open Emit

variable {tape : Tape} {value : String} {values : List String} {span : Span}
    {tokens item : List Token}
  {items : List (List Token)}

/-! ### Segments -/

/-- Where the data of a program is: the segments are apart, each begins behind a `DATA` keyword and
ends in front of the next token that ends data, and every `DATA` keyword begins one or is in one. -/
structure Segments (tape : Tape) (spans : List Span) : Prop where
  ordered : spans.Pairwise fun a b => a.2 < b.1
  announcedAt : ∀ span ∈ spans, tape.AnnouncedAt span
  keyword : ∀ span ∈ spans, ∃ token, tape.tokens[(span.1 - 1).toNat]? = some token ∧
    token.isKeyword "DATA" = true
  covered : ∀ (n : Nat) token, tape.tokens[n]? = some token → token.isKeyword "DATA" = true →
    ∃ span ∈ spans, span.1 ≤ n + 1 ∧ n + 1 ≤ span.2

theorem exists_keyword_of_mem (inData : Bool) {rest : List Token} {place : Int}
    (h : span ∈ dataSpans inData place rest) :
    ∃ (n : Nat) (token : Token), span.1 = place + n + 1 ∧ rest[n]? = some token ∧
      token.isKeyword "DATA" = true := by
  induction rest generalizing inData place with
  | nil => cases h
  | cons token rest ih =>
    have hlater {inData : Bool} (h : span ∈ dataSpans inData (place + 1) rest) :
        ∃ (n : Nat) (t : Token), span.1 = place + n + 1 ∧ (token :: rest)[n]? = some t ∧
          t.isKeyword "DATA" = true := by
      obtain ⟨n, t, hspan, ht, hdata⟩ := ih inData h
      exact ⟨n + 1, t, by omega, ht, hdata⟩
    unfold dataSpans at h
    split at h
    · exact hlater h
    split at h
    · rename_i hdata
      rcases List.mem_cons.1 h with rfl | h
      · exact ⟨0, token, by simp, rfl, hdata⟩
      · exact hlater h
    · exact hlater h

theorem segments_announcedSpans (tape : Tape) : Segments tape (announcedSpans tape.tokens) where
  ordered := pairwise_dataSpans ..
  announcedAt := announcedAt_dataSpans false (List.nil_append _).symm rfl
  keyword span hspan := by
    obtain ⟨n, token, hn, htoken, hdata⟩ := exists_keyword_of_mem false hspan
    refine ⟨token, ?_, hdata⟩
    rw [show (span.1 - 1).toNat = n by omega, ← Array.getElem?_toList]
    exact htoken
  covered n token hn hdata := by
    rw [← Array.getElem?_toList] at hn
    rcases exists_span_of_data false hn hdata with ⟨span, hspan, hstart, hstop⟩ | ⟨hno, -⟩
    · exact ⟨span, hspan, by omega, by omega⟩
    · cases hno

/-! ### Items -/

/-- Tokens that are items with commas between them. -/
inductive Itemized : List Token → List (List Token) → Prop where
  | last {item : List Token} (h : ∀ token ∈ item, token.isMark "," = false) : Itemized item [item]
  | next {item rest : List Token} {comma : Token} {items : List (List Token)}
      (h : ∀ token ∈ item, token.isMark "," = false) (hcomma : comma.isMark "," = true)
      (hrest : Itemized rest items) : Itemized (item ++ comma :: rest) (item :: items)

/-- A token that is no comma goes to the first item. -/
theorem Itemized.cons {token : Token} (h : Itemized tokens (item :: items))
    (htoken : token.isMark "," = false) :
    Itemized (token :: tokens) ((token :: item) :: items) := by
  cases h with
  | last h => exact .last (List.forall_mem_cons.2 ⟨htoken, h⟩)
  | next h hcomma hrest =>
    exact @Itemized.next (token :: item) _ _ _ (List.forall_mem_cons.2 ⟨htoken, h⟩) hcomma hrest

theorem itemized_splitItems (tokens : List Token) : Itemized tokens (splitItems tokens) := by
  fun_induction splitItems tokens with
  | case1 => exact .last (List.forall_mem_nil _)
  | case2 token rest hcomma ih => exact @Itemized.next [] _ _ _ (List.forall_mem_nil _) hcomma ih
  | case3 token rest hcomma hnil => exact absurd hnil (splitItems_ne_nil rest)
  | case4 token rest hcomma item items hitems ih =>
    rw [hitems] at ih
    exact ih.cons (by simpa using hcomma)

theorem Itemized.length_eq (h : Itemized tokens items) :
    items.length = tokens.countP (·.isMark ",") + 1 := by
  have hnone {item : List Token} (h : ∀ token ∈ item, token.isMark "," = false) :
      item.countP (·.isMark ",") = 0 :=
    List.countP_eq_zero.2 fun token htoken => by simp [h token htoken]
  induction h with
  | last h => rw [hnone h, List.length_singleton]
  | @next item rest comma items h hcomma _ ih =>
    have hone : (comma :: rest).countP (·.isMark ",") = rest.countP (·.isMark ",") + 1 :=
      List.countP_cons_of_pos hcomma
    rw [List.countP_append, hnone h, hone, List.length_cons, ih, Nat.zero_add]

/-- The values of a segment: one for each item, and a text if the item is no number. -/
def SegmentValues (tokens : Array Token) (span : Span) (values : List String) : Prop :=
  ∃ items, Itemized (tokensIn tokens span) items ∧
    values.length = (tokensIn tokens span).countP (·.isMark ",") + 1 ∧
    List.Forall₂ (fun item value => DataValue item value ∧
      (isNumeric item = false → Script.decode value = some (itemText item))) items values

theorem DataValue.decode_eq (h : DataValue item value)
    (hitem : isNumeric item = false) : Script.decode value = some (itemText item) := by
  cases h with
  | number hkind => simp [isNumeric, hkind] at hitem
  | positive hkind hsign | negative hkind hsign => simp [isNumeric, hkind, hsign] at hitem
  | text => exact Script.decode_literal _

theorem segmentValues_of_forall₂ {tokens : Array Token}
    (h : List.Forall₂ (fun item value => dataLiteral item = .ok value)
      (splitItems (tokensIn tokens span)) values) :
    SegmentValues tokens span values := by
  have hitems := itemized_splitItems (tokensIn tokens span)
  refine ⟨_, hitems, h.length_eq ▸ hitems.length_eq, h.imp fun item value hliteral => ?_⟩
  have hvalue := dataValue_of_dataLiteral hliteral
  exact ⟨hvalue, hvalue.decode_eq⟩

/-- The values of some spans, span by span. -/
theorem exists_table {tokens : Array Token} {spans : List Span}
    (h : tableOf tokens spans = .ok values) :
    ∃ table, values = table.flatten ∧ List.Forall₂ (SegmentValues tokens) spans table := by
  have hvalues := forall₂_of_mapM h
  clear h
  induction spans generalizing values with
  | nil =>
    cases hvalues
    exact ⟨[], rfl, .nil⟩
  | cons span spans ih =>
    rw [itemsIn_cons] at hvalues
    have hfirst := (List.forall₂_take_append _ _ _ hvalues.flip).flip
    obtain ⟨table, hrest, htable⟩ := ih (List.forall₂_drop_append _ _ _ hvalues.flip).flip
    refine ⟨_ :: table, ?_, .cons (segmentValues_of_forall₂ hfirst) htable⟩
    rw [List.flatten_cons, ← hrest, List.take_append_drop]

/-! ### The array -/

namespace Script

/-- Where a reader of code and literals stands behind a character. -/
def Mode.behind (mode : Mode) (c : Char) : Mode :=
  match mode with
  | .quote => if c = '"' then .code else if c = '\\' then .escape else .quote
  | .escape => .quote
  | _ => if c = '"' then .quote else .code

/-- Text cut at its commas outside literals. -/
def cutCommas (mode : Mode) : List Char → List (List Char)
  | [] => [[]]
  | c :: rest =>
    if mode = .code ∧ c = ',' then [] :: cutCommas .code rest
    else (cutCommas (mode.behind c) rest).modifyHead (c :: ·)

/-- The elements of an array whose text between the brackets is given. -/
def arrayElements (inside : String) : List String :=
  if inside = "" then []
  else (cutCommas .code inside.toList).map fun piece => String.ofList (piece.dropWhile (· = ' '))

/-- A text that is not cut, and that a blank in front of it is no part of. -/
structure Element (value : List Char) : Prop where
  uncut : ∀ rest, cutCommas .code (value ++ rest) = (cutCommas .code rest).modifyHead (value ++ ·)
  first : ∃ c back, value = c :: back ∧ c ≠ ' '

theorem cutCommas_plain {cs : List Char} (h : Plain cs) (rest : List Char) :
    cutCommas .code (cs ++ rest) = (cutCommas .code rest).modifyHead (cs ++ ·) := by
  induction cs with
  | nil => exact (congrFun List.modifyHead_id _).symm
  | cons c cs ih =>
    obtain ⟨hc, hcs⟩ := List.forall_mem_cons.1 h
    have hcomma : c ≠ ',' := by rintro rfl; cases hc
    have hquote : c ≠ '"' := by rintro rfl; cases hc
    have hcode : Mode.code.behind c = .code := if_neg hquote
    rw [List.cons_append, cutCommas, if_neg fun hcut => hcomma hcut.2, hcode, ih hcs,
      List.modifyHead_modifyHead]
    rfl

/-- No comma is seen in a literal, up to the quote that ends it. -/
theorem cutCommas_literalBody {body : List Char} (h : LiteralBody body) (rest : List Char) :
    cutCommas .quote (body ++ '"' :: rest) = (cutCommas .code rest).modifyHead
      (body ++ '"' :: ·) := by
  induction h with
  | nil => rfl
  | char hquote hescape _ ih =>
    rw [List.cons_append, cutCommas, if_neg (by simp), Mode.behind,
      if_neg hquote, if_neg hescape, ih, List.modifyHead_modifyHead]
    rfl
  | @escape c rest' _ ih =>
    -- the character behind the backslash is passed over, whatever it is
    have hfirst : cutCommas .quote ('\\' :: (c :: rest' ++ '"' :: rest)) =
        (cutCommas .escape (c :: rest' ++ '"' :: rest)).modifyHead ('\\' :: ·) := rfl
    have hsecond : cutCommas .escape (c :: rest' ++ '"' :: rest) =
        (cutCommas .quote (rest' ++ '"' :: rest)).modifyHead (c :: ·) := rfl
    rw [List.cons_append, hfirst, hsecond, ih, List.modifyHead_modifyHead,
      List.modifyHead_modifyHead]
    rfl

theorem element_literal (text : String) : Element (literal text).toList where
  uncut rest := by
    have hquote (rest : List Char) :
        cutCommas .code ('"' :: rest) = (cutCommas .quote rest).modifyHead ('"' :: ·) := rfl
    rw [toList_literal, List.cons_append, List.append_assoc, List.singleton_append, hquote,
      cutCommas_literalBody (literalBody_escape _), List.modifyHead_modifyHead]
    simp only [Function.comp_def, List.cons_append, List.append_assoc, List.nil_append]
  first := ⟨_, _, toList_literal text, by decide⟩

theorem Wordy.element (h : Wordy value) : Element value.toList where
  uncut := cutCommas_plain h.2
  first := by
    obtain ⟨c, back, hvalue⟩ := List.exists_cons_of_ne_nil (by simpa using h.1 : value.toList ≠ [])
    refine ⟨c, back, hvalue, ?_⟩
    have hc := h.2 c (hvalue ▸ .head _)
    rintro rfl
    cases hc

theorem cutCommas_commas (h : ∀ v ∈ value :: values, Element v.toList) :
    cutCommas .code (Text.commas (value :: values)).toList = value.toList :: values.map fun v =>
      ' ' :: v.toList := by
  induction values generalizing value with
  | nil =>
    have hone := (h value (.head _)).uncut []
    rwa [List.append_nil, cutCommas, List.modifyHead_cons, List.append_nil] at hone
  | cons next values ih =>
    obtain ⟨hvalue, hrest⟩ := List.forall_mem_cons.1 h
    have hblank (rest : List Char) :
        cutCommas .code (',' :: ' ' :: rest) = [] :: (cutCommas .code rest).modifyHead (' ' :: ·) :=
          rfl
    have hjoined : (Text.commas (value :: next :: values)).toList =
        value.toList ++ ',' :: ' ' :: (Text.commas (next :: values)).toList := by
      simp [Text.commas]
    rw [hjoined, hvalue.uncut, hblank, ih hrest]
    simp

/-- **The elements of an array** are the values that it was made from. -/
theorem arrayElements_commas (h : ∀ value ∈ values, Element value.toList) :
    arrayElements (Text.commas values) = values := by
  cases values with
  | nil => rfl
  | cons value values =>
    have hstrip (v : String) (hv : v ∈ value :: values) :
        v.toList.dropWhile (· = ' ') = v.toList := by
      obtain ⟨c, back, hfirst, hc⟩ := (h v hv).first
      rw [hfirst, List.dropWhile_cons_of_neg (by simpa using hc)]
    have hne : Text.commas (value :: values) ≠ "" := by
      intro hempty
      have hcut := cutCommas_commas h
      obtain ⟨c, back, hfirst, -⟩ := (h value (.head _)).first
      rw [hempty, hfirst] at hcut
      cases hcut
    rw [arrayElements, if_neg hne, cutCommas_commas h, List.map_cons,
      List.map_map, hstrip value (.head _), String.ofList_toList]
    refine congrArg (value :: ·) ((List.map_congr_left fun v hv => ?_).trans (List.map_id _))
    simp [hstrip v (.tail _ hv)]

end Script

theorem DataValue.element (h : DataValue item value) : Script.Element value.toList := by
  cases h with
  | number _ hvalue | positive _ _ hvalue => exact (Script.wordy_of_number hvalue).element
  | negative _ _ hvalue =>
    have hminus : Script.Wordy "-" := ⟨by decide, by decide⟩
    exact (hminus.append (Script.wordy_of_number hvalue).2).element
  | text => exact Script.element_literal _

/-- **The values of data.**  If the announcements of a program are taken in, each of its segments
has one value more than commas, in order: a number with its sign, or else a literal that decodes to
the words of the item.  Cutting the array of the program at its commas outside literals gives back
the values. -/
theorem announced_values (tape : Tape) (s s' : State) (h : announce tape.tokens s = .ok () s') :
    ∃ (spans : List Span) (table : List (List String)),
      Segments tape spans ∧ s'.dataValues = s.dataValues ++ table.flatten ∧
      List.Forall₂ (SegmentValues tape.tokens) spans table ∧
      ∃ inside, Target.dataLine table.flatten = "const _DATA = [" ++ inside ++ "];" ∧
        Script.arrayElements inside = table.flatten := by
  obtain ⟨values, htable, hs'⟩ := announce_tableOf h
  obtain ⟨table, rfl, hsegments⟩ := exists_table htable
  exact ⟨_, table, segments_announcedSpans tape, hs', hsegments, _, rfl,
    Script.arrayElements_commas fun value hvalue =>
    (exists_dataValue htable value hvalue).elim fun _ h => h.element⟩

/-- Two segments with signs, empty items, and a comma, a quote and a backslash in items. -/
def mixedData : String := "DATA -1, \"a, b\\\",\nx = 2: DATA + 3,, b \"c"

/-- All of it is in the array as it was announced. -/
theorem mixedData_values :
    ∃ s' inside, announce (Lexer.scan mixedData).tokens.toArray
      { collector := .empty } = .ok () s' ∧
      s'.dataValues = ["-1", "\"a, b\\\\\"", "\"\"", "3", "\"\"", "\"b c\""] ∧
      Target.dataLine s'.dataValues = "const _DATA = [" ++ inside ++ "];" ∧
      Script.arrayElements inside = s'.dataValues := by
  have hread : (Lexer.scan mixedData).fault = none := by decide +kernel
  have hvalues :
      EStateM.run' ((announce >>= fun _ => return (← get).dataValues)
        (Lexer.scan mixedData).tokens.toArray)
        { collector := .empty } = some ["-1", "\"a, b\\\\\"", "\"\"", "3", "\"\"", "\"b c\""] := by
    decide +kernel
  delta EStateM.run' EStateM.run at hvalues
  cases hannounce : announce (Lexer.scan mixedData).tokens.toArray { collector := .empty } with
  | error failure s' =>
    rw [bind_error hannounce] at hvalues
    cases hvalues
  | ok _ s' =>
    rw [bind_ok hannounce] at hvalues
    obtain ⟨spans, table, -, hs', -, inside, hline, helements⟩ :=
      announced_values (Tape.ofSource mixedData hread) { collector := .empty } s' hannounce
    have hs' : s'.dataValues = table.flatten := hs'
    rw [← hs'] at hline helements
    exact ⟨s', inside, rfl, Option.some.inj hvalues, hline, helements⟩

end BasicScript
