import AnnotatedGrammar.Proofs.Token.Tiling

/-!
# Positions of a text

A place in a text is found in two ways: by going over the text up to there, and by looking up its
byte offset in the line table. Both give the same position, and every place that a scan reports is
one that is found so.
-/

namespace AnnotatedGrammar

theorem byteLength_append (text more : List Char) :
    byteLength (text ++ more) = byteLength text + byteLength more := by
  induction text with
  | nil => exact (Nat.zero_add _).symm
  | cons c text ih => rw [List.cons_append, byteLength_cons, ih, byteLength_cons, Nat.add_assoc]

/-! ## Looking up an offset -/

namespace Source

/-- The line that is being read begins where it began, and the other lines begin behind the place
that is reached. -/
theorem exists_splitLines_eq_cons (start offset : Nat) (read text : List Char) :
    ∃ more lines, splitLines start offset read text = ⟨start, read.reverse ++ more⟩ :: lines ∧
      ∀ line ∈ lines, offset < line.start := by
  fun_induction splitLines start offset read text with
  | case1 start offset read => exact ⟨[], [], by rw [List.append_nil], nofun⟩
  | case2 start offset read rest ih =>
    obtain ⟨more, lines, hlines, hbehind⟩ := ih
    refine ⟨[], _, by rw [List.append_nil], ?_⟩
    rw [hlines]
    refine List.forall_mem_cons.mpr ⟨Nat.lt_succ_self offset, fun line hline => ?_⟩
    exact Nat.lt_of_succ_lt (hbehind line hline)
  | case3 start offset read c rest _ ih =>
    obtain ⟨more, lines, hlines, hbehind⟩ := ih
    refine ⟨c :: more, lines, ?_, fun line hline => ?_⟩
    · rw [hlines, List.reverse_cons, List.append_assoc, List.singleton_append]
    · exact Nat.lt_of_le_of_lt (Nat.le_add_right _ _) (hbehind line hline)

/-- The line on which a place lies is the last one that begins at or before it. `p` is the place
from which the rest of the text is read, with `read` before it on its line. -/
theorem exists_line_at (before after : List Char) {start : Nat} {read : List Char} {p : Position}
    (hoffset : p.offset = start + byteLength read.reverse)
    (hcolumn : p.column = read.reverse.length + 1) :
    ∃ index line inside more,
      ((splitLines start p.offset read (before ++ after)).takeWhile
        fun line => line.start ≤ (p.advanceOver before).offset).length = index + 1 ∧
      (splitLines start p.offset read (before ++ after))[index]? = some line ∧
      line.text = inside ++ more ∧
      p.advanceOver before =
        ⟨line.start + byteLength inside, p.line + index, inside.length + 1⟩ := by
  -- a line break ends the line that is read, any other character is put behind it
  induction before generalizing start read p with
  | nil =>
    obtain ⟨more, lines, hlines, hbehind⟩ :=
      exists_splitLines_eq_cons start p.offset read ([] ++ after)
    have hstart : start ≤ p.offset := by omega
    refine ⟨0, ⟨start, read.reverse ++ more⟩, read.reverse, more, ?_, ?_, rfl, ?_⟩
    · rw [hlines, Position.advanceOver_nil, List.takeWhile_cons_of_pos (by simpa using hstart)]
      cases lines with
      | nil => rfl
      | cons line lines =>
        have hline := hbehind line List.mem_cons_self
        rw [List.takeWhile_cons_of_neg (by simpa using hline)]
        rfl
    · rw [hlines]
      rfl
    · rw [Position.advanceOver_nil, ← hoffset, ← hcolumn]
      rfl
  | cons c before ih =>
    rw [List.cons_append, splitLines, Position.advanceOver_cons]
    by_cases hbreak : c = '\n'
    · rw [if_pos hbreak]
      have hnext : p.advance c = ⟨p.offset + 1, p.line + 1, 1⟩ := if_pos hbreak
      obtain ⟨index, line, inside, more, hcount, hline, htext, hplace⟩ :=
        @ih (p.offset + 1) [] (p.advance c) (by rw [hnext]; rfl) (by rw [hnext]; rfl)
      have hstart : start ≤ ((p.advance c).advanceOver before).offset := by
        rw [offset_advanceOver, offset_advance, hoffset, Nat.add_assoc, Nat.add_assoc]
        exact Nat.le_add_right _ _
      refine ⟨index + 1, line, inside, more, ?_, ?_, htext, ?_⟩
      · rw [List.takeWhile_cons_of_pos (by simpa using hstart), List.length_cons]
        rw [hnext] at hcount ⊢
        rw [hcount]
      · rw [hnext] at hline
        exact hline
      · rw [hplace, hnext, Nat.add_assoc, Nat.add_comm 1]
    · rw [if_neg hbreak]
      have hnext : p.advance c = ⟨p.offset + c.utf8Size, p.line, p.column + 1⟩ := if_neg hbreak
      obtain ⟨index, line, inside, more, hline⟩ := @ih start (c :: read) (p.advance c)
        (by
          rw [hnext, List.reverse_cons, byteLength_append, hoffset, byteLength_cons]
          exact Nat.add_assoc ..)
        (by rw [hnext, List.reverse_cons, List.length_append, hcolumn]; rfl)
      refine ⟨index, line, inside, more, ?_⟩
      rw [hnext] at hline ⊢
      exact hline

/-- The line table finds the place behind any beginning of the text. -/
theorem Lines.positionAt_byteLength (before after : List Char) :
    (ofText (before ++ after)).positionAt (byteLength before) =
      Position.start.advanceOver before := by
  obtain ⟨index, line, inside, more, hcount, hline, htext, hplace⟩ :=
    @exists_line_at before after 0 [] Position.start rfl rfl
  have hoffset : byteLength before = line.start + byteLength inside := by
    have := congrArg Position.offset hplace
    rwa [offset_advanceOver, Position.start, Nat.zero_add] at this
  have hsize : min (byteLength before) (ofText (before ++ after)).size = byteLength before := by
    apply Nat.min_eq_left
    rw [ofText, byteLength_append]
    exact Nat.le_add_right _ _
  have hindex : (ofText (before ++ after)).lineIndexAt (byteLength before) = index := by
    rw [offset_advanceOver, Position.start, Nat.zero_add] at hcount
    rw [lineIndexAt, ofText, hcount, Nat.add_sub_cancel]
  have hat : (ofText (before ++ after)).lines.getD index ⟨0, []⟩ = line := by
    rw [Array.getD_eq_getD_getElem?, ofText, List.getElem?_toArray]
    exact congrArg (Option.getD · _) hline
  have hcolumn : splitAtByte (byteLength before - line.start) line.text = some (inside, more) := by
    rw [hoffset, Nat.add_sub_cancel_left, htext, splitAtByte_append]
  rw [hplace, positionAt, hsize, hindex, hat, hcolumn, hoffset, Nat.add_comm index]
  rfl

end Source

/-! ## Places that are reached -/

/-- Going on over some beginning of a text leads to a place. -/
def Position.Reaches (start : Position) (text : List Char) (p : Position) : Prop :=
  ∃ before, before <+: text ∧ start.advanceOver before = p

section Reaches

variable {start p : Position} {text : List Char}

theorem Position.reaches_start (start : Position) (text : List Char) : start.Reaches text start :=
  ⟨[], List.nil_prefix, rfl⟩

theorem Position.reaches_stop (start : Position) (text : List Char) :
    start.Reaches text (start.advanceOver text) :=
  ⟨text, List.prefix_rfl, rfl⟩

theorem Position.Reaches.mono {more : List Char} (h : start.Reaches text p)
    (htext : text <+: more) :
    start.Reaches more p := by
  obtain ⟨before, hbefore, hp⟩ := h
  exact ⟨before, hbefore.trans htext, hp⟩

theorem Position.Reaches.behind (before : List Char)
    (h : (start.advanceOver before).Reaches text p) : start.Reaches (before ++ text) p := by
  obtain ⟨inside, hinside, hp⟩ := h
  refine ⟨before ++ inside, (List.prefix_append_right_inj before).mpr hinside, ?_⟩
  rw [advanceOver_append, hp]

theorem Position.Reaches.le_start (h : start.Reaches text p) : start.offset ≤ p.offset := by
  obtain ⟨before, -, rfl⟩ := h
  rw [offset_advanceOver]
  exact Nat.le_add_right _ _

theorem Position.Reaches.le_stop (h : start.Reaches text p) :
    p.offset ≤ (start.advanceOver text).offset := by
  obtain ⟨before, ⟨rest, rfl⟩, rfl⟩ := h
  rw [advanceOver_append, offset_advanceOver (start.advanceOver before)]
  exact Nat.le_add_right _ _

end Reaches

/-- Errors whose places are reached from `start` within a text, in the order in which they end. -/
structure ReportedWithin (start : Position) (text : List Char) (errors : List LexicalError) :
    Prop where
  starts : ∀ e ∈ errors, start.Reaches text e.span.start
  stops : ∀ e ∈ errors, start.Reaches text e.span.stop
  ordered : errors.Pairwise fun a b => a.span.stop.offset ≤ b.span.stop.offset

namespace ReportedWithin

variable {start : Position} {text more : List Char} {errors later : List LexicalError}
  {e : LexicalError}

theorem nil (start : Position) (text : List Char) : ReportedWithin start text [] :=
  ⟨nofun, nofun, .nil⟩

theorem mono (h : ReportedWithin start text errors) (htext : text <+: more) :
    ReportedWithin start more errors :=
  ⟨fun e he => (h.starts e he).mono htext, fun e he => (h.stops e he).mono htext, h.ordered⟩

theorem append (h : ReportedWithin start text errors)
    (hlater : ReportedWithin (start.advanceOver text) more later) :
    ReportedWithin start (text ++ more) (errors ++ later) := by
  constructor
  · intro e he
    rcases List.mem_append.mp he with he | he
    · exact (h.starts e he).mono (List.prefix_append text more)
    · exact (hlater.starts e he).behind text
  · intro e he
    rcases List.mem_append.mp he with he | he
    · exact (h.stops e he).mono (List.prefix_append text more)
    · exact (hlater.stops e he).behind text
  · apply List.pairwise_append.mpr
    refine ⟨h.ordered, hlater.ordered, fun a ha b hb => ?_⟩
    exact (h.stops a ha).le_stop.trans (hlater.stops b hb).le_start

/-- An error that ends with the text comes last. -/
theorem concat (h : ReportedWithin start text errors) (hstart : start.Reaches text e.span.start)
    (hstop : e.span.stop = start.advanceOver text) :
    ReportedWithin start text (errors ++ [e]) := by
  constructor
  · intro a ha
    rcases List.mem_append.mp ha with ha | ha
    · exact h.starts a ha
    · rwa [List.mem_singleton.mp ha]
  · intro a ha
    rcases List.mem_append.mp ha with ha | ha
    · exact h.stops a ha
    · rw [List.mem_singleton.mp ha, hstop]
      exact start.reaches_stop text
  · apply List.pairwise_append.mpr
    refine ⟨h.ordered, List.pairwise_singleton _ _, fun a ha b hb => ?_⟩
    rw [List.mem_singleton.mp hb, hstop]
    exact (h.stops a ha).le_stop

theorem whole (start : Position) (text : List Char) (fault : LexicalFault) :
    ReportedWithin start text [⟨fault, ⟨start, start.advanceOver text⟩⟩] :=
  (nil start text).concat (start.reaches_start text) rfl

end ReportedWithin

/-! ## Errors of one piece -/

theorem LiteralPart.faults_reported (start : Position) (parts : List LiteralPart) :
    ReportedWithin start (parts.flatMap LiteralPart.text) (LiteralPart.faults start parts) := by
  induction parts generalizing start with
  | nil => exact .nil start _
  | cons part parts ih =>
    rw [List.flatMap_cons]
    have hrest := ih (start.advanceOver part.text)
    cases part with
    | plain | escape | backslash => exact (ReportedWithin.nil start _).append hrest
    | unknownEscape c => exact (ReportedWithin.whole start _ (.invalidEscape c)).append hrest

/-- The text of a piece begins with what the places of its errors are taken from. -/
def Piece.Opens (piece : Piece) : Prop :=
  match piece.reading with
  | .openComment => ['(', '*'] <+: piece.text
  | .literal parts | .openLiteral parts =>
    ∃ quote, (quote = '\'' ∨ quote = '"') ∧
      quote :: parts.flatMap LiteralPart.text <+: piece.text
  | _ => True

theorem Piece.opens_ofLiteral {quote : Char} (hquote : quote = '\'' ∨ quote = '"')
    (rest : List Char) : (ofLiteral quote rest).1.Opens := by
  unfold ofLiteral
  dsimp only
  split
  · exact ⟨quote, hquote, List.prefix_rfl⟩
  · split
    · refine ⟨quote, hquote, ?_⟩
      rw [← List.cons_append]
      exact List.prefix_append _ _
    · exact ⟨quote, hquote, List.prefix_rfl⟩

theorem Piece.opens_next (c : Char) (rest : List Char) : (next c rest).1.Opens := by
  unfold next
  split
  · trivial
  split
  · trivial
  split
  · trivial
  split
  · unfold ofBlockComment
    split
    · trivial
    · exact ⟨_, rfl⟩
  split
  next hquote => exact opens_ofLiteral hquote rest
  split
  · unfold ofPattern
    split
    · trivial
    · split <;> trivial
    · trivial
  split
  · trivial
  split <;> trivial

/-- The errors of a literal's parts lie within the text of the piece. -/
theorem LiteralPart.faults_reported_behind_quote {quote : Char} {text : List Char}
    {parts : List LiteralPart} (start : Position) (hquote : quote = '\'' ∨ quote = '"')
    (htext : quote :: parts.flatMap LiteralPart.text <+: text) :
    ReportedWithin start text (LiteralPart.faults (start.advance '"') parts) := by
  have hadvance : start.advance '"' = start.advanceOver [quote] := by
    rcases hquote with rfl | rfl <;> rfl
  rw [hadvance]
  exact ((ReportedWithin.nil start [quote]).append (faults_reported _ parts)).mono htext

theorem PlacedPiece.faults_reported {piece : Piece} (start : Position) (h : piece.Opens) :
    ReportedWithin start piece.text
      (faults ⟨piece, ⟨start, start.advanceOver piece.text⟩⟩) := by
  obtain ⟨text, reading⟩ := piece
  cases reading with
  | blank | lineBreak | pattern | symbol => exact .nil start text
  | badPattern | stray => exact .whole start text _
  | lineComment | blockComment | word =>
    unfold faults
    dsimp only
    split
    · exact .whole start text _
    · exact .nil start text
  | openComment =>
    constructor
    · exact List.forall_mem_singleton.mpr (start.reaches_start text)
    · exact List.forall_mem_singleton.mpr ((start.reaches_stop _).mono h)
    · exact List.pairwise_singleton _ _
  | openLiteral parts =>
    obtain ⟨quote, hquote, htext⟩ := h
    exact (LiteralPart.faults_reported_behind_quote start hquote htext).concat
      (start.reaches_start text) rfl
  | literal parts =>
    obtain ⟨quote, hquote, htext⟩ := h
    have hparts := LiteralPart.faults_reported_behind_quote start hquote htext
    unfold faults
    dsimp only
    split
    · exact hparts.concat (start.reaches_start text) rfl
    split
    · exact hparts.concat (start.reaches_start text) rfl
    · rwa [List.append_nil]

/-! ## Everything a scan reports -/

theorem laidFrom_faults_reported (start : Position) {pieces : List Piece}
    (h : ∀ piece ∈ pieces, piece.Opens) :
    ReportedWithin start (pieces.flatMap Piece.text)
      ((laidFrom start pieces).flatMap PlacedPiece.faults) := by
  induction pieces generalizing start with
  | nil => exact .nil start _
  | cons piece rest ih =>
    rw [List.forall_mem_cons] at h
    exact (PlacedPiece.faults_reported start h.1).append (ih _ h.2)

theorem laidFrom_reaches (start : Position) {pieces : List Piece} {p : PlacedPiece}
    (hp : p ∈ laidFrom start pieces) :
    start.Reaches (pieces.flatMap Piece.text) p.span.start ∧
      start.Reaches (pieces.flatMap Piece.text) p.span.stop := by
  induction pieces generalizing start with
  | nil => cases hp
  | cons piece rest ih =>
    rw [List.flatMap_cons]
    rcases List.mem_cons.mp hp with rfl | hp
    · exact ⟨start.reaches_start _, (start.reaches_stop _).mono (List.prefix_append _ _)⟩
    · obtain ⟨hstart, hstop⟩ := ih _ hp
      exact ⟨hstart.behind _, hstop.behind _⟩

namespace Scan

/-- A scan places the first pieces of the text, as far as it gets. -/
theorem exists_placed_eq (read : List PlacedPiece) (count : Nat) (start : Position)
    (pieces : List Piece) :
    ∃ taken, taken <+: pieces ∧
      (place read count start pieces).placed = read.reverse ++ laidFrom start taken ∧
      (place read count start pieces).stop = start.advanceOver (taken.flatMap Piece.text) := by
  fun_induction place read count start pieces with
  | case1 read _ start => exact ⟨[], List.prefix_rfl, (List.append_nil _).symm, rfl⟩
  | case2 read _ start => exact ⟨[], List.nil_prefix, (List.append_nil _).symm, rfl⟩
  | case3 read count start piece rest _ stop placed _ ih =>
    obtain ⟨taken, htaken, hplaced, hstop⟩ := ih
    refine ⟨piece :: taken, (List.prefix_cons_inj piece).mpr htaken, ?_, ?_⟩
    · rw [hplaced, List.reverse_cons, List.append_assoc]
      rfl
    · rw [hstop, List.flatMap_cons, Position.advanceOver_append]

/-- Both ways to a position agree: the line table finds, at the offset of any beginning of the text,
the place that one reaches by going over it; every token and every error of a scan lies between two
such places, and the errors are in the order in which they end. -/
theorem positions_agree (text : List Char) :
    (∀ before after, before ++ after = text →
      (Source.Lines.ofText text).positionAt (byteLength before) =
        Position.start.advanceOver before) ∧
    (∀ token ∈ (ofText text).tokens,
      Position.start.Reaches text token.span.start ∧
        Position.start.Reaches text token.span.stop) ∧
    ReportedWithin Position.start text (ofText text).errors := by
  obtain ⟨taken, htaken, hplaced, hstop⟩ :=
    exists_placed_eq [] 0 Position.start (Piece.cut text)
  rw [List.reverse_nil, List.nil_append] at hplaced
  have htext : taken.flatMap Piece.text <+: text := by
    obtain ⟨rest, hrest⟩ := htaken
    refine ⟨rest.flatMap Piece.text, ?_⟩
    rw [← List.flatMap_append, hrest, Piece.flatMap_text_cut]
  have hopens : ∀ piece ∈ taken, piece.Opens := by
    intro piece hpiece
    obtain ⟨c, rest, rfl⟩ := Piece.exists_next_of_mem_cut (htaken.subset hpiece)
    exact Piece.opens_next c rest
  have hreached : Position.start.Reaches text (ofText text).stop := by
    rw [ofText, hstop]
    exact (Position.start.reaches_stop _).mono htext
  refine ⟨?_, ?_, ?_⟩
  · rintro before after rfl
    exact Source.Lines.positionAt_byteLength before after
  · intro token htoken
    rw [tokens, words, ofText, hplaced, List.mem_append] at htoken
    rcases htoken with hword | hlast
    · obtain ⟨p, hp, hpt⟩ := List.mem_filterMap.mp hword
      obtain ⟨value, -, rfl⟩ := Option.map_eq_some_iff.mp hpt
      obtain ⟨hpstart, hpstop⟩ := laidFrom_reaches _ hp
      exact ⟨hpstart.mono htext, hpstop.mono htext⟩
    · rw [List.mem_singleton.mp hlast]
      exact ⟨hreached, hreached⟩
  · have hfaults := laidFrom_faults_reported Position.start hopens
    rw [← hplaced] at hfaults
    unfold errors
    split
    · refine (hfaults.concat ?_ hstop).mono htext
      rw [Span.point, ofText, hstop]
      exact Position.start.reaches_stop _
    · rw [List.append_nil]
      exact hfaults.mono htext

/-- Characters of one to three bytes on lines that end in two ways, and a literal that is not
closed. -/
theorem positions_agree_multibyte :
    "é\r\n→\n".toList ++ "'a".toList = "é\r\n→\n'a".toList ∧
    (Source.Lines.ofText "é\r\n→\n'a".toList).positionAt 8 = ⟨8, 3, 1⟩ ∧
    ∃ e ∈ (ofText "é\r\n→\n'a".toList).errors,
      Position.start.Reaches "é\r\n→\n'a".toList e.span.start ∧
        Position.start.Reaches "é\r\n→\n'a".toList e.span.stop := by
  obtain ⟨hlookup, -, hreported⟩ := positions_agree "é\r\n→\n'a".toList
  have hfault : (ofText "é\r\n→\n'a".toList).errors ≠ [] := by
    decide +kernel
  obtain ⟨e, he⟩ := List.exists_mem_of_ne_nil _ hfault
  refine ⟨rfl, ?_, e, he, hreported.starts e he, hreported.stops e he⟩
  exact hlookup "é\r\n→\n".toList "'a".toList rfl

end Scan
end AnnotatedGrammar
