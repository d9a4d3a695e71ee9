import AnnotatedGrammar.Proofs.Token.Tiling

/-!
# Lexical recovery at a line break

Only a block comment goes on behind a line break; whatever else is being read ends there as it would
at the end of the text. So a text is cut at a line break into the pieces before it, the line break
and the pieces behind it, however wrong they are, and the scan of the whole is the two scans one
below the other.
-/

namespace AnnotatedGrammar

variable {before behind : List Char}

/-! ## Cutting at a line break -/

namespace Piece

/-- The piece that a line break is. -/
def newline : Piece := ⟨['\n'], .lineBreak⟩

theorem run_lineBreak {p : Char → Bool} (hp : p '\n' = false) (before behind : List Char) :
    (before ++ '\n' :: behind).takeWhile p = before.takeWhile p ∧
      (before ++ '\n' :: behind).dropWhile p = before.dropWhile p ++ '\n' :: behind := by
  induction before with
  | nil => simp [hp]
  | cons c before ih =>
    obtain ⟨htake, hdrop⟩ := ih
    cases hc : p c with
    | true => simp [hc, htake, hdrop]
    | false => simp [hc]

theorem literalParts_lineBreak (quote : Char) (read : List LiteralPart)
    (before behind : List Char) :
    literalParts quote read (before ++ '\n' :: behind) =
      ((literalParts quote read before).1,
        (literalParts quote read before).2 ++ '\n' :: behind) := by
  fun_induction literalParts quote read before with
  | case1 => simp [literalParts.eq_def]
  | case2 read c rest hend => simp [literalParts.eq_def, hend]
  | case3 read hend | case4 read rest hend =>
    rw [List.cons_append, literalParts.eq_def]
    simp only [hend, if_true, if_false]
    rfl
  | case5 read escaped rest hline meant hmeant hend ih =>
    rw [List.cons_append, List.cons_append, literalParts.eq_def]
    simp only [hend, hline, hmeant, if_true, if_false]
    exact ih
  | case6 read escaped rest hline hmeant hend ih =>
    rw [List.cons_append, List.cons_append, literalParts.eq_def]
    simp only [hend, hline, hmeant, if_true, if_false]
    exact ih
  | case7 read c rest hend hslash ih =>
    rw [List.cons_append, literalParts.eq_def]
    simp only [hend, hslash, if_false]
    exact ih

theorem ofLiteral_lineBreak {quote : Char} (hquote : quote ≠ '\n') (before behind : List Char) :
    ofLiteral quote (before ++ '\n' :: behind) =
      ((ofLiteral quote before).1, (ofLiteral quote before).2 ++ '\n' :: behind) := by
  unfold ofLiteral
  rw [literalParts_lineBreak]
  rcases literalParts quote [] before with ⟨parts, _ | ⟨c, after⟩⟩
  · simp [hquote.symm]
  · by_cases hc : c = quote <;> simp [hc]

theorem ofPattern_lineBreak (before behind : List Char) :
    ofPattern (before ++ '\n' :: behind) =
      ((ofPattern before).1, (ofPattern before).2 ++ '\n' :: behind) := by
  obtain ⟨htake, hdrop⟩ := run_lineBreak (p := isNameChar) (by decide) before behind
  unfold ofPattern
  rw [htake, hdrop]
  rcases before.takeWhile isNameChar with _ | ⟨c, name⟩
  · rfl
  · rcases before.dropWhile isNameChar with _ | ⟨d, after⟩
    · simp
    · by_cases hd : d = '>'
      · subst hd
        simp only [List.cons_append]
        cases Pattern.ofName? (String.ofList (c :: name)) <;> rfl
      · simp [hd]

theorem ofLineComment_lineBreak (before behind : List Char) :
    ofLineComment (before ++ '\n' :: behind) =
      ((ofLineComment before).1, (ofLineComment before).2 ++ '\n' :: behind) := by
  obtain ⟨htake, hdrop⟩ := run_lineBreak (p := (· != '\n')) rfl before behind
  rw [ofLineComment, ofLineComment, htake, hdrop]

theorem ofBlockComment_lineBreak (hclosed : (ofBlockComment before).1.reading ≠ .openComment) :
    ofBlockComment (before ++ '\n' :: behind) =
      ((ofBlockComment before).1, (ofBlockComment before).2 ++ '\n' :: behind) := by
  unfold ofBlockComment at hclosed ⊢
  cases hbody : blockCommentBody [] before with
  | none => simp [hbody] at hclosed
  | some read =>
    obtain ⟨body, after⟩ := read
    obtain ⟨inside, rfl, -, halone⟩ := blockCommentBody_alone hbody
    rw [List.append_assoc, List.cons_append, List.cons_append, halone]

theorem head?_lineBreak {c : Char} (hc : c ≠ '\n') (before behind : List Char) :
    (before ++ '\n' :: behind).head? = some c ↔ before.head? = some c := by
  cases before with
  | nil => simp [hc.symm]
  | cons d before => rfl

theorem tail_lineBreak {c : Char} (h : before.head? = some c) :
    (before ++ '\n' :: behind).tail = before.tail ++ '\n' :: behind := by
  cases before with
  | nil => cases h
  | cons d before => rfl

/-- Unless it is an open comment, a piece reads the same with a line break and more behind the
text. -/
theorem next_lineBreak {c : Char} (hclosed : (next c before).1.reading ≠ .openComment) :
    next c (before ++ '\n' :: behind) =
      ((next c before).1, (next c before).2 ++ '\n' :: behind) := by
  obtain ⟨hblanks, hbehindBlanks⟩ := run_lineBreak (p := isBlank) (by decide) before behind
  obtain ⟨hname, hbehindName⟩ := run_lineBreak (p := isNameChar) (by decide) before behind
  unfold next at hclosed ⊢
  simp only [head?_lineBreak (c := '/') (by decide), head?_lineBreak (c := '*') (by decide),
    hblanks, hbehindBlanks, hname, hbehindName]
  split
  · rfl
  next hblank =>
  split
  · rfl
  next hline =>
  split
  next hslashes =>
    rw [tail_lineBreak hslashes.2]
    exact ofLineComment_lineBreak _ _
  next hslashes =>
  split
  next hstar =>
    rw [tail_lineBreak hstar.2]
    rw [if_neg hblank, if_neg hline, if_neg hslashes, if_pos hstar] at hclosed
    exact ofBlockComment_lineBreak hclosed
  next =>
  split
  next hquote =>
    exact ofLiteral_lineBreak (by rcases hquote with rfl | rfl <;> decide) _ _
  next =>
  split
  · exact ofPattern_lineBreak _ _
  split
  · rfl
  split <;> rfl

/-- An open comment is the last piece of its text. -/
theorem rest_of_openComment {c : Char} {rest : List Char} :
    (next c rest).1.reading = .openComment → (next c rest).2 = [] := by
  unfold next ofLineComment ofBlockComment ofLiteral ofPattern
  repeat' split
  all_goals simp

/-- A text is cut at a line break, unless a comment is open there; the pieces before that comment
are then the same with and without the line break. -/
theorem cut_lineBreak (before behind : List Char) :
    cut (before ++ '\n' :: behind) = cut before ++ newline :: cut behind ∨
      ∃ sound comment, cut before = sound ++ [comment] ∧ comment.reading = .openComment ∧
        sound <+: cut (before ++ '\n' :: behind) := by
  induction before using WellFoundedRelation.wf.induction (r := (measure List.length).rel) with
  | _ before ih =>
    cases before with
    | nil =>
      refine .inl ?_
      rw [List.nil_append, cut_cons, cut_nil]
      rfl
    | cons c rest =>
      by_cases hopen : (next c rest).1.reading = .openComment
      · refine .inr ⟨[], (next c rest).1, ?_, hopen, List.nil_prefix⟩
        rw [cut_cons, rest_of_openComment hopen, cut_nil, List.nil_append]
      · rw [List.cons_append, cut_cons, cut_cons, next_lineBreak hopen]
        rcases ih _ (next_rest_length c rest) with hcut | ⟨sound, comment, hcut, hcomment, hsound⟩
        · exact .inl (by rw [hcut, List.cons_append])
        · exact .inr ⟨_ :: sound, comment, by rw [hcut, List.cons_append], hcomment,
            (List.prefix_cons_inj _).mpr hsound⟩

/-- How many of the pieces give a token. -/
def tokenCount (pieces : List Piece) : Nat := pieces.countP fun piece => piece.reading.token?.isSome

theorem tokenCount_cons (piece : Piece) (pieces : List Piece) :
    tokenCount (piece :: pieces) =
      (if piece.reading.token?.isSome then 1 else 0) + tokenCount pieces := by
  rw [tokenCount, List.countP_cons, Nat.add_comm]
  rfl

theorem tokenCount_append (pieces more : List Piece) :
    tokenCount (pieces ++ more) = tokenCount pieces + tokenCount more := List.countP_append

end Piece

/-! ## Places below a line -/

/-- Where a place of a text is when the text begins at the place `base`, at the start of a line. -/
def Position.below (base p : Position) : Position :=
  ⟨base.offset + p.offset, base.line - 1 + p.line, p.column⟩

/-- The place of the first line behind a text. -/
def Position.lineBehind (before : List Char) : Position := start.advanceOver (before ++ ['\n'])

/-- Where a stretch of a text is when the text begins at `base`. -/
def Span.below (base : Position) (span : Span) : Span :=
  ⟨base.below span.start, base.below span.stop⟩

/-- What was read from a text, when the text begins at `base`. -/
def Located.below {α : Type} (base : Position) (x : Located α) : Located α :=
  ⟨x.value, x.span.below base⟩

/-- A piece of a text, when the text begins at `base`. -/
def PlacedPiece.below (base : Position) (p : PlacedPiece) : PlacedPiece :=
  ⟨p.piece, p.span.below base⟩

section Below

variable (base p : Position)

theorem Position.advance_below (c : Char) :
    (base.below p).advance c = base.below (p.advance c) := by
  unfold advance below
  split
  · rw [Nat.add_assoc, Nat.add_assoc]
  · rw [Nat.add_assoc]

theorem Position.advanceOver_below (text : List Char) :
    (base.below p).advanceOver text = base.below (p.advanceOver text) := by
  induction text generalizing p with
  | nil => rfl
  | cons c text ih => rw [advanceOver_cons, advance_below, ih, advanceOver_cons]

theorem LiteralPart.faults_below (parts : List LiteralPart) :
    LiteralPart.faults (base.below p) parts =
      (LiteralPart.faults p parts).map (Located.below base) := by
  induction parts generalizing p with
  | nil => rfl
  | cons part rest ih =>
    cases part with
    | plain | escape | backslash =>
      simp only [LiteralPart.faults, Position.advanceOver_below, ih]
    | unknownEscape c =>
      simp only [LiteralPart.faults, Position.advanceOver_below, ih, List.map_cons]
      rfl

theorem PlacedPiece.faults_below (piece : PlacedPiece) :
    (piece.below base).faults = piece.faults.map (Located.below base) := by
  unfold PlacedPiece.faults PlacedPiece.below Span.below
  cases piece.piece.reading with
  | blank | lineBreak | pattern | symbol | badPattern | stray => rfl
  | lineComment body | blockComment body | word body =>
    dsimp only
    split <;> rfl
  | openComment =>
    simp only [Position.advanceOver_below]
    rfl
  | openLiteral parts =>
    simp only [Position.advance_below, LiteralPart.faults_below, List.map_append]
    rfl
  | literal parts =>
    simp only [Position.advance_below, LiteralPart.faults_below, List.map_append]
    congr 1
    split
    · rfl
    · split <;> rfl

theorem PlacedPiece.token?_below (piece : PlacedPiece) :
    (piece.below base).token? = piece.token?.map (Located.below base) := by
  unfold PlacedPiece.token?
  rw [Option.map_map]
  rfl

theorem laidFrom_below (pieces : List Piece) :
    laidFrom (base.below p) pieces = (laidFrom p pieces).map (PlacedPiece.below base) := by
  induction pieces generalizing p with
  | nil => rfl
  | cons piece rest ih =>
    rw [laidFrom, laidFrom, Position.advanceOver_below, ih]
    rfl

end Below

theorem laidFrom_append (start : Position) (pieces more : List Piece) :
    laidFrom start (pieces ++ more) =
      laidFrom start pieces ++ laidFrom (start.advanceOver (pieces.flatMap Piece.text)) more := by
  induction pieces generalizing start with
  | nil => rfl
  | cons piece rest ih =>
    rw [List.cons_append, laidFrom, laidFrom, ih, List.flatMap_cons, Position.advanceOver_append,
      List.cons_append]

/-- A text that is put behind a line break begins there. -/
theorem Position.below_start (before : List Char) :
    (lineBehind before).below start = lineBehind before := by
  rw [lineBehind, advanceOver_append, advanceOver_cons, advanceOver_nil, advance, if_pos rfl]
  rfl

/-! ## Scans without overflow -/

namespace Scan

theorem overflow_eq_false_of_few {read : List PlacedPiece} {count : Nat} {start : Position}
    {pieces : List Piece} (h : count + Piece.tokenCount pieces < Limits.tokenCount) :
    (place read count start pieces).overflow = false := by
  fun_induction place read count start pieces with
  | case1 => rfl
  | case2 => omega
  | case3 read count start piece rest _ stop placed total ih =>
    refine ih (Eq.trans_lt ?_ h)
    rw [Piece.tokenCount_cons, ← Nat.add_assoc]
    congr 1
    simp only [total]
    split <;> rfl

/-- A scan that overflows has read as many tokens as there may be. -/
theorem le_words_of_overflow {read : List PlacedPiece} {count : Nat} {start : Position}
    {pieces : List Piece} (hcount : count = (read.filterMap PlacedPiece.token?).length)
    (h : (place read count start pieces).overflow = true) :
    Limits.tokenCount ≤ (place read count start pieces).words.length := by
  fun_induction place read count start pieces with
  | case1 => cases h
  | case2 => simpa [words, List.filterMap_reverse, ← hcount]
  | case3 read count start piece rest _ stop placed total ih =>
    refine ih ?_ h
    simp only [total, List.filterMap_cons, PlacedPiece.token?, placed]
    cases piece.reading.token? <;> simp [hcount]

theorem ofText_of_not_overflow {text : List Char} (h : (ofText text).overflow = false) :
    ofText text =
      ⟨laidFrom Position.start (Piece.cut text), Position.start.advanceOver text, false⟩ := by
  have hplace := place_of_not_overflow h
  rwa [Piece.flatMap_text_cut, List.reverse_nil, List.nil_append] at hplace

/-- A text whose pieces give few tokens is scanned to its end. -/
theorem ofText_of_few {text : List Char}
    (h : Piece.tokenCount (Piece.cut text) < Limits.tokenCount) :
    ofText text =
      ⟨laidFrom Position.start (Piece.cut text), Position.start.advanceOver text, false⟩ :=
  ofText_of_not_overflow (overflow_eq_false_of_few (by rwa [Nat.zero_add]))

theorem length_words_laidFrom (start : Position) (pieces : List Piece) :
    ((laidFrom start pieces).filterMap PlacedPiece.token?).length = Piece.tokenCount pieces := by
  induction pieces generalizing start with
  | nil => rfl
  | cons piece rest ih =>
    rw [laidFrom, Piece.tokenCount_cons, List.filterMap_cons, PlacedPiece.token?]
    cases piece.reading.token? with
    | none => simp [ih]
    | some token => simp [ih, Nat.add_comm]

theorem tokenCount_cut_lt {text : List Char} (h : (ofText text).words.length < Limits.tokenCount) :
    Piece.tokenCount (Piece.cut text) < Limits.tokenCount := by
  have hover : (ofText text).overflow = false := by
    by_contra hover
    exact absurd (le_words_of_overflow rfl (eq_true_of_ne_false hover)) (Nat.not_le_of_lt h)
  rwa [ofText_of_not_overflow hover, words, length_words_laidFrom] at h

/-- A scan that gets to an open comment reports it. -/
theorem exists_error_of_openComment {text : List Char} {comment : Piece}
    (hfew : Piece.tokenCount (Piece.cut text) < Limits.tokenCount) (hcut : comment ∈ Piece.cut text)
    (hcomment : comment.reading = .openComment) :
    ∃ e ∈ (ofText text).errors, e.value = .unterminatedComment := by
  rw [← map_piece_laidFrom Position.start (Piece.cut text)] at hcut
  obtain ⟨p, hp, rfl⟩ := List.mem_map.mp hcut
  refine ⟨⟨.unterminatedComment, ⟨p.span.start, p.span.start.advanceOver ['(', '*']⟩⟩, ?_, rfl⟩
  rw [errors, ofText_of_few hfew]
  refine List.mem_append_left _ (List.mem_flatMap.mpr ⟨p, hp, ?_⟩)
  rw [PlacedPiece.faults, hcomment]
  exact List.mem_singleton_self _

/-- Where no comment is left open before the line break, the text is cut there. -/
theorem cut_lineBreak_of_closed
    (hclosed : ∀ e ∈ (ofText before).errors, e.value ≠ .unterminatedComment)
    (hcount : Piece.tokenCount (Piece.cut (before ++ '\n' :: behind)) < Limits.tokenCount) :
    Piece.cut (before ++ '\n' :: behind) =
      Piece.cut before ++ Piece.newline :: Piece.cut behind := by
  rcases Piece.cut_lineBreak before behind with hcut | ⟨sound, comment, hcut, hcomment, hsound⟩
  · exact hcut
  -- the scan of the text before the line break gets to the comment, which gives no token
  have hfew : Piece.tokenCount (Piece.cut before) < Limits.tokenCount := by
    have hle : Piece.tokenCount sound ≤ Piece.tokenCount (Piece.cut (before ++ '\n' :: behind)) :=
      hsound.sublist.countP_le
    have hnone : Piece.tokenCount [comment] = 0 := by
      simp [Piece.tokenCount, hcomment, Reading.token?]
    rw [hcut, Piece.tokenCount_append, hnone]
    exact Nat.lt_of_le_of_lt hle hcount
  obtain ⟨e, he, hvalue⟩ := exists_error_of_openComment hfew (by simp [hcut]) hcomment
  exact absurd hvalue (hclosed e he)

theorem errors_of_few {text : List Char}
    (h : Piece.tokenCount (Piece.cut text) < Limits.tokenCount) :
    (ofText text).errors =
      (laidFrom Position.start (Piece.cut text)).flatMap PlacedPiece.faults := by
  rw [errors, ofText_of_few h]
  exact List.append_nil _

theorem flatMap_faults_below (base : Position) (placed : List PlacedPiece) :
    (placed.map (PlacedPiece.below base)).flatMap PlacedPiece.faults =
      (placed.flatMap PlacedPiece.faults).map (Located.below base) := by
  rw [List.flatMap_map, List.map_flatMap]
  exact List.flatMap_congr fun p _ => p.faults_below base

theorem filterMap_token?_below (base : Position) (placed : List PlacedPiece) :
    (placed.map (PlacedPiece.below base)).filterMap PlacedPiece.token? =
      (placed.filterMap PlacedPiece.token?).map (Located.below base) := by
  rw [List.filterMap_map, List.map_filterMap]
  exact List.filterMap_congr fun p _ => p.token?_below base

/-- The pieces of a text with a line break, laid out: those of the text before it, the line break,
and those of the text behind it on the next line. -/
theorem laidFrom_lineBreak
    (hcut : Piece.cut (before ++ '\n' :: behind) =
      Piece.cut before ++ Piece.newline :: Piece.cut behind) :
    laidFrom Position.start (Piece.cut (before ++ '\n' :: behind)) =
      laidFrom Position.start (Piece.cut before) ++
        ⟨Piece.newline, ⟨Position.start.advanceOver before, .lineBehind before⟩⟩ ::
          (laidFrom Position.start (Piece.cut behind)).map
            (PlacedPiece.below (.lineBehind before)) := by
  have hbase : (Position.start.advanceOver before).advanceOver Piece.newline.text =
      Position.lineBehind before := (Position.advanceOver_append ..).symm
  rw [hcut, laidFrom_append, Piece.flatMap_text_cut, laidFrom, hbase, ← laidFrom_below,
    Position.below_start]

theorem result_eq_ok_iff {scan : Scan} {tokens : List (Located Token)} :
    scan.result = .ok tokens ↔ scan.errors = [] ∧ scan.tokens = tokens := by
  unfold result
  split
  next h => simp [h]
  next hne => exact ⟨(fun h => by cases h), fun h => (hne h.1).elim⟩

/-- The end of the whole text is the end of the text behind the line break, moved. -/
theorem advanceOver_lineBreak (before behind : List Char) :
    Position.start.advanceOver (before ++ '\n' :: behind) =
      (Position.lineBehind before).below (Position.start.advanceOver behind) := by
  rw [← Position.advanceOver_below, Position.below_start, Position.lineBehind,
    ← Position.advanceOver_append, List.append_assoc]
  rfl

/-- Lexical recovery is local to a line. If the text before a line break leaves no block comment
open and the whole text does not have too many tokens, then the errors of the whole are those of the
text before the line break followed by those of the text behind it, moved to the place behind the
line break; and if there are no errors, the tokens of the whole are those of the text before without
the end of the input, one line break, and those of the text behind it, moved likewise. -/
theorem recovers_at_lineBreak (before behind : List Char)
    (hclosed : ∀ e ∈ (ofText before).errors, e.value ≠ .unterminatedComment)
    (hcount : (ofText (before ++ '\n' :: behind)).words.length < Limits.tokenCount) :
    (ofText (before ++ '\n' :: behind)).errors = (ofText before).errors ++
        (ofText behind).errors.map (Located.below (.lineBehind before)) ∧
      ∀ tokensBefore tokensBehind, (ofText before).result = .ok tokensBefore →
        (ofText behind).result = .ok tokensBehind →
          (ofText (before ++ '\n' :: behind)).result =
            .ok (tokensBefore.dropLast ++
              ⟨.lineBreak, ⟨Position.start.advanceOver before, .lineBehind before⟩⟩ ::
                tokensBehind.map (Located.below (.lineBehind before))) := by
  have hfew := tokenCount_cut_lt hcount
  have hcut := cut_lineBreak_of_closed hclosed hfew
  have hlaid := laidFrom_lineBreak hcut
  have hsum := hfew
  rw [hcut, Piece.tokenCount_append, Piece.tokenCount_cons] at hsum
  have hbefore : Piece.tokenCount (Piece.cut before) < Limits.tokenCount := by omega
  have hbehind : Piece.tokenCount (Piece.cut behind) < Limits.tokenCount := by omega
  have herrors : (ofText (before ++ '\n' :: behind)).errors = (ofText before).errors ++
      (ofText behind).errors.map (Located.below (.lineBehind before)) := by
    rw [errors_of_few hfew, errors_of_few hbefore, errors_of_few hbehind, hlaid,
      List.flatMap_append, List.flatMap_cons, flatMap_faults_below]
    rfl
  refine ⟨herrors, fun tokensBefore tokensBehind hokBefore hokBehind => ?_⟩
  obtain ⟨hsoundBefore, rfl⟩ := result_eq_ok_iff.mp hokBefore
  obtain ⟨hsoundBehind, rfl⟩ := result_eq_ok_iff.mp hokBehind
  refine result_eq_ok_iff.mpr ⟨by rw [herrors, hsoundBefore, hsoundBehind]; rfl, ?_⟩
  have hwords : (ofText (before ++ '\n' :: behind)).words = (ofText before).words ++
      ⟨.lineBreak, ⟨Position.start.advanceOver before, .lineBehind before⟩⟩ ::
        (ofText behind).words.map (Located.below (.lineBehind before)) := by
    rw [words, words, words, ofText_of_few hfew, ofText_of_few hbefore, ofText_of_few hbehind]
    dsimp only
    rw [hlaid, List.filterMap_append, ← filterMap_token?_below]
    rfl
  rw [tokens, tokens, tokens, hwords, List.dropLast_concat, List.map_append, List.append_assoc,
    List.cons_append, ofText_of_few hfew, ofText_of_few hbehind]
  dsimp only
  rw [advanceOver_lineBreak]
  rfl

/-- A literal left open behind a lone backslash, with a stray character on the next line; and an
opening bracket and a star that are no comment, being on two lines. -/
theorem recovers_at_lineBreak_open_literal :
    (ofText "'é' 'a\\\n('ü'$".toList).errors =
        [⟨.unterminatedLiteral, ⟨⟨5, 1, 5⟩, ⟨8, 1, 8⟩⟩⟩,
          ⟨.invalidCharacter '$', ⟨⟨14, 2, 5⟩, ⟨15, 2, 6⟩⟩⟩] ∧
      (ofText "'é'(\n*x".toList).result =
        .ok [⟨.literal "é", ⟨⟨0, 1, 1⟩, ⟨4, 1, 4⟩⟩⟩, ⟨.leftParen, ⟨⟨4, 1, 4⟩, ⟨5, 1, 5⟩⟩⟩,
          ⟨.lineBreak, ⟨⟨5, 1, 5⟩, ⟨6, 2, 1⟩⟩⟩, ⟨.star, ⟨⟨6, 2, 1⟩, ⟨7, 2, 2⟩⟩⟩,
          ⟨.identifier "x", ⟨⟨7, 2, 2⟩, ⟨8, 2, 3⟩⟩⟩, ⟨.endOfInput, ⟨⟨8, 2, 3⟩, ⟨8, 2, 3⟩⟩⟩] := by
  constructor
  · have herrors : (ofText "'é' 'a\\".toList).errors =
        [⟨.unterminatedLiteral, ⟨⟨5, 1, 5⟩, ⟨8, 1, 8⟩⟩⟩] := by cbv
    refine (recovers_at_lineBreak "'é' 'a\\".toList "('ü'$".toList ?_ ?_).1.trans ?_
    · rw [herrors]
      simp
    · cbv
    · cbv
  · have hbefore : (ofText "'é'(".toList).result =
        .ok [⟨.literal "é", ⟨⟨0, 1, 1⟩, ⟨4, 1, 4⟩⟩⟩, ⟨.leftParen, ⟨⟨4, 1, 4⟩, ⟨5, 1, 5⟩⟩⟩,
          ⟨.endOfInput, ⟨⟨5, 1, 5⟩, ⟨5, 1, 5⟩⟩⟩] := by cbv
    have hbehind : (ofText "*x".toList).result =
        .ok [⟨.star, ⟨⟨0, 1, 1⟩, ⟨1, 1, 2⟩⟩⟩, ⟨.identifier "x", ⟨⟨1, 1, 2⟩, ⟨2, 1, 3⟩⟩⟩,
          ⟨.endOfInput, ⟨⟨2, 1, 3⟩, ⟨2, 1, 3⟩⟩⟩] := by cbv
    have hsound := (result_eq_ok_iff.mp hbefore).1
    refine ((recovers_at_lineBreak "'é'(".toList "*x".toList ?_ ?_).2 _ _ hbefore hbehind).trans ?_
    · rw [hsound]
      simp
    · cbv
    · cbv

end Scan
end AnnotatedGrammar
