import Mathlib
import AnnotatedGrammar.Proofs.Token.Alone

/-!
# Tokens tile the text

The tokens of a text without lexical errors cover it without gaps or overlaps, and each of them is
what its own stretch of the text, scanned alone, would be. Both come from the pieces: they tile
every text, and where nothing is wrong each of them gives one token.
-/

namespace AnnotatedGrammar

variable {text before after : List Char} {start : Position}

theorem byteLength_cons (c : Char) (text : List Char) :
    byteLength (c :: text) = c.utf8Size + byteLength text := by
  have hfold (n : Nat) : text.foldl (fun n c => n + c.utf8Size) n = n + byteLength text := by
    unfold byteLength
    induction text generalizing n with
    | nil => rfl
    | cons d text ih => rw [List.foldl_cons, List.foldl_cons, ih, ih (0 + _)]; omega
  simpa [byteLength] using hfold (0 + c.utf8Size)

theorem offset_advance (p : Position) (c : Char) :
    (p.advance c).offset = p.offset + c.utf8Size := by
  unfold Position.advance
  split
  next h => subst h; rfl
  next => rfl

theorem offset_advanceOver (p : Position) (text : List Char) :
    (p.advanceOver text).offset = p.offset + byteLength text := by
  induction text generalizing p with
  | nil => rfl
  | cons c text ih => rw [Position.advanceOver_cons, ih, offset_advance, byteLength_cons]; omega

theorem splitAtByte_append (before after : List Char) :
    splitAtByte (byteLength before) (before ++ after) = some (before, after) := by
  induction before with
  | nil => rw [byteLength, List.foldl_nil, List.nil_append, splitAtByte]
  | cons c before ih =>
    obtain ⟨n, hn⟩ : ∃ n, byteLength (c :: before) = n + 1 :=
      Nat.exists_eq_succ_of_ne_zero (by have := c.utf8Size_pos; rw [byteLength_cons]; omega)
    rw [byteLength_cons] at hn
    have hle : c.utf8Size ≤ n + 1 := by omega
    have hrest : n + 1 - c.utf8Size = byteLength before := by omega
    rw [byteLength_cons, hn, List.cons_append, splitAtByte, if_pos hle, hrest, ih]
    rfl

/-- A span cuts out of a text what lies between its two ends. -/
theorem slice_advanceOver (before inside after : List Char) :
    Span.slice ⟨Position.start.advanceOver before, Position.start.advanceOver (before ++ inside)⟩
      (before ++ (inside ++ after)) = inside := by
  have hstart : (Position.start.advanceOver before).offset = byteLength before := by
    simp [offset_advanceOver, Position.start]
  have hstop : (Position.start.advanceOver (before ++ inside)).offset =
      byteLength before + byteLength inside := by
    rw [Position.advanceOver_append, offset_advanceOver, hstart]
  simp only [Span.slice, hstart, hstop, Nat.add_sub_cancel_left, splitAtByte_append]
  exact if_neg (by omega)

/-! ## Placed pieces -/

/-- Pieces laid one behind the other, the first one at `start`. -/
def laidFrom (start : Position) : List Piece → List PlacedPiece
  | [] => []
  | piece :: rest =>
    ⟨piece, ⟨start, start.advanceOver piece.text⟩⟩ :: laidFrom (start.advanceOver piece.text) rest

theorem map_piece_laidFrom (start : Position) (pieces : List Piece) :
    (laidFrom start pieces).map (·.piece) = pieces := by
  induction pieces generalizing start with
  | nil => rfl
  | cons piece rest ih => rw [laidFrom, List.map_cons, ih]

theorem slice_of_mem_laidFrom (before : List Char) {pieces : List Piece} {p : PlacedPiece}
    (hp : p ∈ laidFrom (Position.start.advanceOver before) pieces) :
    p.span.slice (before ++ pieces.flatMap Piece.text) = p.piece.text := by
  induction pieces generalizing before with
  | nil => cases hp
  | cons piece rest ih =>
    rw [laidFrom, ← Position.advanceOver_append] at hp
    rw [List.flatMap_cons]
    cases hp with
    | head => exact slice_advanceOver _ _ _
    | tail _ hp =>
      rw [← List.append_assoc]
      exact ih _ hp

theorem Scan.place_of_not_overflow {read : List PlacedPiece} {count : Nat} {pieces : List Piece}
    (h : (place read count start pieces).overflow = false) :
    place read count start pieces =
      ⟨read.reverse ++ laidFrom start pieces, start.advanceOver (pieces.flatMap Piece.text),
        false⟩ := by
  fun_induction place read count start pieces with
  | case1 => simp [laidFrom]
  | case2 => cases h
  | case3 read count start piece rest _ stop placed _ ih =>
    rw [ih h]
    simp [laidFrom, Position.advanceOver_append, placed, stop]

/-! ## Pieces with nothing wrong -/

theorem LiteralPart.faults_eq_nil_iff {parts : List LiteralPart} :
    LiteralPart.faults start parts = [] ↔ parts.any LiteralPart.isUnknown = false := by
  induction parts generalizing start with
  | nil => simp [LiteralPart.faults]
  | cons part rest ih => cases part <;> simp [LiteralPart.faults, LiteralPart.isUnknown, ih]

/-- A piece with which nothing is wrong stays so wherever it stands. -/
theorem PlacedPiece.faults_moved {p : PlacedPiece} (h : p.faults = []) (span : Span) :
    PlacedPiece.faults ⟨p.piece, span⟩ = [] := by
  unfold PlacedPiece.faults at h ⊢
  cases hreading : p.piece.reading with
  | blank | lineBreak | pattern | symbol => rfl
  | openComment | badPattern | stray | openLiteral => simp [hreading] at h
  | lineComment | blockComment | word =>
    simp only [hreading] at h ⊢
    split at h
    · cases h
    next hlength => rw [if_neg hlength]
  | literal parts =>
    simp only [hreading, List.append_eq_nil_iff, LiteralPart.faults_eq_nil_iff] at h ⊢
    refine ⟨h.1, ?_⟩
    split at h
    · cases h.2
    next hempty =>
      split at h
      · cases h.2
      next hlength => rw [if_neg hempty, if_neg hlength]

/-- A piece with which nothing is wrong gives a token. -/
theorem PlacedPiece.exists_token_of_faults {p : PlacedPiece} (h : p.faults = []) :
    ∃ token, p.piece.reading.token? = some token := by
  unfold PlacedPiece.faults at h
  unfold Reading.token?
  cases hreading : p.piece.reading with
  | blank | lineBreak | pattern | symbol | lineComment | blockComment => exact ⟨_, rfl⟩
  | openComment | badPattern | stray | openLiteral => simp [hreading] at h
  | word name =>
    simp only [hreading] at h ⊢
    split at h
    · cases h
    next hlength => exact ⟨_, if_neg hlength⟩
  | literal parts =>
    simp only [hreading, List.append_eq_nil_iff, LiteralPart.faults_eq_nil_iff] at h
    obtain ⟨hknown, hcontent⟩ := h
    split at hcontent
    · cases hcontent
    next hempty =>
      split at hcontent
      · cases hcontent
      next hlength => exact ⟨_, by simp only [hempty, hlength, hknown]; rfl⟩

theorem Scan.result_eq_ok {tokens : List (Located Token)}
    (h : (Scan.ofText text).result = .ok tokens) :
    (∀ p ∈ laidFrom Position.start (Piece.cut text), p.faults = []) ∧
      tokens = (laidFrom Position.start (Piece.cut text)).filterMap PlacedPiece.token? ++
        [⟨.endOfInput, Span.point (Position.start.advanceOver text)⟩] := by
  have herrors : (Scan.ofText text).errors = [] := by
    unfold Scan.result at h
    split at h
    next herrors => exact herrors
    next => cases h
  obtain ⟨hfaults, hover⟩ := List.append_eq_nil_iff.mp herrors
  have hwhole : (place [] 0 Position.start (Piece.cut text)).overflow = false := by
    rw [← ofText]
    revert hover
    split <;> simp_all
  have hplace := place_of_not_overflow hwhole
  rw [Piece.flatMap_text_cut, List.reverse_nil, List.nil_append] at hplace
  rw [ofText, hplace] at hfaults
  refine ⟨List.flatMap_eq_nil_iff.mp hfaults, ?_⟩
  simp only [Scan.result, herrors] at h
  cases h
  simp [tokens, words, ofText, hplace]

theorem Piece.exists_next_of_mem_cut {piece : Piece} (h : piece ∈ Piece.cut text) :
    ∃ c rest, piece = (Piece.next c rest).1 := by
  induction text using WellFoundedRelation.wf.induction (r := (measure List.length).rel) with
  | _ text ih =>
    cases text with
    | nil => simp at h
    | cons c rest =>
      rw [Piece.cut_cons] at h
      cases h with
      | head => exact ⟨c, rest, rfl⟩
      | tail _ h => exact ih _ (Piece.next_rest_length c rest) h

/-- The text of a piece with nothing wrong, scanned alone, gives the piece's token. -/
theorem Scan.result_of_piece {p : PlacedPiece} {token : Token} (hcut : p.piece ∈ Piece.cut text)
    (hfaults : p.faults = []) (htoken : p.piece.reading.token? = some token) :
    ∃ alone, (Scan.ofText p.piece.text).result = .ok alone ∧
      alone.map (·.value) = [token, .endOfInput] := by
  obtain ⟨c, rest, hnext⟩ := Piece.exists_next_of_mem_cut hcut
  have halone : p.piece.IsAlone := by
    rw [hnext] at htoken ⊢
    exact Piece.isAlone_next c rest (by simp [htoken])
  have hscan : Scan.ofText p.piece.text =
      ⟨[⟨p.piece, ⟨Position.start, Position.start.advanceOver p.piece.text⟩⟩],
        Position.start.advanceOver p.piece.text, false⟩ := by
    rw [Scan.ofText, halone.cut, Scan.place, if_neg (by decide), Scan.place]
    rfl
  have hsound := PlacedPiece.faults_moved hfaults
    ⟨Position.start, Position.start.advanceOver p.piece.text⟩
  refine ⟨_, by simp [Scan.result, Scan.errors, hscan, hsound]; rfl, ?_⟩
  simp [Scan.tokens, Scan.words, PlacedPiece.token?, htoken]

/-! ## Tokens -/

/-- The tokens of a text lie one behind the other from its beginning to its end. -/
structure Tile (text : List Char) (tokens : List (Located Token)) : Prop where
  /-- The first token begins where the text begins. -/
  first : tokens.head?.map (·.span.start) = some Position.start
  /-- Every other token begins where the one before it ends. -/
  joined : tokens.IsChain fun a b => b.span.start = a.span.stop
  /-- Every token but the last covers at least one character. -/
  covers : ∀ token ∈ tokens.dropLast, token.span.slice text ≠ []
  /-- The last token is the end of the input, at one place behind the text. -/
  last : tokens.getLast? = some ⟨.endOfInput, Span.point (Position.start.advanceOver text)⟩
  /-- This place lies as many bytes behind the beginning as the text has. -/
  stop : (Position.start.advanceOver text).offset = byteLength text
  /-- The stretches of the tokens make up the text. -/
  slices : tokens.flatMap (·.span.slice text) = text

theorem map_span_filterMap_token? {placed : List PlacedPiece} (h : ∀ p ∈ placed, p.faults = []) :
    (placed.filterMap PlacedPiece.token?).map (·.span) = placed.map (·.span) := by
  induction placed with
  | nil => rfl
  | cons p rest ih =>
    rw [List.forall_mem_cons] at h
    obtain ⟨token, htoken⟩ := PlacedPiece.exists_token_of_faults h.1
    have hp : p.token? = some ⟨token, p.span⟩ := by simp [PlacedPiece.token?, htoken]
    rw [List.filterMap_cons_some hp, List.map_cons, List.map_cons, ih h.2]

theorem isChain_spans_laidFrom (start : Position) (pieces : List Piece) :
    ((laidFrom start pieces).map (·.span) ++
        [Span.point (start.advanceOver (pieces.flatMap Piece.text))]).IsChain
      (fun a b => b.start = a.stop) ∧
    ((laidFrom start pieces).map (·.span) ++
        [Span.point (start.advanceOver (pieces.flatMap Piece.text))]).head?.map (·.start) =
      some start := by
  induction pieces generalizing start with
  | nil => exact ⟨.singleton _, rfl⟩
  | cons piece rest ih =>
    obtain ⟨hchain, hhead⟩ := ih (start.advanceOver piece.text)
    refine ⟨?_, rfl⟩
    rw [List.flatMap_cons, Position.advanceOver_append, laidFrom, List.map_cons, List.cons_append,
      List.isChain_cons]
    refine ⟨fun span hspan => ?_, hchain⟩
    rw [Option.mem_def.mp hspan] at hhead
    exact Option.some.inj hhead

theorem slice_point (p : Position) (text : List Char) : (Span.point p).slice text = [] := by
  simp only [Span.slice, Span.point, Nat.sub_self, lt_irrefl, if_false]
  split
  · rfl
  · rw [splitAtByte]

theorem Scan.tile_tokens {tokens : List (Located Token)}
    (h : (Scan.ofText text).result = .ok tokens) : Tile text tokens := by
  obtain ⟨hfaults, rfl⟩ := Scan.result_eq_ok h
  have hspans := map_span_filterMap_token? hfaults
  have hall : ((laidFrom Position.start (Piece.cut text)).filterMap PlacedPiece.token? ++
      [(⟨.endOfInput, Span.point (Position.start.advanceOver text)⟩ : Located Token)]).map
        (·.span) =
        (laidFrom Position.start (Piece.cut text)).map (·.span) ++
          [Span.point (Position.start.advanceOver text)] := by
    rw [List.map_append, hspans]
    rfl
  have hslice : ∀ p ∈ laidFrom Position.start (Piece.cut text),
      p.span.slice text = p.piece.text := by
    intro p hp
    have := slice_of_mem_laidFrom [] hp
    rwa [List.nil_append, Piece.flatMap_text_cut] at this
  obtain ⟨hchain, hhead⟩ := isChain_spans_laidFrom Position.start (Piece.cut text)
  rw [Piece.flatMap_text_cut, ← hall] at hchain hhead
  constructor
  · rw [← hhead, List.head?_map, Option.map_map]
    rfl
  · exact (List.isChain_map _).mp hchain
  · intro token htoken
    rw [List.dropLast_concat] at htoken
    obtain ⟨p, hp, hpt⟩ := List.mem_filterMap.mp htoken
    obtain ⟨value, -, rfl⟩ := Option.map_eq_some_iff.mp hpt
    obtain ⟨c, rest, hnext⟩ := Piece.exists_next_of_mem_cut
      (map_piece_laidFrom Position.start (Piece.cut text) ▸ List.mem_map_of_mem hp)
    rw [hslice p hp, hnext]
    exact Piece.next_text_ne_nil c rest
  · exact List.getLast?_concat
  · simp [offset_advanceOver, Position.start]
  · have hpieces := congrArg (List.flatMap Piece.text)
      (map_piece_laidFrom Position.start (Piece.cut text))
    have hslices := congrArg (List.flatMap fun span : Span => span.slice text) hall
    rw [List.flatMap_map, Piece.flatMap_text_cut] at hpieces
    rw [List.flatMap_map] at hslices
    rw [hslices, List.flatMap_append, List.flatMap_singleton, slice_point, List.append_nil,
      List.flatMap_map, List.flatMap_congr hslice, hpieces]

/-- Tokens tile the text: the tokens of a text without lexical errors cover it without gaps or
overlaps, and the stretch of each of them, scanned alone, gives just that token. -/
theorem Scan.tokens_tile (text : List Char) (tokens : List (Located Token))
    (h : (Scan.ofText text).result = .ok tokens) :
    Tile text tokens ∧
      ∀ token ∈ tokens.dropLast, ∃ alone,
        (Scan.ofText (token.span.slice text)).result = .ok alone ∧
          alone.map (·.value) = [token.value, .endOfInput] := by
  refine ⟨Scan.tile_tokens h, fun token htoken => ?_⟩
  obtain ⟨hfaults, rfl⟩ := Scan.result_eq_ok h
  rw [List.dropLast_concat] at htoken
  obtain ⟨p, hp, hpt⟩ := List.mem_filterMap.mp htoken
  obtain ⟨value, hvalue, rfl⟩ := Option.map_eq_some_iff.mp hpt
  have hslice := slice_of_mem_laidFrom [] hp
  rw [List.nil_append, Piece.flatMap_text_cut] at hslice
  rw [hslice]
  exact Scan.result_of_piece
    (map_piece_laidFrom Position.start (Piece.cut text) ▸ List.mem_map_of_mem hp)
    (hfaults p hp) hvalue

/-- A comment before a group, a line that ends in a carriage return, an escaped quote and a comment
up to the end of the text. -/
theorem Scan.tokens_tile_comment_before_group :
    ∃ tokens, (Scan.ofText "(*(*)(a?)\r\n'é\\''//x\r".toList).result = .ok tokens ∧
      tokens.map (·.value) =
        [.comment "(", .leftParen, .identifier "a", .question, .rightParen, .blank, .lineBreak,
          .literal "é'", .comment "x", .endOfInput] ∧
      Tile "(*(*)(a?)\r\n'é\\''//x\r".toList tokens ∧
      ∀ token ∈ tokens.dropLast, ∃ alone,
        (Scan.ofText (token.span.slice "(*(*)(a?)\r\n'é\\''//x\r".toList)).result = .ok alone ∧
          alone.map (·.value) = [token.value, .endOfInput] := by
  have hvalues : (Scan.ofText "(*(*)(a?)\r\n'é\\''//x\r".toList).result.map
      (List.map (·.value)) =
        .ok [.comment "(", .leftParen, .identifier "a", .question, .rightParen, .blank, .lineBreak,
          .literal "é'", .comment "x", .endOfInput] := by
    cbv
  cases hresult : (Scan.ofText "(*(*)(a?)\r\n'é\\''//x\r".toList).result with
  | error errors =>
    rw [hresult] at hvalues
    cases hvalues
  | ok tokens =>
    rw [hresult] at hvalues
    exact ⟨tokens, rfl, Except.ok.inj hvalues, Scan.tokens_tile _ tokens hresult⟩

end AnnotatedGrammar
