import AnnotatedGrammar.Proofs.Token.Tiling

/-!
# Literals say what was written

Every text can be written as a literal: the backslash, the quote in use and the line break are
escaped, the tab may be, and any other character stands for itself. Scanning the literal gives the
text back. The limit on the length of literals counts the characters of this text, not those of its
writing.
-/

namespace AnnotatedGrammar

/-- The texts that stand for a character between two quotes. -/
def spellings (quote c : Char) : List (List Char) :=
  if c = '\\' ∨ c = quote then [['\\', c]]
  else if c = '\n' then [['\\', 'n']]
  else if c = '\t' then [['\t'], ['\\', 't']]
  else [[c]]

/-- A text and a way to write it between two quotes. -/
inductive Spelled (quote : Char) : List Char → List Char → Prop
  | nil : Spelled quote [] []
  | cons {c : Char} {content spelling written : List Char} :
    spelling ∈ spellings quote c → Spelled quote content written →
      Spelled quote (c :: content) (spelling ++ written)

variable {quote c : Char} {content spelling written : List Char}

/-- Every text can be written. -/
theorem exists_spelled (quote : Char) (content : List Char) :
    ∃ written, Spelled quote content written := by
  induction content with
  | nil => exact ⟨[], .nil⟩
  | cons c content ih =>
    obtain ⟨written, hwritten⟩ := ih
    have hne : spellings quote c ≠ [] := by
      unfold spellings
      split_ifs <;> exact List.cons_ne_nil _ _
    obtain ⟨spelling, hspelling⟩ := List.exists_mem_of_ne_nil _ hne
    exact ⟨spelling ++ written, .cons hspelling hwritten⟩

theorem Spelled.of_forall₂ {pieces : List (List Char)}
    (h : List.Forall₂ (fun c spelling => spelling ∈ spellings quote c) content pieces) :
    Spelled quote content pieces.flatten := by
  induction h with
  | nil => exact .nil
  | cons hc _ ih => exact .cons hc ih

theorem Spelled.replicate (h : spelling ∈ spellings quote c) (n : Nat) :
    Spelled quote (List.replicate n c) (List.replicate n spelling).flatten := by
  induction n with
  | zero => exact .nil
  | succ n ih => exact .cons h ih

/-! ## Reading what is written -/

/-- A quote with which literals are written. -/
def IsQuote (c : Char) : Prop := c = '\'' ∨ c = '"'

theorem escapeMeaning?_of_isQuote (h : IsQuote c) : escapeMeaning? c = some c := by
  rcases h with rfl | rfl <;> rfl

theorem literalParts_escape (hquote : IsQuote quote) {meant : Char}
    (h : escapeMeaning? c = some meant) (read : List LiteralPart) (rest : List Char) :
    literalParts quote read ('\\' :: c :: rest) =
      literalParts quote (.escape c meant :: read) rest := by
  have hslash : ¬('\\' = '\n' ∨ '\\' = quote) := by
    rcases hquote with rfl | rfl <;> decide
  have hline : c ≠ '\n' := by
    rintro rfl
    cases h
  rw [literalParts, if_neg hslash, if_pos rfl]
  simp only [if_neg hline, h]

theorem literalParts_plain (hslash : c ≠ '\\') (hend : ¬(c = '\n' ∨ c = quote))
    (read : List LiteralPart) (rest : List Char) :
    literalParts quote read (c :: rest) = literalParts quote (.plain c :: read) rest := by
  rw [literalParts.eq_def]
  simp only [if_neg hend, if_neg hslash]

/-- The spelling of a character is read as one part, which means the character. -/
theorem literalParts_spelling (hquote : IsQuote quote) (h : spelling ∈ spellings quote c)
    (read : List LiteralPart) (rest : List Char) :
    ∃ part : LiteralPart, part.meaning? = some c ∧ part.isUnknown = false ∧
      part.text = spelling ∧
      literalParts quote read (spelling ++ rest) = literalParts quote (part :: read) rest := by
  unfold spellings at h
  split_ifs at h with hescaped hbreak htab
  · obtain rfl := List.mem_singleton.mp h
    have hmeaning : escapeMeaning? c = some c := by
      rcases hescaped with rfl | rfl
      · rfl
      · exact escapeMeaning?_of_isQuote hquote
    exact ⟨.escape c c, rfl, rfl, rfl, literalParts_escape hquote hmeaning read rest⟩
  · obtain rfl := List.mem_singleton.mp h
    subst hbreak
    exact ⟨.escape 'n' '\n', rfl, rfl, rfl, literalParts_escape hquote rfl read rest⟩
  · subst htab
    have htab : ¬('\t' = '\n' ∨ '\t' = quote) := by
      rcases hquote with rfl | rfl <;> decide
    rcases List.mem_pair.mp h with rfl | rfl
    · exact ⟨.plain '\t', rfl, rfl, rfl, literalParts_plain (by decide) htab read rest⟩
    · exact ⟨.escape 't' '\t', rfl, rfl, rfl, literalParts_escape hquote rfl read rest⟩
  · obtain rfl := List.mem_singleton.mp h
    rw [not_or] at hescaped
    have hend : ¬(c = '\n' ∨ c = quote) := not_or.mpr ⟨hbreak, hescaped.2⟩
    exact ⟨.plain c, rfl, rfl, rfl, literalParts_plain hescaped.1 hend read rest⟩

/-- What is written is read up to the closing quote, and its parts mean what was written. -/
theorem Spelled.literalParts (hquote : IsQuote quote) (h : Spelled quote content written)
    (read : List LiteralPart) (after : List Char) :
    ∃ parts, LiteralPart.content parts = content ∧ parts.any LiteralPart.isUnknown = false ∧
      parts.flatMap LiteralPart.text = written ∧
      literalParts quote read (written ++ quote :: after) =
        (read.reverse ++ parts, quote :: after) := by
  induction h generalizing read with
  | nil =>
    refine ⟨[], rfl, rfl, rfl, ?_⟩
    rw [List.nil_append, literalParts.eq_def]
    simp only [or_true, if_true, List.append_nil]
  | @cons c content spelling written hc _ ih =>
    obtain ⟨part, hmeaning, hknown, htext, hread⟩ :=
      literalParts_spelling hquote hc read (written ++ quote :: after)
    obtain ⟨parts, hcontent, hknowns, htexts, hreads⟩ := ih (part :: read)
    refine ⟨part :: parts, ?_, ?_, ?_, ?_⟩
    · rw [LiteralPart.content, List.filterMap_cons_some hmeaning, ← hcontent]
      rfl
    · rw [List.any_cons, hknown, hknowns]
      rfl
    · rw [List.flatMap_cons, htext, htexts]
    · rw [List.append_assoc, hread, hreads, List.reverse_cons, List.append_assoc,
        List.singleton_append]

namespace Scan

/-- A written literal alone is one piece of text. -/
theorem ofText_spelled (hquote : IsQuote quote) (h : Spelled quote content written) :
    ∃ parts, LiteralPart.content parts = content ∧ parts.any LiteralPart.isUnknown = false ∧
      let text := quote :: (written ++ [quote])
      let stop := Position.start.advanceOver text
      ofText text = ⟨[⟨⟨text, .literal parts⟩, ⟨Position.start, stop⟩⟩], stop, false⟩ := by
  obtain ⟨parts, hcontent, hknown, htext, hread⟩ := h.literalParts hquote [] []
  have hnext : Piece.next quote (written ++ [quote]) =
      (⟨quote :: (written ++ [quote]), .literal parts⟩, []) := by
    have hliteral : Piece.ofLiteral quote (written ++ [quote]) =
        (⟨quote :: (written ++ [quote]), .literal parts⟩, []) := by
      simp only [Piece.ofLiteral, hread, htext, List.reverse_nil, List.nil_append, if_true]
    rw [← hliteral]
    rcases hquote with rfl | rfl <;> simp [Piece.next, isBlank]
  refine ⟨parts, hcontent, hknown, ?_⟩
  dsimp only
  rw [ofText, Piece.cut_cons, hnext, Piece.cut_nil, place, if_neg (by decide), place]
  rfl

/-- Literals say what was written. Every text that is not empty can be written between two quotes;
scanning what is written gives the literal with just this text, as long as it is within the limit,
else its length is reported and nothing more. -/
theorem result_spelled (hquote : IsQuote quote) (hne : content ≠ []) :
    (∃ written, Spelled quote content written) ∧
    ∀ written, Spelled quote content written →
      let text := quote :: (written ++ [quote])
      let whole : Span := ⟨Position.start, Position.start.advanceOver text⟩
      (content.length ≤ Limits.literalLength →
        (ofText text).result =
          .ok [⟨.literal (String.ofList content), whole⟩,
            ⟨.endOfInput, Span.point whole.stop⟩]) ∧
      (Limits.literalLength < content.length →
        (ofText text).result = .error [⟨.literalTooLong content.length, whole⟩]) := by
  refine ⟨exists_spelled quote content, fun written h => ?_⟩
  obtain ⟨parts, rfl, hknown, hscan⟩ := ofText_spelled hquote h
  dsimp only at hscan ⊢
  have hempty : (LiteralPart.content parts).isEmpty = false := by simpa using hne
  have hescapes (start : Position) : LiteralPart.faults start parts = [] :=
    LiteralPart.faults_eq_nil_iff.mpr hknown
  constructor
  · intro hlength
    have hshort : ¬Limits.literalLength < (LiteralPart.content parts).length :=
      Nat.not_lt.mpr hlength
    simp [result, errors, tokens, words, hscan, PlacedPiece.faults, PlacedPiece.token?,
      Reading.token?, hescapes, hempty, hshort, hknown]
  · intro hlong
    simp [result, errors, hscan, PlacedPiece.faults, hescapes, hempty, hlong]

/-- Both quotes, a backslash, a line break, a tab in both spellings and an arrow between single
quotes; and one backslash too many between double quotes. -/
theorem result_spelled_escapes :
    Spelled '\'' "'\"\\\n\t\t→".toList "\\'\"\\\\\\n\t\\t→".toList ∧
    (∃ tokens, (ofText "'\\'\"\\\\\\n\t\\t→'".toList).result = .ok tokens ∧
      tokens.map (·.value) = [.literal "'\"\\\n\t\t→", .endOfInput]) ∧
    Spelled '"' (List.replicate 1025 '\\') (List.replicate 1025 ['\\', '\\']).flatten ∧
    ∃ span, (ofText ('"' :: ((List.replicate 1025 ['\\', '\\']).flatten ++ ['"']))).result =
      .error [⟨.literalTooLong 1025, span⟩] := by
  have hshort : Spelled '\'' "'\"\\\n\t\t→".toList "\\'\"\\\\\\n\t\\t→".toList :=
    @Spelled.of_forall₂ _ _
      [['\\', '\''], ['"'], ['\\', '\\'], ['\\', 'n'], ['\t'], ['\\', 't'], ['→']]
      (by simp [spellings])
  have hlong : Spelled '"' (List.replicate 1025 '\\') (List.replicate 1025 ['\\', '\\']).flatten :=
    .replicate (by decide) 1025
  have hread := ((result_spelled (.inl rfl) (by decide)).2 _ hshort).1 (by decide)
  have hne : List.replicate 1025 '\\' ≠ [] := List.cons_ne_nil _ _
  have hreported := ((result_spelled (.inr rfl) hne).2 _ hlong).2
  rw [List.length_replicate] at hreported
  exact ⟨hshort, ⟨_, hread, rfl⟩, hlong, _, hreported (by decide)⟩

end Scan
end AnnotatedGrammar
