import AnnotatedGrammar.Token.Scan
import Mathlib.Data.List.TakeWhile

/-!
# Pieces read alone

What a piece is does not depend on the text behind it: the text of a piece, read alone, gives the
same piece again. This needs the piece to have an end of its own, as every piece with a token does;
an open comment or literal ends only where its text or line ends.
-/

namespace AnnotatedGrammar

namespace Piece

variable {text body after : List Char} {p : Char → Bool}

theorem takeWhile_run (text : List Char) : (text.takeWhile p).takeWhile p = text.takeWhile p :=
  List.takeWhile_eq_self_iff.mpr fun _ h => List.mem_takeWhile_imp h

theorem dropWhile_run (text : List Char) : (text.takeWhile p).dropWhile p = [] :=
  List.dropWhile_eq_nil_iff.mpr fun _ h => List.mem_takeWhile_imp h

theorem blockCommentBody_alone {read : List Char}
    (h : blockCommentBody read text = some (body, after)) :
    ∃ inside, text = inside ++ '*' :: ')' :: after ∧ body = read.reverse ++ inside ∧
      ∀ other, blockCommentBody read (inside ++ '*' :: ')' :: other) = some (body, other) := by
  fun_induction blockCommentBody read text with
  | case1 => cases h
  | case2 read rest =>
    obtain ⟨rfl, rfl⟩ : read.reverse = body ∧ rest = after := by simpa using h
    exact ⟨[], rfl, (List.append_nil _).symm, fun other => by simp [blockCommentBody]⟩
  | case3 read c rest hne ih =>
    obtain ⟨inside, rfl, rfl, halone⟩ := ih h
    refine ⟨c :: inside, rfl, by simp, fun other => ?_⟩
    -- the end of the comment does not begin at `c`, whatever follows behind the comment
    have hopen : ∀ rest, c = '*' → inside ++ '*' :: ')' :: other = ')' :: rest → False := by
      intro rest hc hrest
      cases inside with
      | nil => simp at hrest
      | cons d inside =>
        obtain ⟨rfl, -⟩ : d = ')' ∧ _ := by simpa using hrest
        exact hne _ hc rfl
    rw [List.cons_append, blockCommentBody.eq_3 _ _ _ hopen]
    exact halone other

theorem literalParts_alone {quote : Char} {read parts : List LiteralPart} (hquote : quote ≠ '\n')
    (h : literalParts quote read text = (parts, quote :: after)) :
    ∃ inside, parts = read.reverse ++ inside ∧
      text = inside.flatMap LiteralPart.text ++ quote :: after ∧
      ∀ other, literalParts quote read (inside.flatMap LiteralPart.text ++ quote :: other) =
        (parts, quote :: other) := by
  fun_induction literalParts quote read text with
  | case1 | case3 => simp at h
  | case2 read c rest hend =>
    obtain ⟨rfl, rfl, rfl⟩ : read.reverse = parts ∧ c = quote ∧ rest = after := by simpa using h
    refine ⟨[], (List.append_nil _).symm, rfl, fun other => ?_⟩
    rw [List.flatMap_nil, List.nil_append, literalParts.eq_def]
    simp
  | case4 => exact absurd (by simpa using h : _ ∧ '\n' = quote ∧ _).2.1.symm hquote
  | case5 read escaped rest hline meant hmeant hend ih =>
    obtain ⟨inside, rfl, rfl, halone⟩ := ih h
    refine ⟨.escape escaped meant :: inside, by simp, rfl, fun other => ?_⟩
    simp only [List.flatMap_cons, LiteralPart.text, List.cons_append, List.nil_append]
    rw [literalParts]
    simp only [hend, hline, hmeant, if_true, if_false]
    exact halone other
  | case6 read escaped rest hline hmeant hend ih =>
    obtain ⟨inside, rfl, rfl, halone⟩ := ih h
    refine ⟨.unknownEscape escaped :: inside, by simp, rfl, fun other => ?_⟩
    simp only [List.flatMap_cons, LiteralPart.text, List.cons_append, List.nil_append]
    rw [literalParts]
    simp only [hend, hline, hmeant, if_true, if_false]
    exact halone other
  | case7 read c rest hend hslash ih =>
    obtain ⟨inside, rfl, rfl, halone⟩ := ih h
    refine ⟨.plain c :: inside, by simp, rfl, fun other => ?_⟩
    simp only [List.flatMap_cons, LiteralPart.text, List.cons_append, List.nil_append]
    rw [literalParts.eq_def]
    simp only [hend, hslash, if_false]
    exact halone other

/-- A piece that `next` reads again from the piece's own text, with nothing left. -/
def IsAlone (piece : Piece) : Prop :=
  ∃ c more, piece.text = c :: more ∧ next c more = (piece, [])

theorem IsAlone.cut {piece : Piece} (h : piece.IsAlone) : cut piece.text = [piece] := by
  obtain ⟨c, more, htext, hnext⟩ := h
  rw [htext, cut_cons, hnext, cut_nil]

theorem isAlone_ofLiteral {quote : Char} (hquote : quote = '\'' ∨ quote = '"')
    (rest : List Char) (htoken : (ofLiteral quote rest).1.reading.token?.isSome) :
    (ofLiteral quote rest).1.IsAlone := by
  have hline : quote ≠ '\n' := by rcases hquote with rfl | rfl <;> decide
  have hnext (text : List Char) : next quote text = ofLiteral quote text := by
    rcases hquote with rfl | rfl <;> simp [next, isBlank]
  unfold ofLiteral at htoken ⊢
  rcases hparts : literalParts quote [] rest with ⟨parts, _ | ⟨c, after⟩⟩
  · simp [hparts, Reading.token?] at htoken
  · by_cases hc : c = quote
    · subst hc
      obtain ⟨parts, rfl, rfl, halone⟩ := literalParts_alone hline hparts
      have hclosed : literalParts c [] (parts.flatMap LiteralPart.text ++ [c]) = _ := halone []
      exact ⟨c, parts.flatMap LiteralPart.text ++ [c], by simp, by simp [hnext, ofLiteral, hclosed]⟩
    · simp [hparts, hc, Reading.token?] at htoken

theorem isAlone_ofPattern (rest : List Char)
    (htoken : (ofPattern rest).1.reading.token?.isSome) : (ofPattern rest).1.IsAlone := by
  have hnext (text : List Char) : next '<' text = ofPattern text := by simp [next, isBlank]
  unfold ofPattern at htoken ⊢
  split at htoken
  · simp [Reading.token?] at htoken
  next c name after hname hafter =>
    split at htoken
    next p hp =>
      -- the closing bracket is no character of a name
      have hrun : (c :: name ++ ['>']).takeWhile isNameChar = c :: name ∧
          (c :: name ++ ['>']).dropWhile isNameChar = ['>'] := by
        rw [← hname, List.takeWhile_append, List.dropWhile_append, takeWhile_run, dropWhile_run]
        simp [isNameChar]
      refine ⟨'<', c :: name ++ ['>'], rfl, ?_⟩
      simp only [hnext, ofPattern, hrun.1, hrun.2, hp]
    next => simp [Reading.token?] at htoken
  · simp [Reading.token?] at htoken

theorem isAlone_ofLineComment (rest : List Char) : (ofLineComment rest).1.IsAlone := by
  refine ⟨'/', '/' :: rest.takeWhile (· != '\n'), rfl, ?_⟩
  simp [next, isBlank, ofLineComment, takeWhile_run, dropWhile_run]

theorem isAlone_ofBlockComment (rest : List Char)
    (htoken : (ofBlockComment rest).1.reading.token?.isSome) :
    (ofBlockComment rest).1.IsAlone := by
  unfold ofBlockComment at htoken ⊢
  split at htoken
  next body after hbody =>
    obtain ⟨inside, rfl, rfl, halone⟩ := blockCommentBody_alone hbody
    have hbody' := halone []
    refine ⟨'(', _, rfl, ?_⟩
    simp [next, isBlank, ofBlockComment] at hbody' ⊢
    simp [hbody']
  next => cases htoken

/-- A piece that gives a token reads the same without the text behind it. -/
theorem isAlone_next (c : Char) (rest : List Char)
    (htoken : (next c rest).1.reading.token?.isSome) : (next c rest).1.IsAlone := by
  generalize hread : next c rest = read at htoken ⊢
  unfold next at hread
  split at hread
  next hblank =>
    subst hread
    exact ⟨c, _, rfl, by simp [next, hblank, takeWhile_run, dropWhile_run]⟩
  next hblank =>
  split at hread
  next hline =>
    subst hread hline
    exact ⟨'\n', [], rfl, by simp [next, isBlank]⟩
  next hline =>
  split at hread
  next =>
    subst hread
    exact isAlone_ofLineComment _
  next =>
  split at hread
  next =>
    subst hread
    exact isAlone_ofBlockComment _ htoken
  next =>
  split at hread
  next hquote =>
    subst hread
    exact isAlone_ofLiteral hquote _ htoken
  next hquote =>
  split at hread
  next =>
    subst hread
    exact isAlone_ofPattern _ htoken
  next hangle =>
  split at hread
  next hname =>
    subst hread
    have hletter : c ≠ '/' ∧ c ≠ '(' := by
      constructor <;> rintro rfl <;> simp [isNameStart] at hname
    refine ⟨c, _, rfl, ?_⟩
    simp [next, hblank, hline, hletter, hquote, hangle, hname, takeWhile_run, dropWhile_run]
  next hname =>
    -- with nothing behind it the character begins no comment
    split at hread
    next token hsymbol =>
      subst hread
      exact ⟨c, [], rfl, by simp [next, hblank, hline, hquote, hangle, hname, hsymbol]⟩
    next =>
      subst hread
      cases htoken

end Piece
end AnnotatedGrammar
