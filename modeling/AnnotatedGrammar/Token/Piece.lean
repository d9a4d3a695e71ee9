import AnnotatedGrammar.Limits
import AnnotatedGrammar.Token.Basic

/-!
# Cutting a text into pieces

A grammar text is cut into pieces that cover it without gaps or overlaps. Each piece is either the
text of a token or a stretch that is wrong and is reported; the cut never stops early. How a piece
reads does not depend on where it stands.
-/

namespace AnnotatedGrammar

/-- Characters with which a name can begin. -/
def isNameStart (c : Char) : Bool := c.isAlpha || c == '_'

/-- Characters that can continue a name. -/
def isNameChar (c : Char) : Bool := c.isAlphanum || c == '_'

/-- Blanks within a line. -/
def isBlank (c : Char) : Bool := c == ' ' || c == '\t' || c == '\r'

/-- One item between the quotes of a literal. -/
inductive LiteralPart
  | plain (c : Char)
  /-- A backslash and a character that together mean another character. -/
  | escape (written meant : Char)
  /-- A backslash and a character that have no meaning together. -/
  | unknownEscape (c : Char)
  /-- A backslash with nothing behind it on the line. -/
  | backslash
deriving DecidableEq, Repr, Inhabited

namespace LiteralPart

/-- The part as it is written. -/
def text : LiteralPart → List Char
  | plain c => [c]
  | escape written _ => ['\\', written]
  | unknownEscape c => ['\\', c]
  | backslash => ['\\']

/-- The character that the part stands for. -/
def meaning? : LiteralPart → Option Char
  | plain c => some c
  | escape _ meant => some meant
  | unknownEscape _ => none
  | backslash => none

/-- Whether the part is an escape without a meaning. -/
def isUnknown : LiteralPart → Bool
  | unknownEscape _ => true
  | _ => false

end LiteralPart

/-- What an escaped character means, if the escape is known. -/
def escapeMeaning? (c : Char) : Option Char :=
  if c = '\\' ∨ c = '"' ∨ c = '\'' then some c
  else if c = 'n' then some '\n'
  else if c = 't' then some '\t'
  else none

/-- The parts of a literal up to its closing quote, the end of the line or the end of the text;
`read` holds the parts already read, latest first. Also returns the text from there on. -/
def literalParts (quote : Char) (read : List LiteralPart) :
    List Char → List LiteralPart × List Char
  | [] => (read.reverse, [])
  | c :: rest =>
    if c = '\n' ∨ c = quote then (read.reverse, c :: rest)
    else if c = '\\' then
      match rest with
      | [] => ((LiteralPart.backslash :: read).reverse, [])
      | next :: rest' =>
        if next = '\n' then ((LiteralPart.backslash :: read).reverse, next :: rest')
        else
          match escapeMeaning? next with
          | some meant => literalParts quote (.escape next meant :: read) rest'
          | none => literalParts quote (.unknownEscape next :: read) rest'
    else literalParts quote (.plain c :: read) rest

/-- The body of a block comment and the text behind its end, if it has one; `read` holds the body
already read, latest character first. -/
def blockCommentBody (read : List Char) : List Char → Option (List Char × List Char)
  | [] => none
  | c :: rest =>
    match c, rest with
    | '*', ')' :: rest' => some (read.reverse, rest')
    | _, _ => blockCommentBody (c :: read) rest

/-- What a piece of the text is. -/
inductive Reading
  | blank
  | lineBreak
  | lineComment (body : List Char)
  | blockComment (body : List Char)
  /-- A block comment that reaches to the end of the text without being closed. -/
  | openComment
  | literal (parts : List LiteralPart)
  /-- A literal that is not closed on its line. -/
  | openLiteral (parts : List LiteralPart)
  | pattern (pattern : Pattern)
  /-- An angle bracket that does not begin a known pattern. -/
  | badPattern
  | word (name : List Char)
  | symbol (token : Token)
  /-- A character that no token begins with. -/
  | stray (c : Char)
deriving Repr, Inhabited

/-- A stretch of text and how it reads. -/
structure Piece where
  text : List Char
  reading : Reading
deriving Repr, Inhabited

namespace Piece

/-- Reads a literal behind its opening quote. -/
def ofLiteral (quote : Char) (rest : List Char) : Piece × List Char :=
  let (parts, behind) := literalParts quote [] rest
  let body := parts.flatMap LiteralPart.text
  match behind with
  | [] => (⟨quote :: body, .openLiteral parts⟩, [])
  | c :: after =>
    if c = quote then (⟨quote :: (body ++ [quote]), .literal parts⟩, after)
    else (⟨quote :: body, .openLiteral parts⟩, c :: after)

/-- Reads a pattern behind its opening bracket. -/
def ofPattern (rest : List Char) : Piece × List Char :=
  match rest.takeWhile isNameChar, rest.dropWhile isNameChar with
  | [], after => (⟨['<'], .badPattern⟩, after)
  | c :: name, '>' :: after =>
    match Pattern.ofName? (String.ofList (c :: name)) with
    | some p => (⟨'<' :: (c :: name ++ ['>']), .pattern p⟩, after)
    | none => (⟨'<' :: (c :: name ++ ['>']), .badPattern⟩, after)
  | name, after => (⟨'<' :: name, .badPattern⟩, after)

/-- Reads a line comment behind its two slashes; the line break is not part of it. -/
def ofLineComment (rest : List Char) : Piece × List Char :=
  let body := rest.takeWhile (· != '\n')
  (⟨'/' :: '/' :: body, .lineComment body⟩, rest.dropWhile (· != '\n'))

/-- Reads a block comment behind its opening bracket and star. -/
def ofBlockComment (rest : List Char) : Piece × List Char :=
  match blockCommentBody [] rest with
  | some (body, after) => (⟨'(' :: '*' :: (body ++ ['*', ')']), .blockComment body⟩, after)
  | none => (⟨'(' :: '*' :: rest, .openComment⟩, [])

/-- Reads the piece that begins with `c`; also returns the text behind it. -/
def next (c : Char) (rest : List Char) : Piece × List Char :=
  if isBlank c then (⟨c :: rest.takeWhile isBlank, .blank⟩, rest.dropWhile isBlank)
  else if c = '\n' then (⟨[c], .lineBreak⟩, rest)
  else if c = '/' ∧ rest.head? = some '/' then ofLineComment rest.tail
  else if c = '(' ∧ rest.head? = some '*' then ofBlockComment rest.tail
  else if c = '\'' ∨ c = '"' then ofLiteral c rest
  else if c = '<' then ofPattern rest
  else if isNameStart c then
    let name := c :: rest.takeWhile isNameChar
    (⟨name, .word name⟩, rest.dropWhile isNameChar)
  else
    match Token.ofSymbol? c with
    | some token => (⟨[c], .symbol token⟩, rest)
    | none => (⟨[c], .stray c⟩, rest)

/-! ## A piece is a beginning of the text it was read from -/

private theorem literalParts_text (quote : Char) (read : List LiteralPart) (text : List Char) :
    (literalParts quote read text).1.flatMap LiteralPart.text ++
        (literalParts quote read text).2 =
      read.reverse.flatMap LiteralPart.text ++ text := by
  fun_induction literalParts quote read text <;> simp_all [LiteralPart.text]

private theorem blockCommentBody_text {read text body after : List Char}
    (h : blockCommentBody read text = some (body, after)) :
    read.reverse ++ text = body ++ '*' :: ')' :: after := by
  fun_induction blockCommentBody read text <;> simp_all

theorem ofLiteral_text (quote : Char) (rest : List Char) :
    (ofLiteral quote rest).1.text ++ (ofLiteral quote rest).2 = quote :: rest := by
  have h := literalParts_text quote [] rest
  unfold ofLiteral
  generalize literalParts quote [] rest = r at h ⊢
  obtain ⟨parts, behind⟩ := r
  cases behind with
  | nil => simpa using h
  | cons c after =>
    by_cases hc : c = quote
    · subst hc; simpa using h
    · simpa [hc] using h

theorem ofPattern_text (rest : List Char) :
    (ofPattern rest).1.text ++ (ofPattern rest).2 = '<' :: rest := by
  have h := List.takeWhile_append_dropWhile (p := isNameChar) (l := rest)
  unfold ofPattern
  generalize rest.takeWhile isNameChar = name at h ⊢
  generalize rest.dropWhile isNameChar = after at h ⊢
  split
  · simpa using h
  · split <;> simpa using h
  · simpa using h

theorem ofLineComment_text (rest : List Char) :
    (ofLineComment rest).1.text ++ (ofLineComment rest).2 = '/' :: '/' :: rest := by
  simp [ofLineComment]

theorem ofBlockComment_text (rest : List Char) :
    (ofBlockComment rest).1.text ++ (ofBlockComment rest).2 = '(' :: '*' :: rest := by
  unfold ofBlockComment
  split
  · rename_i h; simpa using (blockCommentBody_text h).symm
  · simp

/-- Reading a piece loses nothing of the text. -/
theorem next_text (c : Char) (rest : List Char) :
    (next c rest).1.text ++ (next c rest).2 = c :: rest := by
  unfold next
  split
  · simp
  split
  · simp
  split
  · rename_i h
    obtain ⟨rfl, h⟩ := h
    cases rest with
    | nil => simp at h
    | cons d rest => simp at h; subst h; exact ofLineComment_text rest
  split
  · rename_i h
    obtain ⟨rfl, h⟩ := h
    cases rest with
    | nil => simp at h
    | cons d rest => simp at h; subst h; exact ofBlockComment_text rest
  split
  · exact ofLiteral_text c rest
  split
  · rename_i h; subst h; exact ofPattern_text rest
  split
  · simp
  split <;> simp

/-- Every piece covers at least one character. -/
theorem next_text_ne_nil (c : Char) (rest : List Char) : (next c rest).1.text ≠ [] := by
  unfold next ofLineComment ofBlockComment ofLiteral ofPattern
  repeat' split
  all_goals simp

theorem next_rest_length (c : Char) (rest : List Char) :
    (next c rest).2.length < (c :: rest).length := by
  have h := congrArg List.length (next_text c rest)
  have hpos := List.length_pos_iff.mpr (next_text_ne_nil c rest)
  simp only [List.length_append] at h
  omega

/-- Cuts a text into pieces; `read` holds the pieces before it, latest first. -/
def cutFrom (read : List Piece) : List Char → List Piece
  | [] => read.reverse
  | c :: rest => cutFrom ((next c rest).1 :: read) (next c rest).2
termination_by text => text.length
decreasing_by exact next_rest_length c rest

/-- The pieces of a text. -/
def cut (text : List Char) : List Piece := cutFrom [] text

private theorem cutFrom_eq (read : List Piece) (text : List Char) :
    cutFrom read text = read.reverse ++ cutFrom [] text := by
  induction text using WellFoundedRelation.wf.induction
    (r := (measure List.length).rel) generalizing read with
  | _ text ih =>
    cases text with
    | nil => simp [cutFrom]
    | cons c rest =>
      have hlt : (next c rest).2.length < (c :: rest).length := next_rest_length c rest
      rw [cutFrom, cutFrom]
      rw [ih _ hlt, ih _ hlt [(next c rest).1]]
      simp

@[simp] theorem cut_nil : cut [] = [] := by simp [cut, cutFrom]

/-- The first piece of a text is the one that begins with its first character. -/
theorem cut_cons (c : Char) (rest : List Char) :
    cut (c :: rest) = (next c rest).1 :: cut (next c rest).2 := by
  rw [cut, cutFrom, cutFrom_eq]; simp [cut]

/-- The pieces of a text cover it without gaps or overlaps. -/
theorem flatMap_text_cut (text : List Char) : (cut text).flatMap Piece.text = text := by
  induction text using WellFoundedRelation.wf.induction (r := (measure List.length).rel) with
  | _ text ih =>
    cases text with
    | nil => simp
    | cons c rest =>
      rw [cut_cons, List.flatMap_cons, ih _ (next_rest_length c rest), next_text]

end Piece
end AnnotatedGrammar
