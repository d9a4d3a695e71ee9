/-!
# Places in a source text

A position counts bytes from the start of the text as well as lines and columns; columns count
characters. A span is the half-open stretch between two positions.
-/

namespace AnnotatedGrammar

/-- A place between two characters of a source text. -/
structure Position where
  /-- Bytes of UTF-8 before this place. -/
  offset : Nat
  /-- Line number, counted from one. -/
  line : Nat
  /-- Column in characters, counted from one. -/
  column : Nat
deriving DecidableEq, Repr, Inhabited

namespace Position

/-- The beginning of every text. -/
def start : Position := ⟨0, 1, 1⟩

/-- The place after one more character. -/
def advance (p : Position) (c : Char) : Position :=
  if c = '\n' then ⟨p.offset + 1, p.line + 1, 1⟩
  else ⟨p.offset + c.utf8Size, p.line, p.column + 1⟩

/-- The place after a stretch of text. -/
def advanceOver (p : Position) (text : List Char) : Position :=
  text.foldl advance p

@[simp] theorem advanceOver_nil (p : Position) : p.advanceOver [] = p := rfl

@[simp] theorem advanceOver_cons (p : Position) (c : Char) (text : List Char) :
    p.advanceOver (c :: text) = (p.advance c).advanceOver text := rfl

theorem advanceOver_append (p : Position) (s t : List Char) :
    p.advanceOver (s ++ t) = (p.advanceOver s).advanceOver t := by
  simp [advanceOver, List.foldl_append]

/-- Line and column, as messages show a place. -/
def display (p : Position) : String :=
  toString p.line ++ ":" ++ toString p.column

end Position

/-- A stretch of source text, from `start` up to but not including `stop`. -/
structure Span where
  start : Position
  stop : Position
deriving DecidableEq, Repr, Inhabited

namespace Span

/-- The empty stretch at one place. -/
def point (p : Position) : Span := ⟨p, p⟩

/-- Stands for a place that is not known. -/
def placeholder : Span := point Position.start

/-- The smallest stretch that covers both. -/
def merge (a b : Span) : Span where
  start := if b.start.offset < a.start.offset then b.start else a.start
  stop := if a.stop.offset < b.stop.offset then b.stop else a.stop

/-- Length in bytes. -/
def length (s : Span) : Nat := s.stop.offset - s.start.offset

/-- Whether the stretch covers no text. -/
def isEmpty (s : Span) : Bool := s.start.offset == s.stop.offset

/-- A stretch is shown by the place where it begins. -/
def display (s : Span) : String := s.start.display

end Span

/-- A value together with the stretch of source text it was read from. -/
structure Located (α : Type) where
  value : α
  span : Span
deriving DecidableEq, Repr, Inhabited

end AnnotatedGrammar
