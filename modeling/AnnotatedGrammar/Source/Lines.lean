import AnnotatedGrammar.Source.Position

/-!
# The lines of a source text

An index of the lines of a text. It answers where a byte offset lies, what a line says, and draws
the excerpt under a diagnostic: the line with carets below the reported stretch.
-/

namespace AnnotatedGrammar

/-- Splits a text behind its first `n` bytes, if a character ends there. -/
def splitAtByte : Nat → List Char → Option (List Char × List Char)
  | 0, text => some ([], text)
  | _ + 1, [] => none
  | n + 1, c :: text =>
    if c.utf8Size ≤ n + 1 then
      (splitAtByte (n + 1 - c.utf8Size) text).map fun parts => (c :: parts.1, parts.2)
    else none
termination_by _ text => text.length

/-- The text a span covers; empty when the span does not fit the text. -/
def Span.slice (span : Span) (text : List Char) : List Char :=
  if span.stop.offset < span.start.offset then []
  else
    match splitAtByte span.start.offset text with
    | none => []
    | some (_, rest) =>
      match splitAtByte (span.stop.offset - span.start.offset) rest with
      | none => []
      | some (inside, _) => inside

/-- The number of bytes of a text. -/
def byteLength (text : List Char) : Nat :=
  text.foldl (fun n c => n + c.utf8Size) 0

/-- Removes the longest run of `c` from the end of a text. -/
def trimEnd (c : Char) (text : List Char) : List Char :=
  (text.reverse.dropWhile (· == c)).reverse

namespace Source

/-- One line of a text, without its line break. -/
structure Line where
  /-- Bytes of the text before the line. -/
  start : Nat
  text : List Char
deriving DecidableEq, Repr, Inhabited

/-- Cuts a text at its line breaks. `start` is the offset at which the current line began,
`offset` the offset reached, and `read` the current line so far, latest character first. -/
def splitLines (start offset : Nat) (read : List Char) : List Char → List Line
  | [] => [⟨start, read.reverse⟩]
  | c :: rest =>
    if c = '\n' then ⟨start, read.reverse⟩ :: splitLines (offset + 1) (offset + 1) [] rest
    else splitLines start (offset + c.utf8Size) (c :: read) rest

/-- The line table of a text. -/
structure Lines where
  /-- Length of the text in bytes. -/
  size : Nat
  lines : Array Line

namespace Lines

/-- The line table of a text. A text has one line more than line breaks. -/
def ofText (source : List Char) : Lines :=
  ⟨byteLength source, (splitLines 0 0 [] source).toArray⟩

/-- How many lines the text has. -/
def count (m : Lines) : Nat := m.lines.size

/-- The index of the last line that begins at or before `offset`. -/
def lineIndexAt (m : Lines) (offset : Nat) : Nat :=
  (m.lines.toList.takeWhile fun line => line.start ≤ offset).length - 1

/-- The position of a byte offset. An offset behind the text counts as its end, one inside a
character as the first column of its line. -/
def positionAt (m : Lines) (offset : Nat) : Position :=
  let offset := min offset m.size
  let index := m.lineIndexAt offset
  let line := m.lines.getD index ⟨0, []⟩
  let column :=
    match splitAtByte (offset - line.start) line.text with
    | some (before, _) => before.length
    | none => 0
  ⟨offset, index + 1, column + 1⟩

/-- The text of a line, counted from one, without the carriage returns at its end. -/
def lineText (m : Lines) (number : Nat) : Option (List Char) :=
  match number with
  | 0 => none
  | index + 1 => (m.lines[index]?).map fun line => trimEnd '\r' line.text

/-- How many carets stand under a span. A span over several lines gets one. -/
def caretCount (span : Span) : Nat :=
  if span.start.line = span.stop.line ∧ span.start.column < span.stop.column then
    span.stop.column - span.start.column
  else 1

/-- Blanks as wide as a line number. -/
def gutter (number : Nat) : String :=
  String.ofList (List.replicate (toString number).length ' ')

/-- The three lines drawn under a diagnostic: an empty gutter, the source line, the carets. -/
def excerpt (m : Lines) (span : Span) : Option String :=
  (m.lineText span.start.line).map fun line =>
    let margin := gutter span.start.line
    let indent := List.replicate (span.start.column - 1) ' '
    let carets := List.replicate (caretCount span) '^'
    margin ++ " |\n" ++ toString span.start.line ++ " | " ++ String.ofList line ++ "\n" ++
      margin ++ " | " ++ String.ofList (indent ++ carets)

end Lines
end Source
end AnnotatedGrammar
