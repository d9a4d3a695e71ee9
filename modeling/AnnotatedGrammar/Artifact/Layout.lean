/-!
# Layout of generated text

A generated file is given as a list of layout items: lines, blank lines, and changes of the
indentation. Rendering the list keeps a level of indentation and the text written so far. Blank
lines never pile up, and the finished text ends in exactly one line break.
-/

namespace AnnotatedGrammar

/-- The name and version that generated files and reports carry. -/
def toolVersion : String := "exgram 0.1.0"

/-- The comments a kind of file admits. -/
inductive CommentStyle
  /-- From two slashes to the end of the line. -/
  | line
  /-- Between a slash with a star and a star with a slash. -/
  | block
deriving DecidableEq, Repr, Inhabited

namespace Layout

/-- One step in writing a file. -/
inductive Item
  /-- A line at the current indentation; without text, an empty line. -/
  | line (text : String)
  /-- An empty line, unless there is one already or nothing was written yet. -/
  | blank
  /-- Text as it is, without indentation or line break. -/
  | raw (text : String)
  | indent
  | dedent
  /-- A header with an opening brace; what follows is indented. -/
  | opening (header : String)
  /-- The closing brace of a block and what stands behind it. -/
  | closing (suffix : String)
  /-- The notice at the top of a generated file. -/
  | banner (style : CommentStyle) (baseName : String)
deriving Repr, Inhabited

/-- A file being written. -/
structure Page where
  /-- The text written so far, latest character first. -/
  written : List Char
  /-- The level of indentation. -/
  level : Nat
deriving Repr, Inhabited

namespace Page

/-- Nothing written, no indentation. -/
def empty : Page := ⟨[], 0⟩

/-- Appends text as it is. -/
def raw (page : Page) (text : List Char) : Page :=
  { page with written := text.reverse ++ page.written }

/-- The blanks at the start of an indented line, four for each level. -/
def margin (level : Nat) : List Char := List.replicate (4 * level) ' '

/-- Appends a line at the current indentation. -/
def line (page : Page) (text : List Char) : Page :=
  match text with
  | [] => page.raw ['\n']
  | c :: rest => page.raw (margin page.level ++ (c :: rest) ++ ['\n'])

/-- Appends an empty line unless one would pile up on another or open the file. -/
def blank (page : Page) : Page :=
  match page.written with
  | [] => page
  | '\n' :: '\n' :: _ => page
  | _ => page.raw ['\n']

/-- One level deeper. -/
def indent (page : Page) : Page := { page with level := page.level + 1 }

/-- One level back; the outermost level stays. -/
def dedent (page : Page) : Page := { page with level := page.level - 1 }

end Page

/-- The text of the notice at the top of a generated file. -/
def notice (style : CommentStyle) (baseName : String) : String :=
  let text :=
    "Generated by " ++ toolVersion ++ " from grammar `" ++ baseName ++ "`. Do not edit."
  match style with
  | .line => "// " ++ text
  | .block => "/* " ++ text ++ " */"

/-- The line that opens a block. -/
def openingLine (header : String) : String :=
  if header.isEmpty then "\x7b" else header ++ " \x7b"

/-- Carries out one item. -/
def Page.write (page : Page) : Item → Page
  | .line text => page.line text.toList
  | .blank => page.blank
  | .raw text => page.raw text.toList
  | .indent => page.indent
  | .dedent => page.dedent
  | .opening header => (page.line (openingLine header).toList).indent
  | .closing suffix => page.dedent.line ("\x7d" ++ suffix).toList
  | .banner style baseName => (page.line (notice style baseName).toList).blank

/-- The page after a list of items. -/
def pageOf (items : List Item) : Page := items.foldl Page.write Page.empty

/-- Of the line breaks at the end of a text (given latest character first) keeps one, and adds it
when there is none. -/
def withFinalBreak : List Char → List Char
  | '\n' :: '\n' :: rest => withFinalBreak ('\n' :: rest)
  | '\n' :: rest => '\n' :: rest
  | text => '\n' :: text

/-- The finished text of a list of items. -/
def render (items : List Item) : String :=
  String.ofList (withFinalBreak (pageOf items).written).reverse

end Layout
end AnnotatedGrammar
