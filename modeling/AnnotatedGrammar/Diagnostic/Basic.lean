import AnnotatedGrammar.Log.Code
import AnnotatedGrammar.Source.Lines
import AnnotatedGrammar.Text.Json

/-!
# Diagnostics

What users are shown about a grammar that is wrong or doubtful: a message with its code, the place,
an excerpt of the text and advice.
-/

namespace AnnotatedGrammar

/-- The part of the work that a diagnostic comes from. -/
inductive DiagnosticKind
  | lexical
  | syntactic
  | semantic
  | desugar
  | codegen
deriving DecidableEq, Repr, Inhabited

/-- The part of the work as reports name it. -/
def DiagnosticKind.word : DiagnosticKind → String
  | lexical => "lexical"
  | syntactic => "syntax"
  | semantic => "semantic"
  | desugar => "desugar"
  | codegen => "codegen"

/-- Whether a diagnostic keeps artifacts from being generated. -/
inductive DiagnosticSeverity
  | error
  | warning
deriving DecidableEq, Repr, Inhabited

/-- The severity as reports name it. -/
def DiagnosticSeverity.word : DiagnosticSeverity → String
  | error => "error"
  | warning => "warning"

/-- A message about a grammar. -/
structure Diagnostic where
  kind : DiagnosticKind
  severity : DiagnosticSeverity
  code : Code
  message : String
  span : Option Span
  help : Option String
deriving DecidableEq, Repr, Inhabited

namespace Diagnostic

/-- An error. -/
def error (kind : DiagnosticKind) (code : Code) (message : String) (span : Option Span)
    (help : Option String) : Diagnostic :=
  ⟨kind, .error, code, message, span, help⟩

/-- Whether the diagnostic is an error. -/
def isError (d : Diagnostic) : Bool := d.severity == .error

/-- The diagnostic as an error, with its code kept. -/
def promoted (d : Diagnostic) : Diagnostic := { d with severity := .error }

/-- Severity, code and message. -/
def headline (d : Diagnostic) : String :=
  d.severity.word ++ "[" ++ d.code.text ++ "]: " ++ d.message

/-- The diagnostic on one line. -/
def display (d : Diagnostic) : String :=
  match d.span with
  | some span => d.headline ++ " at " ++ span.display
  | none => d.headline

/-- The diagnostic with an excerpt of the text, where its place is known; `origin` names the
text. -/
def render (lines : Source.Lines) (origin : String) (d : Diagnostic) : String :=
  let excerpt := d.span.bind fun span => (lines.excerpt span).map fun text => (span, text)
  let margin :=
    match excerpt with
    | some (span, _) => Source.Lines.gutter span.start.line
    | none => ""
  let place :=
    match excerpt with
    | some (span, text) =>
      "\n" ++ margin ++ "--> " ++ origin ++ ":" ++ span.start.display ++ "\n" ++ text
    | none => ""
  let advice :=
    match d.help with
    | some help => "\n" ++ margin ++ " = help: " ++ help
    | none => ""
  d.headline ++ place ++ advice

/-- A position as a JSON object. -/
def positionJson (p : Position) : Json :=
  .object [("offset", .number p.offset), ("line", .number p.line), ("column", .number p.column)]

/-- The diagnostic as a JSON object; what is not known is left out. -/
def toJson (d : Diagnostic) : Json :=
  let place :=
    match d.span with
    | some span =>
      [("span", Json.object
        [("start", positionJson span.start), ("end", positionJson span.stop)])]
    | none => []
  let advice :=
    match d.help with
    | some help => [("help", Json.string help)]
    | none => []
  .object <|
    [("kind", .string d.kind.word), ("severity", .string d.severity.word),
      ("code", .string d.code.text), ("message", .string d.message)] ++ place ++ advice

/-- How many of the diagnostics are errors. -/
def errorCount (ds : List Diagnostic) : Nat := ds.countP isError

/-- The diagnostics one a line. -/
def displayAll (ds : List Diagnostic) : String := "\n".intercalate (ds.map display)

/-- The line behind the diagnostics of a run that generated nothing. -/
def summary (count : Nat) : String :=
  "error: could not generate artifacts due to " ++ toString count ++ " previous error" ++
    (if count = 1 then "" else "s")

/-- All diagnostics with excerpts, and a summary line. -/
def renderAll (source : List Char) (origin : String) (ds : List Diagnostic) : String :=
  let lines := Source.Lines.ofText source
  String.join (ds.map fun d => d.render lines origin ++ "\n\n") ++ summary (errorCount ds)

/-- The diagnostics as a JSON array. -/
def allToJson (ds : List Diagnostic) : Json := .array (ds.map toJson)

end Diagnostic
end AnnotatedGrammar
