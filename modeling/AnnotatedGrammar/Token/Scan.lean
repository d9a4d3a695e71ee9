import AnnotatedGrammar.Config.Preferences
import AnnotatedGrammar.Source.Lines
import AnnotatedGrammar.Token.Piece
import AnnotatedGrammar.Token.Stream

/-!
# Scanning a text

A scan places the pieces of a text one after another. The tokens, the lexical errors and the
statistics are all read off the placed pieces. Only the limit on the number of tokens ends a scan
before the end of the text.
-/

namespace AnnotatedGrammar

/-- What can be wrong with a stretch of grammar text. -/
inductive LexicalFault
  | invalidCharacter (c : Char)
  | unterminatedLiteral
  | emptyLiteral
  | identifierTooLong (length : Nat)
  | literalTooLong (length : Nat)
  | invalidEscape (c : Char)
  | unterminatedComment
  | commentTooLong (length : Nat)
  | tooManyTokens (count : Nat)
  | malformedPattern (text : String)
deriving DecidableEq, Repr, Inhabited

/-- A lexical error: what is wrong, and where. -/
abbrev LexicalError := Located LexicalFault

namespace LexicalFault

/-- The text of a message about a length. -/
def lengthMessage (what : String) (length limit : Nat) : String :=
  what ++ " too long: " ++ toString length ++ " characters (max " ++ toString limit ++ ")"

/-- What users are told. -/
def message : LexicalFault → String
  | invalidCharacter c => "invalid character " ++ Text.quotedChar c
  | unterminatedLiteral => "unterminated literal"
  | emptyLiteral => "empty literal"
  | identifierTooLong n => lengthMessage "identifier" n Limits.identifierLength
  | literalTooLong n => lengthMessage "literal" n Limits.literalLength
  | invalidEscape c => "unknown escape sequence `\\" ++ c.toString ++ "`"
  | unterminatedComment => "unterminated block comment"
  | commentTooLong n => lengthMessage "comment" n Limits.commentLength
  | tooManyTokens n =>
    "too many tokens: " ++ toString n ++ " (max " ++ toString Limits.tokenCount ++ ")"
  | malformedPattern text => "malformed pattern `" ++ text ++ "`"

/-- The registered code. -/
def code : LexicalFault → Code
  | invalidCharacter _ => Code.invalidCharacter
  | unterminatedLiteral => Code.unterminatedLiteral
  | emptyLiteral => Code.emptyLiteral
  | identifierTooLong _ => Code.identifierTooLong
  | literalTooLong _ => Code.literalTooLong
  | invalidEscape _ => Code.invalidEscape
  | unterminatedComment => Code.unterminatedComment
  | commentTooLong _ => Code.commentTooLong
  | tooManyTokens _ => Code.tooManyTokens
  | malformedPattern _ => Code.malformedPattern

/-- Advice on how to mend the text. -/
def help? : LexicalFault → Option String
  | unterminatedLiteral => some "literals may not span lines"
  | emptyLiteral => some "mark optional syntax with `?` instead of an empty literal"
  | malformedPattern _ => some "patterns are <identifier>, <number>, <string> and <reference>"
  | _ => none

end LexicalFault

namespace LiteralPart

/-- The escapes without meaning among the parts of a literal; `start` is the place of the first
part. -/
def faults (start : Position) : List LiteralPart → List LexicalError
  | [] => []
  | part :: rest =>
    let stop := start.advanceOver part.text
    match part with
    | unknownEscape c => ⟨.invalidEscape c, ⟨start, stop⟩⟩ :: faults stop rest
    | _ => faults stop rest

/-- The text that the parts of a literal stand for. -/
def content (parts : List LiteralPart) : List Char := parts.filterMap meaning?

end LiteralPart

namespace Reading

/-- The token of a piece, unless the piece is wrong. -/
def token? : Reading → Option Token
  | blank => some .blank
  | lineBreak => some .lineBreak
  | lineComment body => some (.comment (String.ofList (trimEnd '\r' body)))
  | blockComment body => some (.comment (String.ofList body))
  | openComment => none
  | literal parts =>
    let content := LiteralPart.content parts
    if content.isEmpty || Limits.literalLength < content.length ||
        parts.any LiteralPart.isUnknown then none
    else some (.literal (String.ofList content))
  | openLiteral _ => none
  | pattern p => some (.pattern p)
  | badPattern => none
  | word name =>
    if Limits.identifierLength < name.length then none
    else some (.identifier (String.ofList name))
  | symbol token => some token
  | stray _ => none

/-- The number of characters of a comment, its delimiters left out. -/
def commentLength? : Reading → Option Nat
  | lineComment body => some body.length
  | blockComment body => some body.length
  | _ => none

end Reading

/-- A piece and the stretch of text it covers. -/
structure PlacedPiece where
  piece : Piece
  span : Span
deriving Repr, Inhabited

namespace PlacedPiece

/-- What is wrong with a piece. -/
def faults (p : PlacedPiece) : List LexicalError :=
  match p.piece.reading with
  | .lineComment body | .blockComment body =>
    if Limits.commentLength < body.length then [⟨.commentTooLong body.length, p.span⟩] else []
  | .openComment =>
    [⟨.unterminatedComment, ⟨p.span.start, p.span.start.advanceOver ['(', '*']⟩⟩]
  | .literal parts =>
    let content := LiteralPart.content parts
    LiteralPart.faults (p.span.start.advance '"') parts ++
      (if content.isEmpty then [⟨.emptyLiteral, p.span⟩]
      else if Limits.literalLength < content.length then
        [⟨.literalTooLong content.length, p.span⟩]
      else [])
  | .openLiteral parts =>
    LiteralPart.faults (p.span.start.advance '"') parts ++ [⟨.unterminatedLiteral, p.span⟩]
  | .badPattern => [⟨.malformedPattern (String.ofList p.piece.text), p.span⟩]
  | .word name =>
    if Limits.identifierLength < name.length then [⟨.identifierTooLong name.length, p.span⟩]
    else []
  | .stray c => [⟨.invalidCharacter c, p.span⟩]
  | .blank | .lineBreak | .pattern _ | .symbol _ => []

/-- The token of a piece with its place. -/
def token? (p : PlacedPiece) : Option (Located Token) :=
  p.piece.reading.token?.map fun token => ⟨token, p.span⟩

end PlacedPiece

/-- The result of scanning a text. -/
structure Scan where
  /-- The pieces read, in order. -/
  placed : List PlacedPiece
  /-- Where the scan ended. -/
  stop : Position
  /-- Whether there was more text when the limit on the number of tokens was reached. -/
  overflow : Bool
deriving Repr, Inhabited

namespace Scan

/-- Places pieces from a position on; `read` holds the pieces placed before, latest first, and
`count` the number of tokens among them. -/
def place (read : List PlacedPiece) (count : Nat) (start : Position) : List Piece → Scan
  | [] => ⟨read.reverse, start, false⟩
  | piece :: rest =>
    if Limits.tokenCount ≤ count then ⟨read.reverse, start, true⟩
    else
      let stop := start.advanceOver piece.text
      let placed : PlacedPiece := ⟨piece, ⟨start, stop⟩⟩
      let count := if piece.reading.token?.isSome then count + 1 else count
      place (placed :: read) count stop rest

/-- Scans a text. -/
def ofText (text : List Char) : Scan := place [] 0 Position.start (Piece.cut text)

/-- The tokens of the text without the end of the input. -/
def words (scan : Scan) : List (Located Token) := scan.placed.filterMap PlacedPiece.token?

/-- All tokens, ending with the end of the input. -/
def tokens (scan : Scan) : List (Located Token) :=
  scan.words ++ [⟨.endOfInput, Span.point scan.stop⟩]

/-- The lexical errors, in the order of the text. -/
def errors (scan : Scan) : List LexicalError :=
  scan.placed.flatMap PlacedPiece.faults ++
    (if scan.overflow then
      [⟨.tooManyTokens (scan.placed.countP fun p => p.token?.isSome), Span.point scan.stop⟩]
    else [])

/-- The tokens of a text, or everything that is wrong with it. -/
def result (scan : Scan) : Except (List LexicalError) (List (Located Token)) :=
  match scan.errors with
  | [] => .ok scan.tokens
  | errors => .error errors

end Scan

/-- Statistics of a scan. -/
structure ScanMetrics where
  totalTokens : Nat
  significantTokens : Nat
  commentCount : Nat
  longestComment : Nat
  longestLiteral : Nat
  strayCharacters : Nat
  lines : Nat
  /-- How many tokens of each class there are; classes without tokens are left out. -/
  classCounts : List (TokenClass × Nat)
deriving DecidableEq, Repr, Inhabited

namespace ScanMetrics

/-- The statistics before anything is read. -/
def zero : ScanMetrics := ⟨0, 0, 0, 0, 0, 0, 0, []⟩

/-- One more token of a class. -/
def countClass (cls : TokenClass) : List (TokenClass × Nat) → List (TokenClass × Nat)
  | [] => [(cls, 1)]
  | (other, n) :: rest =>
    if cls = other then (other, n + 1) :: rest else (other, n) :: countClass cls rest

/-- How many tokens of a class were counted. -/
def countOf (metrics : ScanMetrics) (cls : TokenClass) : Nat :=
  (metrics.classCounts.lookup cls).getD 0

/-- Counts a token. -/
def recordToken (preferences : TokenPreferences) (metrics : ScanMetrics) (token : Token) :
    ScanMetrics :=
  { metrics with
    totalTokens := metrics.totalTokens + 1
    significantTokens :=
      if token.isSignificant then metrics.significantTokens + 1 else metrics.significantTokens
    classCounts :=
      if preferences.classCounts then countClass token.tokenClass metrics.classCounts
      else metrics.classCounts }

/-- Takes down what is measured while a piece is read, before its token is counted. -/
def recordReading (metrics : ScanMetrics) : Reading → ScanMetrics
  | .lineComment body | .blockComment body =>
    { metrics with
      commentCount := metrics.commentCount + 1
      longestComment := max metrics.longestComment body.length }
  | .literal parts =>
    { metrics with
      longestLiteral := max metrics.longestLiteral (LiteralPart.content parts).length }
  | .stray _ => { metrics with strayCharacters := metrics.strayCharacters + 1 }
  | _ => metrics

/-- Takes down a piece and the token it gives, if it gives one. -/
def recordPiece (preferences : TokenPreferences) (metrics : ScanMetrics) (p : PlacedPiece) :
    ScanMetrics :=
  let noted := metrics.recordReading p.piece.reading
  match p.piece.reading.token? with
  | some token => noted.recordToken preferences token
  | none => noted

end ScanMetrics

namespace Scan

/-- The statistics of a scan; the end of the input is not counted as a token. -/
def metrics (preferences : TokenPreferences) (scan : Scan) : ScanMetrics :=
  { scan.placed.foldl (ScanMetrics.recordPiece preferences) .zero with lines := scan.stop.line }

/-- The report on one comment. -/
def commentEntry? (p : PlacedPiece) : Option Log.Entry :=
  p.piece.reading.commentLength?.map fun length =>
    .debug "Comment processed"
      [("length", toString length), ("line", toString p.span.start.line)]

/-- What the log is told about the scan of a text. -/
def entries (preferences : TokenPreferences) (text : List Char) (scan : Scan) : List Log.Entry :=
  let metrics := scan.metrics preferences
  let opening := Log.Entry.debug "Starting lexical analysis"
    [("bytes", toString (byteLength text)),
      ("max_tokens_allowed", toString Limits.tokenCount)]
  let comments :=
    if preferences.commentStatistics then scan.placed.filterMap commentEntry? else []
  let closing :=
    match scan.errors with
    | [] =>
      [Log.Entry.success Code.tokenized "Lexical analysis completed successfully"
        [("token_count", toString metrics.significantTokens),
          ("comments", toString metrics.commentCount), ("lines", toString metrics.lines)]]
    | errors =>
      errors.map fun e => Log.Entry.error e.value.code e.value.message (some e.span) []
  opening :: (comments ++ closing)

end Scan
end AnnotatedGrammar
