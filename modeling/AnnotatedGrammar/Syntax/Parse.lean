import AnnotatedGrammar.Config.Preferences
import AnnotatedGrammar.Syntax.Fault
import AnnotatedGrammar.Syntax.Tree
import AnnotatedGrammar.Token.Stream

/-!
# Parsing a grammar

A grammar is a sequence of directives and rules, each ended by a semicolon. Parsing goes down from
alternatives to sequences, elements and groups. An error ends the rule it occurs in; the parser
then goes on behind the next semicolon, or at once where only a semicolon is missing.
-/

namespace AnnotatedGrammar

/-- The outcome of parsing a construct, with the stream where parsing stopped. -/
inductive Parsed (α : Type) where
  | done (value : α) (s : TokenStream)
  | failed (error : SyntaxError) (s : TokenStream)

/-- Reads a construct from the current token on. -/
abbrev Parser (α : Type) := TokenStream → Parsed α

namespace Parsed

/-- The stream where parsing stopped. -/
def stream {α : Type} : Parsed α → TokenStream
  | done _ s => s
  | failed _ s => s

/-- Goes on behind a construct that was read. -/
def bind {α β : Type} (r : Parsed α) (next : α → Parser β) : Parsed β :=
  match r with
  | done value s => next value s
  | failed error s => failed error s

/-- Fails at a place. -/
def failAt {α : Type} (fault : SyntaxFault) (span : Span) (s : TokenStream) : Parsed α :=
  failed ⟨fault, span⟩ s

/-- Fails at the current token. -/
def failHere {α : Type} (fault : SyntaxFault) (s : TokenStream) : Parsed α :=
  failAt fault s.currentSpan s

end Parsed

namespace TokenStream

/-- Takes the current token if it is the expected one. -/
def takeIf? (s : TokenStream) (expected : Token) : Option TokenStream :=
  if s.check expected then some s.advance else none

end TokenStream

namespace Parser

open Parsed

/-- How many tokens ahead the markers end that begin `n` tokens ahead. -/
def behindMarkers (s : TokenStream) (n : Nat) : Nat :=
  match s.peek? n, _h : s.peek? (n + 1) with
  | some .atSign, some (.identifier _) =>
    match s.peek? (n + 2) with
    | some .leftParen =>
      match s.peek? (n + 3), s.peek? (n + 4) with
      | some (.identifier _), some .rightParen => behindMarkers s (n + 5)
      | some (.literal _), some .rightParen => behindMarkers s (n + 5)
      | _, _ => n + 2
    | _ => behindMarkers s (n + 2)
  | _, _ => n
termination_by s.remaining - n
decreasing_by
  all_goals
    have := TokenStream.lt_remaining_of_peek? ‹s.peek? (n + 1) = some _›
    omega

/-- Whether a rule begins here: a name between markers, then an equals sign. -/
def ruleStartsHere (s : TokenStream) : Bool :=
  let n := behindMarkers s 0
  match s.peek? n with
  | some (.identifier _) => s.peek? (behindMarkers s (n + 1)) == some .equals
  | _ => false

/-- The value of a marker or directive, if the current token can be one. -/
def valueToken? (s : TokenStream) : Option String :=
  match s.token? with
  | some (.identifier text) => some text
  | some (.literal text) => some text
  | _ => none

/-- Reads the value of a marker behind its name, if it has one. -/
def markerValue (key : String) : Parser (Option String) := fun s =>
  match s.takeIf? .leftParen with
  | none => done none s
  | some s =>
    match valueToken? s with
    | none => failHere (.malformedMarker (.noValue key)) s
    | some value =>
      match s.advance.takeIf? .rightParen with
      | some s => done (some value) s
      | none => failHere (.malformedMarker (.notClosed key)) s.advance

/-- Reads one marker; the current token is its `@`. -/
def marker : Parser Marker := fun s =>
  match s.advance.token? with
  | some (.identifier key) =>
    (markerValue key s.advance.advance).bind fun value after =>
      done ⟨key, value, after.spanFrom s.position⟩ after
  | _ => failHere (.malformedMarker .noName) s.advance

/-- Reads all markers from here on; `read` holds the markers before them, latest first. -/
def markersFrom (read : List Marker) : Parser (List Marker) := fun s =>
  if s.check .atSign then
    match marker s with
    | failed error after => failed error after
    | done m after =>
      if after.remaining < s.remaining then markersFrom (m :: read) after
      else done (m :: read).reverse after
  else done read.reverse s
termination_by s => s.remaining

/-- Reads all markers from here on. -/
def markers : Parser (List Marker) := markersFrom []

/-- Reads what an element consists of before its quantifiers; `group` reads a parenthesis. -/
def primary (group : Parser Expr) : Parser Expr := fun s =>
  match s.current? with
  | none => failHere (.unexpectedEnd .expression) s
  | some token =>
    let info : NodeInfo := ⟨0, [], token.span⟩
    match token.value with
    | .identifier name => done (.reference info name) s.advance
    | .literal text => done (.terminal info (.literal text)) s.advance
    | .pattern p => done (.terminal info (.pattern p)) s.advance
    | .leftParen => group s
    | .rightParen => failAt .unmatchedClosing token.span s
    | .endOfInput => failAt (.unexpectedEnd .expression) token.span s
    | other => failAt (.unexpectedToken .expression other) token.span s

/-- Wraps an element into the quantifiers behind it; `start` is the index of the element's first
token. -/
def quantifiers (start : Nat) (e : Expr) (s : TokenStream) : Expr × TokenStream :=
  let info : NodeInfo := ⟨0, [], s.advance.spanFrom start⟩
  match _h : s.token? with
  | some .question => quantifiers start (.optional info e) s.advance
  | some .star => quantifiers start (.repeated info e .zeroOrMore) s.advance
  | some .plus => quantifiers start (.repeated info e .oneOrMore) s.advance
  | _ => (e, s)
termination_by s.remaining
decreasing_by
  all_goals exact TokenStream.remaining_advance_lt_of_token? ‹s.token? = some _›

/-- Reads one element. The markers in front of it are returned apart, since the sequence around it
decides whose they are. -/
def element (group : Parser Expr) : Parser (Expr × List Marker) := fun s =>
  (markers s).bind fun before afterMarkers =>
    (primary group afterMarkers).bind fun core afterCore =>
      let (quantified, afterQuantifiers) := quantifiers s.position core afterCore
      (markers afterQuantifiers).bind fun behind after =>
        done (quantified.withMarkersAfter behind, before) after

/-- Whether an element of a sequence begins here. -/
def elementStartsHere (s : TokenStream) : Bool :=
  (match s.token? with
  | some token => token.startsElement
  | none => false) && !ruleStartsHere s

/-- Reads the elements of a sequence; `read` holds those before them, latest first. -/
def elementsFrom (group : Parser Expr) (read : List (Expr × List Marker)) :
    Parser (List (Expr × List Marker)) := fun s =>
  if elementStartsHere s then
    match element group s with
    | failed error after => failed error after
    | done item after =>
      if after.remaining < s.remaining then elementsFrom group (item :: read) after
      else done (item :: read).reverse after
  else done read.reverse s
termination_by s => s.remaining

/-- Whether a marker in front of the first element describes the sequence as a whole. -/
def describesSequence (m : Marker) : Bool :=
  m.key == MarkerKey.classOf.word || m.key == MarkerKey.typeOf.word

/-- Gives every element the markers in front of it. -/
def ownMarkers (item : Expr × List Marker) : Expr := item.1.withMarkersBefore item.2

/-- Reads a sequence; a single element stands for itself. -/
def sequence (group : Parser Expr) (context : ParseContext) : Parser Expr := fun s =>
  (elementsFrom group [] s).bind fun items after =>
    match items with
    | [] =>
      match after.token? with
      | some .endOfInput | none => failHere (.unexpectedEnd (.expressionIn context)) after
      | some _ => failHere (.emptyExpression context) after
    | [item] => done (ownMarkers item) after
    | first :: second :: others =>
      let (hoisted, own) := first.2.partition describesSequence
      let elements := ownMarkers (first.1, own) :: (second :: others).map ownMarkers
      done (.sequence ⟨0, hoisted, after.spanFrom s.position⟩ elements) after

/-- Reads the branches behind the first one, each behind its bar; `read` holds the branches before
them, latest first. -/
def branchesFrom (group : Parser Expr) (context : ParseContext) (read : List Expr) :
    Parser (List Expr) := fun s =>
  match s.takeIf? .pipe with
  | none => done read.reverse s
  | some behindBar =>
    match sequence group context behindBar with
    | failed error after => failed error after
    | done branch after =>
      if after.remaining < s.remaining then branchesFrom group context (branch :: read) after
      else done (branch :: read).reverse after
termination_by s => s.remaining

/-- Reads an alternation; a single branch stands for itself. -/
def alternation (group : Parser Expr) (context : ParseContext) : Parser Expr := fun s =>
  (sequence group context s).bind fun first afterFirst =>
    (branchesFrom group context [first] afterFirst).bind fun branches after =>
      match branches with
      | [branch] => done branch after
      | branches => done (.alternation ⟨0, [], after.spanFrom s.position⟩ branches) after

/-- Reads a group; the current token is its opening parenthesis and `inner` reads what is between
the parentheses. -/
def group (inner : Parser Expr) : Parser Expr := fun s =>
  (inner s.advance).bind fun body afterBody =>
    match afterBody.takeIf? .rightParen with
    | some after => done (.group ⟨0, [], after.spanFrom s.position⟩ body) after
    | none =>
      match afterBody.token? with
      | some .semicolon | some .endOfInput | none =>
        failAt .unmatchedOpening s.currentSpan afterBody
      | some other =>
        if ruleStartsHere afterBody then failAt .unmatchedOpening s.currentSpan afterBody
        else failHere (.unexpectedToken .closingParen other) afterBody

/-- Reads an alternation in which groups may nest up to a depth. -/
def expression (depth : Nat) (context : ParseContext) : Parser Expr := fun s =>
  match depth with
  | 0 => failHere .nestingTooDeep s
  | depth + 1 => alternation (group (expression depth .group)) context s

/-- Reads the equals sign of a rule. -/
def equalsSign : Parser Unit := fun s =>
  match s.takeIf? .equals with
  | some after => done () after
  | none =>
    match s.token? with
    | some .endOfInput | none => failHere (.unexpectedEnd .equals) s
    | some other => failHere (.unexpectedToken .equals other) s

/-- Reads the name of a rule. -/
def ruleName : Parser (Located String) := fun s =>
  match s.current? with
  | none => failHere (.unexpectedEnd .ruleName) s
  | some token =>
    match token.value with
    | .identifier name => done ⟨name, token.span⟩ s.advance
    | other => failAt (.unexpectedToken .ruleName other) token.span s

/-- Reads the semicolon behind the rule of a name. -/
def terminator (name : String) : Parser Unit := fun s =>
  let missing := failAt (.missingTerminator name) (Span.point s.previousSpan.stop) s
  match s.token? with
  | some .semicolon => done () s.advance
  | some .rightParen => failHere .unmatchedClosing s
  | some .endOfInput | none => missing
  | some other =>
    if ruleStartsHere s then missing else failHere (.unexpectedToken .terminator other) s

/-- Reads a rule. Its markers stand before or behind its name. -/
def rule : Parser Rule := fun s =>
  (markers s).bind fun before s₁ =>
  (ruleName s₁).bind fun name s₂ =>
  (markers s₂).bind fun behind s₃ =>
  (equalsSign s₃).bind fun _ s₄ =>
  (expression Limits.nestingDepth (.rule name.value) s₄).bind fun body s₅ =>
  (terminator name.value s₅).bind fun _ after =>
    done ⟨name.value, name.span, before ++ behind, body, after.spanFrom s.position⟩ after

/-- Reads a directive; the current token is its percent sign. -/
def directive : Parser Directive := fun s =>
  match s.advance.token? with
  | some (.identifier name) =>
    let atValue := s.advance.advance
    match valueToken? atValue with
    | none => failHere (.malformedDirective (.noValue name)) atValue
    | some value =>
      match atValue.advance.takeIf? .semicolon with
      | none => failHere (.malformedDirective (.noTerminator name)) atValue.advance
      | some after => done ⟨name, value, after.spanFrom s.position⟩ after
  | _ => failHere (.malformedDirective .noName) s.advance

/-- Moves behind the next semicolon, or to the end. -/
def skipPastSemicolon (s : TokenStream) : TokenStream :=
  match _h : s.token? with
  | none => s
  | some .endOfInput => s
  | some .semicolon => s.advance
  | some _ => skipPastSemicolon s.advance
termination_by s.remaining
decreasing_by exact TokenStream.remaining_advance_lt_of_token? ‹s.token? = some _›

/-- A directive or a rule. -/
inductive Item
  | directive (d : Directive)
  | rule (r : Rule)

/-- Reads a directive or a rule. -/
def item : Parser Item := fun s =>
  match s.token? with
  | some .percent => (directive s).bind fun d after => done (.directive d) after
  | some (.identifier _) | some .atSign => (rule s).bind fun r after => done (.rule r) after
  | some other => failHere (.unexpectedToken .ruleOrDirective other) s
  | none => failHere (.unexpectedEnd .ruleOrDirective) s

end Parser

/-- Everything that parsing a grammar has found so far. -/
structure ParseState where
  stream : TokenStream
  /-- The directives read, latest first. -/
  directives : List Directive
  /-- The rules read, latest first. -/
  rules : List Rule
  /-- The errors found, latest first. -/
  errors : List SyntaxError

namespace ParseState

/-- Nothing found yet. -/
def initial (s : TokenStream) : ParseState := ⟨s, [], [], []⟩

/-- Takes note of an error and moves to where parsing can go on. -/
def note (state : ParseState) (error : SyntaxError) (s : TokenStream) : ParseState :=
  let errors := error :: state.errors
  if Limits.syntaxErrors ≤ errors.length then
    { state with stream := s, errors := ⟨.tooManyErrors, s.currentSpan⟩ :: errors }
  else
    match error.value with
    | .missingTerminator _ => { state with stream := s, errors }
    | _ => { state with stream := Parser.skipPastSemicolon s, errors }

/-- Reads the next directive or rule. -/
def step (state : ParseState) : ParseState :=
  match Parser.item state.stream with
  | .done (.directive d) s => { state with stream := s, directives := d :: state.directives }
  | .done (.rule r) s => { state with stream := s, rules := r :: state.rules }
  | .failed error s => state.note error s

/-- Whether nothing more is read. -/
def isFinal (preferences : ParsePreferences) (before after : ParseState) : Bool :=
  before.errors.length < after.errors.length &&
    (!preferences.recover || after.errors.any fun e => e.value.endsParsing)

/-- Reads directives and rules up to the end of the stream. -/
def run (preferences : ParsePreferences) (state : ParseState) : ParseState :=
  if state.stream.atEnd then state
  else
    let next := state.step
    if isFinal preferences state next then next
    else if next.stream.remaining < state.stream.remaining then run preferences next
    else next
termination_by state.stream.remaining

/-- All errors in order, with the complaint about a grammar that has neither rules nor errors. -/
def allErrors (state : ParseState) : List SyntaxError :=
  match state.errors, state.rules with
  | [], [] => [⟨.emptyGrammar, state.stream.currentSpan⟩]
  | errors, _ => errors.reverse

/-- The grammar that was read, or all syntax errors. -/
def result (state : ParseState) : Except (List SyntaxError) Grammar :=
  match state.allErrors with
  | [] => .ok (Grammar.ofParts state.directives.reverse state.rules.reverse)
  | errors => .error errors

end ParseState

/-- Parses a whole token stream. -/
def TokenStream.parse (preferences : ParsePreferences) (s : TokenStream) : ParseState :=
  ParseState.run preferences (ParseState.initial s)

/-- The grammar of a token stream, or all its syntax errors. -/
def TokenStream.grammar (preferences : ParsePreferences) (s : TokenStream) :
    Except (List SyntaxError) Grammar :=
  (s.parse preferences).result

/-- What the log is told about parsing a token stream. -/
def ParseState.entries (preferences : ParsePreferences) (s : TokenStream) (state : ParseState) :
    List Log.Entry :=
  let opening :=
    [Log.Entry.debug "Starting syntax analysis" [("tokens", toString s.size)],
      Log.Entry.debug "Creating grammar parser" [("tokens", toString s.size)]]
  let rules :=
    if preferences.ruleSummaries then
      state.rules.reverse.map fun r =>
        Log.Entry.debug "Parsed rule"
          [("rule", r.name), ("line", toString r.span.start.line)]
    else []
  let closing :=
    match state.result with
    | .ok grammar =>
      [Log.Entry.success Code.parsed "Grammar parsed successfully"
        [("rules", toString grammar.rules.size),
          ("directives", toString grammar.directives.length),
          ("nodes", toString grammar.nodeCount)]]
    | .error errors =>
      errors.map fun e => Log.Entry.error e.value.code e.value.message (some e.span) []
  opening ++ rules ++ closing

end AnnotatedGrammar
