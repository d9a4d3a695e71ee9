import AnnotatedGrammar.Artifact.Write
import AnnotatedGrammar.Diagnostic.OfError
import AnnotatedGrammar.Syntax.Parse

/-!
# Generation

From the text of a grammar to its four artifacts. The stages run in order; the first one that finds
errors ends the run, and its errors are the answer.
-/

namespace AnnotatedGrammar

/-- A result or the diagnostics of a failure, with what the log is told on the way. -/
structure Outcome (α : Type) where
  result : Except (List Diagnostic) α
  entries : List Log.Entry

namespace Outcome

variable {α β : Type}

/-- A result, and nothing for the log. -/
def pure (a : α) : Outcome α := ⟨.ok a, []⟩

/-- Goes on with a result; a failure stays as it is. -/
def bind (first : Outcome α) (next : α → Outcome β) : Outcome β :=
  match first.result with
  | .ok a =>
    let second := next a
    ⟨second.result, first.entries ++ second.entries⟩
  | .error ds => ⟨.error ds, first.entries⟩

instance : Monad Outcome where
  pure := Outcome.pure
  bind := Outcome.bind

/-- Only tells the log something. -/
def tell (entries : List Log.Entry) : Outcome Unit := ⟨.ok (), entries⟩

/-- Ends the run. -/
def fail (ds : List Diagnostic) : Outcome α := ⟨.error ds, []⟩

/-- The outcome of a stage whose errors have diagnostics. -/
def ofStage {ε : Type} (diagnostics : ε → List Diagnostic) (result : Except ε α)
    (entries : List Log.Entry) : Outcome α :=
  match result with
  | .ok a => ⟨.ok a, entries⟩
  | .error e => ⟨.error (diagnostics e), entries⟩

end Outcome

/-- What is to be generated, and how. -/
structure GenerationOptions where
  overrides : Overrides
  /-- What the names of the files begin with. -/
  baseName : String
  /-- Let warnings end the run. -/
  warningsAsErrors : Bool
  preferences : Preferences

/-- The sizes of what a run dealt with. -/
structure Statistics where
  sourceBytes : Nat
  rules : Nat
  classes : Nat
  fields : Nat
  nonterminals : Nat
  synthesized : Nat
  productions : Nat
  tokens : Nat
deriving DecidableEq, Repr, Inhabited

/-- The sizes as a JSON object. -/
def Statistics.toJson (s : Statistics) : Json :=
  .object
    [("source_bytes", .number s.sourceBytes), ("rules", .number s.rules),
      ("classes", .number s.classes), ("fields", .number s.fields),
      ("nonterminals", .number s.nonterminals), ("synthesized", .number s.synthesized),
      ("productions", .number s.productions), ("tokens", .number s.tokens)]

/-- What a run generated. -/
structure Generated where
  artifacts : List Artifact
  statistics : Statistics
  warnings : List Diagnostic
deriving Repr, Inhabited

namespace Generated

/-- What the log is told when everything is done; `elapsed` is the time the run took, in
milliseconds with two decimals. -/
def completion (g : Generated) (baseName elapsed : String) : Log.Entry :=
  Log.Entry.success Code.generated "Generation complete"
    [("base_name", baseName), ("rules", toString g.statistics.rules),
      ("classes", toString g.statistics.classes), ("fields", toString g.statistics.fields),
      ("productions", toString g.statistics.productions),
      ("synthesized", toString g.statistics.synthesized),
      ("tokens", toString g.statistics.tokens), ("duration_ms", elapsed)]

end Generated

namespace GenerationOptions

/-- The tokens of a text. -/
def scan (o : GenerationOptions) (source : List Char) : Outcome (List (Located Token)) :=
  let scan := Scan.ofText source
  .ofStage (List.map Diagnostic.ofLexicalError) scan.result
    (scan.entries o.preferences.tokens source)

/-- The grammar of a token list. -/
def parse (o : GenerationOptions) (tokens : List (Located Token)) : Outcome Grammar :=
  let stream := TokenStream.ofTokens tokens
  let state := stream.parse o.preferences.parsing
  .ofStage (List.map Diagnostic.ofSyntaxError) state.result
    (state.entries o.preferences.parsing stream)

/-- The model of a grammar. -/
def model (o : GenerationOptions) (grammar : Grammar) : Outcome GrammarModel :=
  let built := grammar.buildModel o.preferences.model o.overrides
  .ofStage (List.map Diagnostic.ofSemanticError) built.result built.entries

/-- The diagnostics of an internal fault. -/
def faultDiagnostics (fault : InternalFault) : List Diagnostic :=
  [Diagnostic.ofInternalFault fault]

/-- The production set of a model. -/
def lower (o : GenerationOptions) (m : GrammarModel) : Outcome ProductionSet :=
  let lowered := m.lower o.preferences.lowering
  .ofStage faultDiagnostics lowered.result lowered.entries

/-- The artifacts of a model and its production set. -/
def write (o : GenerationOptions) (m : GrammarModel) (set : ProductionSet)
    (catalog : TokenCatalog) : Outcome (List Artifact) :=
  let source : ArtifactSource := ⟨m, set, catalog, o.baseName, o.preferences.artifacts.banner⟩
  let attempts := source.attempts
  .ofStage faultDiagnostics (attempts.mapM id)
    (Artifact.entries o.preferences.artifacts attempts)

/-- The sizes of the results of the stages. -/
def statistics (source : List Char) (m : GrammarModel) (set : ProductionSet)
    (catalog : TokenCatalog) : Statistics where
  sourceBytes := byteLength source
  rules := m.rules.size
  classes := m.classes.size
  fields := m.fields.size
  nonterminals := set.nonterminals.size
  synthesized := set.synthesized.length
  productions := set.productions.size
  tokens := catalog.size

/-- The artifacts of a grammar text, or everything that is wrong with it. -/
def generate (o : GenerationOptions) (source : List Char) : Outcome Generated := do
  Outcome.tell
    [Log.Entry.info "Starting generation"
      [("base_name", o.baseName), ("bytes", toString (byteLength source))]]
  let tokens ← o.scan source
  let grammar ← o.parse tokens
  let m ← o.model grammar
  let set ← o.lower m
  let warnings := set.warnings.map Diagnostic.ofNestedQuantifiers
  if o.warningsAsErrors && !warnings.isEmpty then
    Outcome.fail (warnings.map Diagnostic.promoted)
  else
    let catalog := TokenCatalog.ofProductions set
    Outcome.tell [catalog.logEntry]
    let artifacts ← o.write m set catalog
    return ⟨artifacts, statistics source m set catalog, warnings⟩

end GenerationOptions
end AnnotatedGrammar
