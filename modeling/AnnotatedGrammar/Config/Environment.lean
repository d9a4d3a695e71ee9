import AnnotatedGrammar.Config.Preferences

/-!
# Preferences from the environment

Each preference has a variable of its own. A variable that is missing or says nothing sensible
leaves the standard choice in place.
-/

namespace AnnotatedGrammar.Preferences

/-- The choice that a variable makes; only `true` and `false` count. -/
def flagOf (standard : Bool) : Option String → Bool
  | some "true" => true
  | some "false" => false
  | _ => standard

/-- The level that a variable names. -/
def levelOf (standard : Log.Level) (value : Option String) : Log.Level :=
  (value.bind Log.Level.ofText?).getD standard

/-- The preferences that variables make; `lookup` looks one of them up. -/
def fromVariables {m : Type → Type} [Monad m] (lookup : String → m (Option String)) :
    m Preferences := do
  let standard := Preferences.standard
  let flag (name : String) (choice : Bool) : m Bool := do
    return flagOf choice (← lookup ("EXGRAM_" ++ name))
  return {
    tokens := {
      classCounts := ← flag "LEXICAL_DETAILED_METRICS" standard.tokens.classCounts
      commentStatistics := ← flag "LEXICAL_LOG_COMMENTS" standard.tokens.commentStatistics }
    parsing := {
      recover := ← flag "SYNTAX_RECOVER" standard.parsing.recover
      ruleSummaries := ← flag "SYNTAX_LOG_RULES" standard.parsing.ruleSummaries }
    model := {
      builtinPatterns := ← flag "MODEL_BUILTIN_PATTERNS" standard.model.builtinPatterns
      classSummaries := ← flag "MODEL_LOG_CLASSES" standard.model.classSummaries }
    lowering := {
      synthesizedRules := ← flag "DESUGAR_LOG_SYNTHESIZED" standard.lowering.synthesizedRules }
    artifacts := {
      parallel := ← flag "EMIT_PARALLEL" standard.artifacts.parallel
      banner := ← flag "EMIT_BANNER" standard.artifacts.banner }
    log := {
      structured := ← flag "LOGGING_USE_STRUCTURED" standard.log.structured
      console := ← flag "LOGGING_ENABLE_CONSOLE" standard.log.console
      least := levelOf standard.log.least (← lookup "EXGRAM_LOGGING_MIN_LEVEL")
      nameOrigin := ← flag "LOGGING_INCLUDE_SOURCE" standard.log.nameOrigin } }

end AnnotatedGrammar.Preferences
