import AnnotatedGrammar.Config.Preferences
import AnnotatedGrammar.Toml.Document

/-!
# Preferences from a document

A document overrides preferences section by section. A section is a table with the names of its
fields, or an array with the values in the order of the fields. What it leaves out stays as it was,
and names that mean nothing here are passed over.
-/

namespace AnnotatedGrammar.Preferences

open Toml

/-- Finds what a section holds for a field, by the place of the field in the section and its
name. -/
abbrev Fields := Nat → String → Option Item

/-- The fields of a section; no result if the name stands for something else. A date has no fields
of ours. -/
def fieldsOf? (document : Entries) (name : String) : Option Fields :=
  match document.find? name with
  | none | some .date => some fun _ _ => none
  | some (.table _ entries) | some (.inlineTable entries) =>
    some fun _ field => Entries.find? field entries
  | some (.array items) => some fun place _ => items[place]?
  | some (.tableArray tables) => some fun place _ => tables[place]?.map (Item.table .explicit)
  | some _ => none

/-- The flag of a field, or the present choice. -/
def flag? (fields : Fields) (place : Nat) (name : String) (present : Bool) : Option Bool :=
  match fields place name with
  | none => some present
  | some (.boolean b) => some b
  | some _ => none

/-- The level of a name in a document; unlike in the environment, the name has to be exact. -/
def levelNamed? (name : String) : Option Log.Level := Log.Level.all.find? (·.name == name)

/-- Whether an item holds nothing. -/
def isVoid : Item → Bool
  | .array [] | .inlineTable [] | .table _ [] => true
  | _ => false

/-- The level of a field, or the present choice. Besides its name, a table with the name over
nothing stands for a level. -/
def level? (fields : Fields) (place : Nat) (name : String) (present : Log.Level) :
    Option Log.Level :=
  match fields place name with
  | none => some present
  | some (.text word) => levelNamed? word
  | some (.inlineTable [(word, item)]) | some (.table _ [(word, item)]) =>
    if isVoid item then levelNamed? word else none
  | some _ => none

/-- The preferences as a document changes them; no result if it gives a preference a value that it
cannot have. -/
def override? (present : Preferences) (document : Entries) : Option Preferences := do
  let tokens ← fieldsOf? document "lexical"
  let parsing ← fieldsOf? document "syntax"
  let model ← fieldsOf? document "model"
  let lowering ← fieldsOf? document "desugar"
  let artifacts ← fieldsOf? document "emitter"
  let log ← fieldsOf? document "logging"
  return {
    tokens := {
      classCounts := ← flag? tokens 0 "collect_detailed_metrics" present.tokens.classCounts
      commentStatistics := ←
        flag? tokens 1 "log_comment_statistics" present.tokens.commentStatistics }
    parsing := {
      recover := ← flag? parsing 0 "recover_after_errors" present.parsing.recover
      ruleSummaries := ← flag? parsing 1 "log_rule_summaries" present.parsing.ruleSummaries }
    model := {
      builtinPatterns := ← flag? model 0 "builtin_patterns" present.model.builtinPatterns
      classSummaries := ← flag? model 1 "log_class_summaries" present.model.classSummaries }
    lowering := {
      synthesizedRules := ←
        flag? lowering 0 "log_synthesized_rules" present.lowering.synthesizedRules }
    artifacts := {
      parallel := ← flag? artifacts 0 "parallel_emission" present.artifacts.parallel
      banner := ← flag? artifacts 1 "emit_banner" present.artifacts.banner }
    log := {
      structured := ← flag? log 0 "use_structured_logging" present.log.structured
      console := ← flag? log 1 "enable_console_logging" present.log.console
      least := ← level? log 2 "min_log_level" present.log.least
      nameOrigin := ← flag? log 3 "include_source_context" present.log.nameOrigin } }

/-- The preferences as the text of a document changes them. -/
def overrideFromText? (present : Preferences) (text : List Char) : Option Preferences := do
  present.override? (← parse? text)

end AnnotatedGrammar.Preferences
