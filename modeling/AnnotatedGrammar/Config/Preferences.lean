import AnnotatedGrammar.Log.Event

/-!
# Preferences

What a user may choose about a run. None of these choices changes a fixed limit.
-/

namespace AnnotatedGrammar

/-- Choices about reading tokens. -/
structure TokenPreferences where
  /-- Count the tokens of each class. -/
  classCounts : Bool
  /-- Report the length of every comment. -/
  commentStatistics : Bool
deriving DecidableEq, Repr, Inhabited

/-- Choices about parsing. -/
structure ParsePreferences where
  /-- Go on with the next rule after an error. -/
  recover : Bool
  /-- Report every rule. -/
  ruleSummaries : Bool
deriving DecidableEq, Repr, Inhabited

/-- Choices about building the model. -/
structure ModelPreferences where
  /-- Make the patterns available as rules without angle brackets. -/
  builtinPatterns : Bool
  /-- Report every class. -/
  classSummaries : Bool
deriving DecidableEq, Repr, Inhabited

/-- Choices about lowering rules to productions. -/
structure LoweringPreferences where
  /-- Report every synthesized nonterminal. -/
  synthesizedRules : Bool
deriving DecidableEq, Repr, Inhabited

/-- Choices about writing artifacts. -/
structure ArtifactPreferences where
  /-- Write the four artifacts at the same time. -/
  parallel : Bool
  /-- Begin every artifact with a notice that it was generated. -/
  banner : Bool
deriving DecidableEq, Repr, Inhabited

/-- Choices about the log. -/
structure LogPreferences where
  /-- Write JSON lines instead of lines for readers. -/
  structured : Bool
  /-- Write the log to the console at all. -/
  console : Bool
  /-- The least important level that is written. -/
  least : Log.Level
  /-- Name the grammar file in every event. -/
  nameOrigin : Bool
deriving DecidableEq, Repr, Inhabited

/-- Everything a user may choose. -/
structure Preferences where
  tokens : TokenPreferences
  parsing : ParsePreferences
  model : ModelPreferences
  lowering : LoweringPreferences
  artifacts : ArtifactPreferences
  log : LogPreferences
deriving DecidableEq, Repr, Inhabited

/-- The choices of a user who makes none. -/
def Preferences.standard : Preferences where
  tokens := ⟨true, false⟩
  parsing := ⟨true, false⟩
  model := ⟨true, false⟩
  lowering := ⟨false⟩
  artifacts := ⟨true, true⟩
  log := ⟨false, false, .info, true⟩

/-- The preferences with the artifacts written one after another. -/
def Preferences.sequential (p : Preferences) : Preferences :=
  { p with artifacts := { p.artifacts with parallel := false } }

/-- The choices about the log together with its fixed limits. -/
def LogPreferences.summary (p : LogPreferences) : String :=
  "Logging configuration (" ++ Limits.provenance ++ "):\n" ++
    "  min level: " ++ p.least.word ++ "\n" ++
    "  structured: " ++ toString p.structured ++ "\n" ++
    "  console: " ++ toString p.console ++ "\n" ++
    "  source context: " ++ toString p.nameOrigin ++ "\n" ++
    "  max message length: " ++ toString Limits.messageBytes ++ "\n" ++
    "  max context entries: " ++ toString Limits.contextEntries ++ "\n"

end AnnotatedGrammar
