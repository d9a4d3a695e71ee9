import AnnotatedGrammar.CommandLine.Arguments
import AnnotatedGrammar.Config.Document
import AnnotatedGrammar.Config.Environment
import AnnotatedGrammar.Disk.Transfer
import AnnotatedGrammar.Generation
import AnnotatedGrammar.Log.Recorder

/-!
# A run of the command

A run reads a grammar, generates its artifacts and writes them, and reports what happened on two
streams: results on one, problems on the other. It needs nothing but what a terminal offers, so the
same run works on a real machine and on one in memory.
-/

namespace AnnotatedGrammar.CommandLine

/-- What a run can reach. -/
structure Terminal (m : Type → Type) where
  disk : Disk m
  /-- The value of a variable of the environment. -/
  lookupVariable : String → m (Option String)
  /-- Writes a result. -/
  out : String → m Unit
  /-- Writes about a problem. -/
  err : String → m Unit
  now : m Moment
  /-- A clock that only runs forward, in nanoseconds. -/
  ticks : m Nat

/-- What ends a run without a result, apart from what is wrong with the grammar. -/
inductive RunFault
  /-- The preferences could not be read. -/
  | preferencesUnreadable (path reason : String)
  /-- The preferences are no document, or give a preference a value that it cannot have. -/
  | preferencesInvalid
  | file (fault : FileFault)

namespace RunFault

/-- The code under which a fault is reported. -/
def code : RunFault → Code
  | preferencesUnreadable _ _ | preferencesInvalid => .startupFailure
  | file fault => fault.code

/-- What is said about a fault. -/
def message : RunFault → String
  | preferencesUnreadable path reason =>
    "cannot read preferences file " ++ path ++ ": " ++ reason
  | preferencesInvalid => "invalid preferences file: not a table of preferences"
  | file fault => fault.message

end RunFault

/-- Nanoseconds as milliseconds with two decimals. -/
def durationText (nanoseconds : Nat) : String :=
  let hundredths := (nanoseconds + 5000) / 10000
  toString (hundredths / 100) ++ "." ++ Moment.padded 2 (hundredths % 100)

/-- The directory of the artifacts as it is shown. -/
def shownDirectory (directory : String) : String := if directory.isEmpty then "." else directory

/-- How a run ends. -/
inductive ExitStatus
  | success
  | failure
  | misuse
deriving DecidableEq, Repr, Inhabited

/-- The number that a system knows a status by. -/
def ExitStatus.number : ExitStatus → Nat
  | success => 0
  | failure => 1
  | misuse => 2

/-- A report on a run that generated nothing, as JSON. -/
def failureReport (ds : List Diagnostic) : Json :=
  .object [("success", .bool false), ("diagnostics", Diagnostic.allToJson ds)]

/-- A report on a run that wrote files, as JSON. -/
def successReport (files : List String) (generated : Generated) : Json :=
  .object <|
    [("success", .bool true)] ++
    (if files.isEmpty then [] else [("files", .array (files.map .string))]) ++
    [("stats", generated.statistics.toJson),
      ("diagnostics", Diagnostic.allToJson generated.warnings)]

/-- The line about a run that wrote files. -/
def successLine (files : List String) (directory : String) (statistics : Statistics) : String :=
  "Generated " ++ toString files.length ++ " files in " ++ shownDirectory directory ++ " (" ++
    toString statistics.classes ++ " classes, " ++ toString statistics.productions ++
    " productions, " ++ toString statistics.tokens ++ " tokens)\n"

/-- What is to be generated for a grammar file. -/
def Arguments.options (a : Arguments) (preferences : Preferences) (baseName : String) :
    GenerationOptions where
  overrides := ⟨a.namespaceName, a.classPrefix⟩
  baseName := baseName
  warningsAsErrors := a.has .warningsAsErrors
  preferences := preferences

/-- The preferences as the command changes them. -/
def Arguments.adjust (a : Arguments) (p : Preferences) : Preferences :=
  if a.has .sequential then p.sequential else p

namespace Terminal

variable {m : Type → Type} [Monad m]

/-- Logs an entry as the preferences ask; without preferences nothing is logged. `origin` is the
grammar file being compiled. Errors and warnings, and all structured lines, are problems. -/
def log (t : Terminal m) (preferences : Option LogPreferences) (origin : Option String)
    (entry : Log.Entry) : m Unit := do
  match preferences with
  | none => return
  | some p =>
    let origin := if p.nameOrigin then origin else none
    for event in (⟨p.least⟩ : Log.Recorder).record origin [entry] do
      if p.console then
        let now ← t.now
        if p.structured then t.err ((event.toJson now).compact ++ "\n")
        else if event.level.reaches .warning then t.err (event.line now ++ "\n")
        else t.out (event.line now ++ "\n")

/-- Reports what ended a run. -/
def fail (t : Terminal m) (log : Option LogPreferences) (fault : RunFault) : m ExitStatus := do
  t.log log none (Log.Entry.error fault.code fault.message none [])
  t.err ("error[" ++ fault.code.text ++ "]: " ++ fault.message ++ "\n")
  return .failure

/-- Preferences as the document in a file changes them. -/
def loadPreferences (t : Terminal m) (path : String) (given : Preferences) :
    m (Except RunFault Preferences) := do
  match ← t.disk.read path with
  | .error fault => return .error (.preferencesUnreadable path fault.message)
  | .ok bytes =>
    match String.fromUTF8? bytes with
    | none => return .error (.preferencesUnreadable path "stream did not contain valid UTF-8")
    | some text =>
      match given.overrideFromText? text.toList with
      | none => return .error .preferencesInvalid
      | some preferences => return .ok preferences

/-- The preferences of a run: those of the environment, changed by a document if one is named. -/
def preferences (t : Terminal m) (a : Arguments) : m (Except RunFault Preferences) := do
  let given ← Preferences.fromVariables t.lookupVariable
  match a.preferences with
  | none => return .ok given
  | some path => t.loadPreferences path given

/-- Generates the artifacts of a grammar and logs how that went. -/
def generate (t : Terminal m) (log : Option LogPreferences) (options : GenerationOptions)
    (file : GrammarFile) : m (Except (List Diagnostic) Generated) := do
  let started ← t.ticks
  let outcome := options.generate file.text
  for entry in outcome.entries do
    t.log log (some file.path) entry
  match outcome.result with
  | .error ds => return .error ds
  | .ok generated =>
    let elapsed := durationText ((← t.ticks) - started)
    t.log log (some file.path) (generated.completion options.baseName elapsed)
    return .ok generated

/-- Tells what is wrong with a grammar. -/
def reportFailure (t : Terminal m) (a : Arguments) (file : GrammarFile) (ds : List Diagnostic) :
    m Unit :=
  if a.has .json then t.out ((failureReport ds).pretty ++ "\n")
  else t.err (Diagnostic.renderAll file.text file.path ds ++ "\n")

/-- Tells what may be wrong with a grammar. -/
def reportWarnings (t : Terminal m) (a : Arguments) (file : GrammarFile) (ds : List Diagnostic) :
    m Unit := do
  unless a.has .json do
    let lines := Source.Lines.ofText file.text
    for d in ds do
      t.err (d.render lines file.path ++ "\n\n")

/-- Tells what was written. -/
def reportSuccess (t : Terminal m) (a : Arguments) (generated : Generated) (files : List String) :
    m Unit :=
  if a.has .json then t.out ((successReport files generated).pretty ++ "\n")
  else if a.has .quiet then return
  else t.out (successLine files a.outDirectory generated.statistics)

/-- From a grammar file to the files of its artifacts. -/
def compile (t : Terminal m) (a : Arguments) (preferences : Preferences)
    (log : Option LogPreferences) : m ExitStatus := do
  match ← t.disk.readGrammar (t.log log none) a.grammar with
  | .error fault => t.fail log (.file fault)
  | .ok file =>
    t.log log none (Log.Entry.info "Compiling grammar"
      [("file", file.path), ("base_name", file.baseName)])
    match ← t.generate log (a.options preferences file.baseName) file with
    | .error ds =>
      t.reportFailure a file ds
      return .failure
    | .ok generated =>
      t.reportWarnings a file generated.warnings
      match ← t.disk.writeArtifacts (t.log log none) a.outDirectory generated.artifacts with
      | .error fault => t.fail log (.file fault)
      | .ok files =>
        t.reportSuccess a generated files
        return .success

/-- Answers a command. The log starts once the preferences are known, and a quiet run has none. -/
def run (t : Terminal m) (arguments : List String) : m ExitStatus := do
  match Request.ofArguments arguments with
  | .error fault =>
    t.err ("error: " ++ fault.message ++ "\n\n" ++ usage ++ "\n\n" ++
      "For more information, try '--help'.\n")
    return .misuse
  | .ok .version =>
    t.out (toolVersion ++ "\n")
    return .success
  | .ok .help =>
    t.out helpText
    return .success
  | .ok (.generate a) =>
    match ← t.preferences a with
    | .error fault => t.fail none fault
    | .ok given =>
      let preferences := a.adjust given
      let log := if a.has .quiet then none else some preferences.log
      t.log log none (Log.Entry.success .loggingReady "Global logging system initialized" [])
      t.compile a preferences log

end Terminal
end AnnotatedGrammar.CommandLine
