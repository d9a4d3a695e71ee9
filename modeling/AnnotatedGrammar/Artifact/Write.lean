import AnnotatedGrammar.Artifact.Declarations
import AnnotatedGrammar.Artifact.Definitions
import AnnotatedGrammar.Artifact.ParserGrammar
import AnnotatedGrammar.Artifact.Scanner
import AnnotatedGrammar.Config.Preferences

/-!
# Writing all artifacts

The texts of the four artifacts, or the first fault among them.
-/

namespace AnnotatedGrammar

namespace ArtifactSource

/-- The layout of one of the artifacts. -/
def layout (s : ArtifactSource) : ArtifactKind → Checked (List Layout.Item)
  | .classDeclarations => .ok s.declarationLayout
  | .classDefinitions => s.definitionLayout
  | .parserGrammar => s.grammarLayout
  | .scanner => .ok s.scannerLayout

/-- One of the artifacts. -/
def write (s : ArtifactSource) (kind : ArtifactKind) : Checked Artifact := do
  return ⟨kind, s.fileName kind, Layout.render (← s.layout kind)⟩

/-- What came of each artifact, in order. -/
def attempts (s : ArtifactSource) : List (Checked Artifact) := ArtifactKind.all.map s.write

/-- All artifacts, or the first fault. -/
def writeAll (s : ArtifactSource) : Checked (List Artifact) := s.attempts.mapM id

end ArtifactSource

/-- What the log is told about the attempts at the artifacts. -/
def Artifact.entries (preferences : ArtifactPreferences) (attempts : List (Checked Artifact)) :
    List Log.Entry :=
  (attempts.flatMap fun
    | .ok a =>
      [Log.Entry.debug "Artifact rendered"
        [("artifact", a.fileName), ("bytes", toString a.text.utf8ByteSize)]]
    | .error _ => []) ++
  match attempts.mapM id with
  | .ok artifacts =>
    [Log.Entry.success Code.emitted "Artifacts rendered"
      [("artifacts", toString artifacts.length), ("parallel", toString preferences.parallel)]]
  | .error _ => []

end AnnotatedGrammar
