import AnnotatedGrammar.Artifact.Basic
import AnnotatedGrammar.Disk.Basic
import AnnotatedGrammar.Limits
import AnnotatedGrammar.Log.Event

/-!
# Reading grammars and writing artifacts

A grammar is read whole, within the size limit. Artifacts are written under temporary names first;
they get their names when every one of them is on the disk.
-/

namespace AnnotatedGrammar

/-- Why a file could not be read or written. -/
inductive FileFault
  | notFound (path : String)
  | tooLarge (path : String) (size : Nat)
  | notText (path : String)
  | unreadable (path : String) (fault : SystemFault)
  | unwritable (path : String) (fault : SystemFault)
deriving DecidableEq, Repr, Inhabited

namespace FileFault

/-- The code under which a fault is reported. -/
def code : FileFault → Code
  | notFound _ => .fileNotFound
  | tooLarge _ _ => .fileTooLarge
  | notText _ => .invalidEncoding
  | unreadable _ _ => .readFailed
  | unwritable _ _ => .writeFailed

/-- What is said about a fault. -/
def message : FileFault → String
  | notFound path => "file not found: " ++ path
  | tooLarge path size =>
    "file too large: " ++ path ++ " is " ++ toString size ++ " bytes (max: " ++
      toString Limits.fileSize ++ ")"
  | notText path => "invalid UTF-8 encoding in file: " ++ path
  | unreadable path fault => "I/O error reading " ++ path ++ ": " ++ fault.message
  | unwritable path fault => "cannot write " ++ path ++ ": " ++ fault.message

end FileFault

/-- A grammar as it was read from the disk. -/
structure GrammarFile where
  path : String
  text : List Char
  /-- What the names of the generated files begin with. -/
  baseName : String

/-- An artifact on the disk that does not have its name yet. -/
structure StagedArtifact where
  temporary : String
  target : String
deriving DecidableEq, Repr, Inhabited

/-- The paths of an artifact before and after it gets its name. -/
def StagedArtifact.ofName (directory fileName : String) : StagedArtifact where
  temporary := Path.join directory ("." ++ fileName ++ ".tmp")
  target := Path.join directory fileName

namespace Disk

variable {m : Type → Type} [Monad m]

/-- The grammar in a file. -/
def readGrammar (disk : Disk m) (tell : Log.Entry → m Unit) (path : String) :
    m (Except FileFault GrammarFile) := do
  tell (Log.Entry.debug "Reading grammar" [("file", path)])
  match ← disk.size path with
  | .error fault =>
    return .error (if fault.isMissing then .notFound path else .unreadable path fault)
  | .ok size =>
    if Limits.fileSize < size then
      let fault := FileFault.tooLarge path size
      tell (Log.Entry.error fault.code "Grammar file exceeds the size limit" none
        [("file", path), ("size", toString size), ("max_size", toString Limits.fileSize)])
      return .error fault
    else
      match ← disk.read path with
      | .error fault => return .error (.unreadable path fault)
      | .ok bytes =>
        match String.fromUTF8? bytes with
        | none => return .error (.notText path)
        | some text => return .ok ⟨path, text.toList, Path.baseName path⟩

/-- Removes what is left under temporary names. -/
def discard (disk : Disk m) (staged : List StagedArtifact) : m Unit :=
  staged.forM fun s => disk.remove s.temporary

/-- Puts artifacts on the disk under temporary names, after those of `staged`. The first failure
takes them all away again. -/
def stage (disk : Disk m) (tell : Log.Entry → m Unit) (directory : String)
    (staged : List StagedArtifact) : List Artifact → m (Except FileFault (List StagedArtifact))
  | [] => return .ok staged
  | artifact :: artifacts => do
    let paths := StagedArtifact.ofName directory artifact.fileName
    match ← disk.write paths.temporary artifact.text with
    | .ok () => disk.stage tell directory (staged ++ [paths]) artifacts
    | .error fault =>
      disk.discard staged
      tell (Log.Entry.error .writeFailed "Staging an artifact failed" none
        [("file", paths.temporary)])
      return .error (.unwritable paths.temporary fault)

/-- Gives artifacts their names; those of `written` have theirs. The first failure takes all of
them away, the temporary ones and the others. -/
def publish (disk : Disk m) (tell : Log.Entry → m Unit) (written : List String) :
    List StagedArtifact → m (Except FileFault (List String))
  | [] => return .ok written
  | paths :: staged => do
    match ← disk.rename paths.temporary paths.target with
    | .ok () => disk.publish tell (written ++ [paths.target]) staged
    | .error fault =>
      disk.discard (paths :: staged)
      written.forM disk.remove
      tell (Log.Entry.error .writeFailed "Writing an artifact failed" none
        [("file", paths.target)])
      return .error (.unwritable paths.target fault)

/-- Writes artifacts into a directory, which is made if need be, and gives their paths. -/
def writeArtifacts (disk : Disk m) (tell : Log.Entry → m Unit) (directory : String)
    (artifacts : List Artifact) : m (Except FileFault (List String)) := do
  match ← disk.ensureDirectories directory (Path.enclosing directory) with
  | .error fault => return .error (.unwritable directory fault)
  | .ok () =>
    match ← disk.stage tell directory [] artifacts with
    | .error fault => return .error fault
    | .ok staged =>
      match ← disk.publish tell [] staged with
      | .error fault => return .error fault
      | .ok written =>
        tell (Log.Entry.success .artifactsWritten "Artifacts written"
          [("directory", directory), ("files", toString written.length)])
        return .ok written

end Disk
end AnnotatedGrammar
