import AnnotatedGrammar.Disk.Path

/-!
# Disks

What a run can do with files, in any kind of effect. Each operation succeeds or is refused by the
system with a reason.
-/

namespace AnnotatedGrammar

/-- Why the system refused an operation. -/
structure SystemFault where
  number : Nat
  text : String
deriving DecidableEq, Repr, Inhabited

namespace SystemFault

/-- There is nothing at a path. -/
def missing : SystemFault := ⟨2, "No such file or directory"⟩

/-- There is something at a path already. -/
def taken : SystemFault := ⟨17, "File exists"⟩

/-- A path leads through something that is not a directory. -/
def notDirectory : SystemFault := ⟨20, "Not a directory"⟩

/-- A directory stands where a file is needed. -/
def isDirectory : SystemFault := ⟨21, "Is a directory"⟩

/-- A path or a name in it is too long. -/
def nameTooLong : SystemFault := ⟨36, "File name too long"⟩

/-- The reason as it is reported. -/
def message (fault : SystemFault) : String :=
  fault.text ++ " (os error " ++ toString fault.number ++ ")"

/-- Whether the reason is that there is nothing at a path. -/
def isMissing (fault : SystemFault) : Bool := fault.number == missing.number

end SystemFault

/-- What can be done with files. -/
structure Disk (m : Type → Type) where
  /-- How many bytes something takes. -/
  size : String → m (Except SystemFault Nat)
  /-- Everything in a file. -/
  read : String → m (Except SystemFault ByteArray)
  /-- Whether a path leads to a directory. -/
  isDirectory : String → m Bool
  /-- Makes a directory in one that is there. -/
  makeDirectory : String → m (Except SystemFault Unit)
  /-- Puts a text into a file, in place of what it held. -/
  write : String → String → m (Except SystemFault Unit)
  /-- Gives a file another path, in place of a file that is there. -/
  rename : String → String → m (Except SystemFault Unit)
  /-- Removes a file; nothing happens if that fails. -/
  remove : String → m Unit

namespace Disk

variable {m : Type → Type} [Monad m]

/-- Makes a directory; one that is there already will do. -/
def ensureDirectory (disk : Disk m) (path : String) : m (Except SystemFault Unit) := do
  match ← disk.makeDirectory path with
  | .ok () => return .ok ()
  | .error fault => return if ← disk.isDirectory path then .ok () else .error fault

/-- Makes a directory, and before that the directories it lies in, as far as they are missing;
`outer` are those directories, the innermost first. -/
def ensureDirectories (disk : Disk m) (path : String) (outer : List String) :
    m (Except SystemFault Unit) := do
  match ← disk.makeDirectory path with
  | .ok () => return .ok ()
  | .error fault =>
    if fault.isMissing then
      let ready ← match outer with
        | [] => pure (.ok ())
        | parent :: others => ensureDirectories disk parent others
      match ready with
      | .ok () => disk.ensureDirectory path
      | .error fault => return .error fault
    else return if ← disk.isDirectory path then .ok () else .error fault

end Disk
end AnnotatedGrammar
