import AnnotatedGrammar.CommandLine.Run
import Std.Time.DateTime.Timestamp

/-!
# The command

Runs on a real machine: its files, its environment, its clocks and its standard streams.
-/

namespace AnnotatedGrammar.CommandLine

/-- The reason that an error of the system gives. -/
def faultOf : IO.Error → SystemFault
  | .alreadyExists _ number text | .inappropriateType _ number text
  | .invalidArgument _ number text | .permissionDenied _ number text
  | .resourceExhausted _ number text | .noSuchThing _ number text
  | .noFileOrDirectory _ number text | .interrupted _ number text
  | .otherError number text | .resourceBusy number text | .resourceVanished number text
  | .unsupportedOperation number text | .hardwareFault number text
  | .unsatisfiedConstraints number text | .illegalOperation number text
  | .protocolError number text | .timeExpired number text => ⟨number.toNat, text⟩
  | .unexpectedEof => ⟨5, "unexpected end of file"⟩
  | .userError text => ⟨5, text⟩

/-- What an action gives, or why it failed. -/
def attempt {α : Type} (action : IO α) : IO (Except SystemFault α) := do
  match ← action.toBaseIO with
  | .ok a => return .ok a
  | .error e => return .error (faultOf e)

/-- The files of the machine. -/
def systemDisk : Disk IO where
  size path := attempt do
    let _ ← IO.FS.Handle.mk path .read
    return (← (← IO.FS.realPath path).metadata).byteSize.toNat
  read path := attempt do
    (← IO.FS.Handle.mk path .read).readBinToEnd
  isDirectory path := do
    match ← attempt (IO.FS.realPath path) with
    | .ok found => found.isDir
    | .error _ => return false
  makeDirectory path := attempt (IO.FS.createDir path)
  write path text := attempt (IO.FS.writeBinFile path text.toUTF8)
  rename path target := attempt (IO.FS.rename path target)
  remove path := do
    let _ ← attempt (IO.FS.removeFile path)

/-- Everything that a run can reach on the machine. -/
def systemTerminal : Terminal IO where
  disk := systemDisk
  lookupVariable name := IO.getEnv name
  out text := do
    (← IO.getStdout).putStr text
  err text := do
    (← IO.getStderr).putStr text
  now := do
    return ⟨(← Std.Time.Timestamp.now).toMillisecondsSinceUnixEpoch.val⟩
  ticks := IO.monoNanosNow

end AnnotatedGrammar.CommandLine

open AnnotatedGrammar.CommandLine in
/-- Answers the command that was given. -/
def main (arguments : List String) : IO UInt32 := do
  return (← systemTerminal.run arguments).number.toUInt32
