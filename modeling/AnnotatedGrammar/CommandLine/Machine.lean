import AnnotatedGrammar.CommandLine.Run
import AnnotatedGrammar.Disk.Tree

/-!
# Runs in memory

A machine in memory has a tree of files, an environment and two streams, and its clock stands
still.
-/

namespace AnnotatedGrammar.CommandLine

/-- A machine in memory. -/
structure Machine where
  tree : DiskTree
  environment : List (String × String)
  now : Moment
  /-- Results, the latest first. -/
  out : List String
  /-- Problems, the latest first. -/
  err : List String

namespace Machine

/-- A machine on which nothing was written yet. -/
def start (tree : DiskTree) (environment : List (String × String)) (now : Moment) : Machine :=
  ⟨tree, environment, now, [], []⟩

/-- What a run can reach on a machine in memory. -/
def terminal : Terminal (StateM Machine) where
  disk := DiskTree.disk Machine.tree fun tree machine => { machine with tree }
  lookupVariable name machine := (machine.environment.lookup name, machine)
  out text machine := ((), { machine with out := text :: machine.out })
  err text machine := ((), { machine with err := text :: machine.err })
  now machine := (machine.now, machine)
  ticks machine := (0, machine)

/-- Answers a command on a machine. -/
def run (machine : Machine) (arguments : List String) : ExitStatus × Machine :=
  (terminal.run arguments).run machine

/-- All results. -/
def outText (machine : Machine) : String := String.join machine.out.reverse

/-- Everything about problems. -/
def errText (machine : Machine) : String := String.join machine.err.reverse

end Machine
end AnnotatedGrammar.CommandLine
