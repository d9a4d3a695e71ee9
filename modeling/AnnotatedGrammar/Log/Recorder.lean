import AnnotatedGrammar.Log.Event

/-!
# Recording events

A recorder passes on the events that are important enough. A memory keeps what it is given, in
order.
-/

namespace AnnotatedGrammar.Log

/-- Keeps the events whose level is wanted. -/
structure Recorder where
  /-- The least important level that is passed on. -/
  least : Level
deriving DecidableEq, Repr, Inhabited

/-- Whether events of a level are passed on. -/
def Recorder.wants (recorder : Recorder) (level : Level) : Bool :=
  level.reaches recorder.least

/-- What is recorded of the entries that the parts of the compiler report, in order. -/
def Recorder.record (recorder : Recorder) (origin : Option String) (entries : List Entry) :
    List Event :=
  (entries.filter fun entry => recorder.wants entry.level).map (Event.ofEntry origin)

/-- The events kept so far, oldest first. -/
structure Memory where
  events : List Event
deriving DecidableEq, Repr, Inhabited

namespace Memory

/-- Nothing kept yet. -/
def empty : Memory := ⟨[]⟩

/-- Keeps one more event. -/
def keep (memory : Memory) (event : Event) : Memory := ⟨memory.events ++ [event]⟩

/-- How many events are kept. -/
def count (memory : Memory) : Nat := memory.events.length

/-- The errors among the events. -/
def errors (memory : Memory) : List Event := memory.events.filter fun event => event.level == .error

/-- Whether an event with the code was kept. -/
def has (memory : Memory) (code : Code) : Bool := memory.events.any fun event => event.code == code

end Memory
end AnnotatedGrammar.Log
