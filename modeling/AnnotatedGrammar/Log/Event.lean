import AnnotatedGrammar.Limits
import AnnotatedGrammar.Log.Clock
import AnnotatedGrammar.Log.Code
import AnnotatedGrammar.Source.Position
import AnnotatedGrammar.Text.Cut
import AnnotatedGrammar.Text.Json

/-!
# Events of the log

Each part of the compiler reports entries: a level, a code, a message and some named values. An
entry becomes an event when it is recorded: the message is cut to its limit, superfluous values are
dropped, and the values are sorted by name.
-/

namespace AnnotatedGrammar.Log

/-- How important an event is, the most important level first. -/
inductive Level
  | error
  | warning
  | info
  | debug
deriving DecidableEq, Repr, Inhabited

namespace Level

/-- Position in the order of importance. -/
def rank : Level → Nat
  | error => 0
  | warning => 1
  | info => 2
  | debug => 3

/-- The level as it appears in log lines. -/
def word : Level → String
  | error => "ERROR"
  | warning => "WARN"
  | info => "INFO"
  | debug => "DEBUG"

/-- The level as it is named in preferences. -/
def name : Level → String
  | error => "error"
  | warning => "warning"
  | info => "info"
  | debug => "debug"

/-- All levels. -/
def all : List Level := [error, warning, info, debug]

/-- Whether an event of this level is recorded when `least` is the least important level wanted. -/
def reaches (level least : Level) : Bool := level.rank ≤ least.rank

/-- The level of a name or number, in any case. -/
def ofText? (text : String) : Option Level :=
  match (text.map Char.toLower) with
  | "error" | "0" => some error
  | "warning" | "warn" | "1" => some warning
  | "info" | "2" => some info
  | "debug" | "3" => some debug
  | _ => none

end Level

/-- Named values attached to a message, sorted by name and each name once. -/
abbrev Context := List (String × String)

namespace Context

/-- Sets a named value, in place of any earlier value of that name. -/
def insert (key value : String) : Context → Context
  | [] => [(key, value)]
  | (k, v) :: rest =>
    if key = k then (key, value) :: rest
    else if key < k then (key, value) :: (k, v) :: rest
    else (k, v) :: insert key value rest

/-- The value of a name. -/
def find? (key : String) (context : Context) : Option String :=
  List.lookup key context

/-- Sets named values one after another; the last value of a name stays. -/
def insertAll (pairs : List (String × String)) (context : Context) : Context :=
  pairs.foldl (fun acc pair => insert pair.1 pair.2 acc) context

end Context

/-- What a part of the compiler reports, before it is recorded. -/
structure Entry where
  level : Level
  code : Code
  message : String
  span : Option Span
  values : List (String × String)
deriving DecidableEq, Repr, Inhabited

namespace Entry

/-- An error at a place. -/
def error (code : Code) (message : String) (span : Option Span)
    (values : List (String × String)) : Entry :=
  ⟨.error, code, message, span, values⟩

/-- A warning at a place. -/
def warning (code : Code) (message : String) (span : Option Span) : Entry :=
  ⟨.warning, code, message, span, []⟩

/-- A part of the work is complete. -/
def success (code : Code) (message : String) (values : List (String × String)) : Entry :=
  ⟨.info, code, message, none, values⟩

/-- Plain information. -/
def info (message : String) (values : List (String × String)) : Entry :=
  ⟨.info, Code.plainInfo, message, none, values⟩

/-- Detail for whoever follows the work closely. -/
def debug (message : String) (values : List (String × String)) : Entry :=
  ⟨.debug, Code.plainDebug, message, none, values⟩

end Entry

/-- Cuts a message that is longer than the limit, and marks the cut by three dots. -/
def cutMessage (message : String) : String :=
  (Text.shorten? Limits.messageBytes message).get (Text.isSome_shorten? _ message)

/-- A recorded event. -/
structure Event where
  level : Level
  code : Code
  message : String
  span : Option Span
  context : Context
deriving DecidableEq, Repr, Inhabited

namespace Event

/-- The name under which the grammar file of an event is given. -/
def originKey : String := "file_path"

/-- Records an entry; `origin` is the grammar file being compiled, if it is to be named. -/
def ofEntry (origin : Option String) (entry : Entry) : Event where
  level := entry.level
  code := entry.code
  message := cutMessage entry.message
  span := entry.span
  context :=
    let context := Context.insertAll (entry.values.take Limits.contextEntries) []
    match origin with
    | some path => context.insert originKey path
    | none => context

/-- The event on one line for readers. -/
def line (time : Moment) (event : Event) : String :=
  let place :=
    match event.span with
    | some span => " at " ++ span.start.display
    | none => ""
  let file :=
    match event.context.find? originKey with
    | some path => " [" ++ path ++ "]"
    | none => ""
  time.timeOfDay ++ " [" ++ event.level.word ++ "] " ++ event.code.text ++ " - " ++
    event.message ++ place ++ file

/-- The event as a JSON object with sorted keys. -/
def toJson (time : Moment) (event : Event) : Json :=
  let context :=
    if event.context.isEmpty then []
    else [("context", Json.object (event.context.map fun pair => (pair.1, .string pair.2)))]
  let metadata :=
    if event.level = .error then
      [("error_metadata", Json.object
        [("description", .string event.code.description),
          ("recommended_action", .string event.code.action),
          ("recoverable", .bool event.code.recoverable),
          ("requires_halt", .bool event.code.requiresHalt)])]
    else []
  let place :=
    match event.span with
    | some span =>
      [("span", Json.object
        [("end_column", .number span.stop.column), ("end_line", .number span.stop.line),
          ("start_column", .number span.start.column),
          ("start_line", .number span.start.line)])]
    | none => []
  .object <|
    [("category", .string event.code.category), ("code", .string event.code.text)] ++ context ++
    metadata ++
    [("level", .string event.level.word), ("message", .string event.message),
      ("severity", .string event.code.severity.word)] ++
    place ++ [("timestamp", .string time.dateTime)]

end Event
end AnnotatedGrammar.Log
