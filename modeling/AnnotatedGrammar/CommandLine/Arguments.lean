/-!
# Arguments of a command

Arguments are read one after another as switches, options with values and operands. A request for
the version or for help ends the reading, and so does the first fault.
-/

namespace AnnotatedGrammar.CommandLine

/-- What is said once to be chosen. -/
inductive Switch
  | warningsAsErrors
  | sequential
  | json
  | quiet
deriving DecidableEq, Repr, Inhabited

/-- What is followed by a value. -/
inductive Setting
  | outDirectory
  | namespaceName
  | classPrefix
  | preferences
deriving DecidableEq, Repr, Inhabited

/-- What an argument, or a part of one, stands for. -/
inductive Item
  | switch (s : Switch)
  | setting (s : Setting) (value : String)
  | operand (value : String)
  | version
  | help
deriving DecidableEq, Repr, Inhabited

/-- What is wrong with the arguments of a command. -/
inductive UsageFault
  | unknown (argument : String)
  | valueMissing (s : Setting)
  | valueEmpty
  | valueUnneeded (name : String)
  | repeated
  | operandMissing
deriving DecidableEq, Repr, Inhabited

/-- What a fault is reported as. -/
def UsageFault.message : UsageFault → String
  | unknown argument => "unexpected argument '" ++ argument ++ "' found"
  | valueMissing .outDirectory => "a value is required for '--out-dir <DIR>' but none was supplied"
  | valueMissing .namespaceName =>
    "a value is required for '--namespace <NS>' but none was supplied"
  | valueMissing .classPrefix => "a value is required for '--prefix <P>' but none was supplied"
  | valueMissing .preferences => "a value is required for '--config <FILE>' but none was supplied"
  | valueEmpty => "a path may not be empty"
  | valueUnneeded name => "unexpected value for '--" ++ name ++ "' found; no more were expected"
  | repeated => "an argument cannot be used multiple times"
  | operandMissing => "the following required arguments were not provided:\n  <GRAMMAR>"

/-- What a letter or name on the command line asks for. -/
inductive Key
  | switch (s : Switch)
  | setting (s : Setting)
  | version
  | help

/-- The item of a key that takes no value. -/
def Key.plain? : Key → Option Item
  | switch s => some (.switch s)
  | setting _ => none
  | version => some .version
  | help => some .help

/-- The key behind two dashes. -/
def Key.ofName? : String → Option Key
  | "out-dir" => some (.setting .outDirectory)
  | "namespace" => some (.setting .namespaceName)
  | "prefix" => some (.setting .classPrefix)
  | "config" => some (.setting .preferences)
  | "warnings-as-errors" => some (.switch .warningsAsErrors)
  | "sequential" => some (.switch .sequential)
  | "json" => some (.switch .json)
  | "quiet" => some (.switch .quiet)
  | "version" => some .version
  | "help" => some .help
  | _ => none

/-- The key behind one dash. -/
def Key.ofLetter? : Char → Option Key
  | 'o' => some (.setting .outDirectory)
  | 'c' => some (.setting .preferences)
  | 'q' => some (.switch .quiet)
  | 'V' => some .version
  | 'h' => some .help
  | _ => none

/-- Items in order, or the fault at which reading them ends. -/
abbrev Items := List (Except UsageFault Item)

/-- The items of an argument, and the setting whose value is the next argument. -/
structure Reading where
  items : Items
  waiting : Option Setting

/-- Reads an argument behind two dashes; a value may follow after an equals sign. -/
def readName (argument : List Char) : Reading :=
  let name := String.ofList (argument.takeWhile (· != '='))
  let attached := argument.dropWhile (· != '=')
  match Key.ofName? name with
  | none => ⟨[.error (.unknown ("--" ++ name))], none⟩
  | some (.setting s) =>
    match attached with
    | [] => ⟨[], some s⟩
    | _ :: value => ⟨[.ok (.setting s (String.ofList value))], none⟩
  | some key =>
    if attached.isEmpty then ⟨(key.plain?.map .ok).toList, none⟩
    else ⟨[.error (.valueUnneeded name)], none⟩

/-- Reads the letters behind one dash. What follows the letter of a setting is its value, perhaps
after an equals sign. -/
def readLetters : List Char → Reading
  | [] => ⟨[], none⟩
  | letter :: rest =>
    match Key.ofLetter? letter with
    | none => ⟨[.error (.unknown (String.ofList ['-', letter]))], none⟩
    | some (.setting s) =>
      match rest with
      | [] => ⟨[], some s⟩
      | '=' :: value | value => ⟨[.ok (.setting s (String.ofList value))], none⟩
    | some key =>
      let reading := readLetters rest
      ⟨(key.plain?.map .ok).toList ++ reading.items, reading.waiting⟩

/-- Reads one argument in front of which no setting waits for its value. -/
def readArgument (argument : String) : Reading :=
  match argument.toList with
  | '-' :: '-' :: rest => readName rest
  | '-' :: letter :: rest => readLetters (letter :: rest)
  | _ => ⟨[.ok (.operand argument)], none⟩

/-- Whether an argument can be the value of the setting in front of it. -/
def isValue (argument : String) : Bool := argument == "-" || argument.toList.head? != some '-'

/-- Reads arguments; `waiting` is the setting that the first of them has to give a value to. After
two dashes alone everything is an operand. -/
def readItems : Option Setting → List String → Items
  | none, [] => []
  | some s, [] => [.error (.valueMissing s)]
  | some s, argument :: arguments =>
    if isValue argument then .ok (.setting s argument) :: readItems none arguments
    else [.error (.valueMissing s)]
  | none, argument :: arguments =>
    if argument == "--" then arguments.map fun a => .ok (.operand a)
    else
      let reading := readArgument argument
      reading.items ++ readItems reading.waiting arguments

/-- What a command is to do. -/
structure Arguments where
  grammar : String
  outDirectory : String
  namespaceName : Option String
  classPrefix : Option String
  preferences : Option String
  switches : List Switch
deriving DecidableEq, Repr, Inhabited

/-- Whether a switch was given. -/
def Arguments.has (a : Arguments) (s : Switch) : Bool := a.switches.contains s

/-- The arguments read so far. -/
structure Draft where
  grammar : Option String
  settings : List (Setting × String)
  switches : List Switch

/-- Nothing read so far. -/
def Draft.empty : Draft := ⟨none, [], []⟩

/-- Whether the value of a setting is a path. -/
def Setting.isPath : Setting → Bool
  | outDirectory | preferences => true
  | namespaceName | classPrefix => false

/-- Adds an item. Nothing may be given twice, and no path may be empty. -/
def Draft.add (draft : Draft) : Item → Except UsageFault Draft
  | .switch s =>
    if draft.switches.contains s then .error .repeated
    else .ok { draft with switches := draft.switches ++ [s] }
  | .setting s value =>
    if s.isPath && value.isEmpty then .error .valueEmpty
    else if (draft.settings.lookup s).isSome then .error .repeated
    else .ok { draft with settings := draft.settings ++ [(s, value)] }
  | .operand value =>
    if draft.grammar.isSome then .error (.unknown value)
    else if value.isEmpty then .error .valueEmpty
    else .ok { draft with grammar := some value }
  | .version | .help => .ok draft

/-- The arguments when all are read. Artifacts are written to the current directory if no other is
named. -/
def Draft.finish (draft : Draft) : Except UsageFault Arguments :=
  match draft.grammar with
  | none => .error .operandMissing
  | some grammar => .ok
    { grammar
      outDirectory := (draft.settings.lookup .outDirectory).getD "."
      namespaceName := draft.settings.lookup .namespaceName
      classPrefix := draft.settings.lookup .classPrefix
      preferences := draft.settings.lookup .preferences
      switches := draft.switches }

/-- What a user asks for. -/
inductive Request
  | generate (arguments : Arguments)
  | version
  | help
deriving DecidableEq, Repr, Inhabited

/-- Goes through items in order. -/
def Request.ofItems (draft : Draft) : Items → Except UsageFault Request
  | [] => draft.finish.map .generate
  | .error fault :: _ => .error fault
  | .ok .version :: _ => .ok .version
  | .ok .help :: _ => .ok .help
  | .ok item :: items => do ofItems (← draft.add item) items

/-- The request that arguments make. -/
def Request.ofArguments (arguments : List String) : Except UsageFault Request :=
  ofItems .empty (readItems none arguments)

/-- How the command is used. -/
def usage : String := "Usage: exgram [OPTIONS] <GRAMMAR>"

/-- What is shown to a user who asks for help. -/
def helpText : String :=
  "Generate a C++ data model, bison parser grammar and flex scanner from an annotated EBNF " ++
    "grammar\n\n" ++ usage ++ "\n\n" ++
    "Arguments:\n  <GRAMMAR>  Annotated grammar file\n\n" ++
    "Options:\n" ++
    "  -o, --out-dir <DIR>       Directory receiving the generated files [default: .]\n" ++
    "      --namespace <NS>      C++ namespace, overriding `%namespace`\n" ++
    "      --prefix <P>          Class name prefix, overriding `%prefix`\n" ++
    "      --warnings-as-errors  Fail on desugaring warnings\n" ++
    "  -c, --config <FILE>       Preferences file (TOML)\n" ++
    "      --sequential          Render the artifacts one after another\n" ++
    "      --json                Report results and diagnostics as JSON on stdout\n" ++
    "  -q, --quiet               Only report problems\n" ++
    "  -h, --help                Print help\n" ++
    "  -V, --version             Print version\n"

end AnnotatedGrammar.CommandLine
