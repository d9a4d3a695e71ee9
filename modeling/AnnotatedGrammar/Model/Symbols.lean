import Std.Data.TreeMap
import AnnotatedGrammar.Limits
import AnnotatedGrammar.Model.Fault

/-!
# What names stand for

A name in a rule body stands for a rule or, where no rule has that name, for one of the patterns.
-/

namespace AnnotatedGrammar

/-- What a name stands for. -/
inductive Symbol
  | rule (id : RuleId)
  | builtin (pattern : Pattern)
deriving DecidableEq, Repr, Inhabited

/-- A name's meaning and where it is declared. -/
structure SymbolEntry where
  symbol : Symbol
  span : Span
deriving DecidableEq, Repr, Inhabited

/-- The meanings of all names of a grammar. -/
structure SymbolTable where
  entries : Std.TreeMap String SymbolEntry
  /-- How many different rules there are. -/
  ruleCount : Nat

namespace SymbolTable

instance : Inhabited SymbolTable := ⟨⟨∅, 0⟩⟩

/-- What a name stands for, with its declaration. -/
def entry? (t : SymbolTable) (name : String) : Option SymbolEntry := t.entries[name]?

/-- What a name stands for. -/
def resolve? (t : SymbolTable) (name : String) : Option Symbol := (t.entry? name).map (·.symbol)

/-- The rule that a name stands for. -/
def ruleId? (t : SymbolTable) (name : String) : Option RuleId :=
  match t.resolve? name with
  | some (.rule id) => some id
  | _ => none

/-- Whether a name stands for anything. -/
def contains (t : SymbolTable) (name : String) : Bool := (t.entry? name).isSome

/-- Where a name is declared. -/
def declarationSpan? (t : SymbolTable) (name : String) : Option Span :=
  (t.entry? name).map (·.span)

/-- How many names have a meaning. -/
def size (t : SymbolTable) : Nat := t.entries.size

/-- All names with what they stand for, sorted by name. -/
def toList (t : SymbolTable) : List (String × Symbol) :=
  t.entries.toList.map fun entry => (entry.1, entry.2.symbol)

/-- Declares a rule; a name that is declared already keeps its first meaning. -/
def declareRule (state : SymbolTable × List SemanticError) (id : RuleId) (rule : Rule) :
    SymbolTable × List SemanticError :=
  let (t, errors) := state
  match t.entry? rule.name with
  | some existing =>
    (t, ⟨.duplicateRule rule.name existing.span.start, rule.nameSpan⟩ :: errors)
  | none =>
    (⟨t.entries.insert rule.name ⟨.rule id, rule.nameSpan⟩, t.ruleCount + 1⟩, errors)

/-- Declares rules from an index on; errors come out latest first. -/
def declareRules (state : SymbolTable × List SemanticError) (id : RuleId) :
    List Rule → SymbolTable × List SemanticError
  | [] => state
  | rule :: rest => declareRules (declareRule state id rule) (id + 1) rest

/-- Declares a pattern under its rule name, unless a rule has that name. -/
def declareBuiltin (t : SymbolTable) (p : Pattern) : SymbolTable :=
  if t.contains p.builtinName then t
  else { t with entries := t.entries.insert p.builtinName ⟨.builtin p, Span.placeholder⟩ }

/-- The meanings of the names of a grammar, and what is wrong with its rule names. -/
def ofGrammar (grammar : Grammar) (builtins : Bool) : SymbolTable × List SemanticError :=
  let tooMany : List SemanticError :=
    match grammar.rules[Limits.rules]? with
    | some rule => [⟨.limitExceeded .rules, rule.span⟩]
    | none => []
  let (t, errors) := declareRules (⟨∅, 0⟩, tooMany) 0 grammar.rules.toList
  let t := if builtins then Pattern.all.foldl declareBuiltin t else t
  (t, errors.reverse)

end SymbolTable
end AnnotatedGrammar
