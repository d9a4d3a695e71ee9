import AnnotatedGrammar.Log.Event
import AnnotatedGrammar.Production.Basic
import AnnotatedGrammar.Production.Fault

/-!
# A production set being made

The draft of a production set holds the nonterminals and productions made so far. Nonterminals and
productions are only ever added. The operations here look into no expression.
-/

namespace AnnotatedGrammar

/-- A production set being made. -/
structure ProductionDraft where
  nonterminals : Array Nonterminal
  /-- In the order in which they were made. -/
  productions : Array Production
  warnings : Array NestedQuantifiers
  /-- What the log is told, in order. -/
  entries : Array Log.Entry
deriving Inhabited

/-- Work on a production set; it can fail. -/
abbrev Lowering := EStateM InternalFault ProductionDraft

/-- What lowering one rule needs to know. -/
structure LoweringScope where
  model : GrammarModel
  rule : RuleModel
  /-- The name of the rule's nonterminal. -/
  owner : String
  /-- Report every synthesized nonterminal. -/
  reports : Bool

/-- The body of a production being put together, with the steps that fill an instance from it. -/
structure Assembly where
  body : Array Term
  steps : Array Step
deriving Repr, Inhabited

namespace Assembly

/-- Nothing yet. -/
def empty : Assembly := ⟨#[], #[]⟩

/-- Adds a term without a step. -/
def push (a : Assembly) (term : Term) : Assembly := { a with body := a.body.push term }

/-- Adds a term that carries a fragment, and the step that merges it. -/
def pushFragment (a : Assembly) (term : Term) (many : Bool) : Assembly :=
  ⟨a.body.push term, a.steps.push (.merge a.body.size many)⟩

/-- The terms put together. -/
def terms (a : Assembly) : List Term := a.body.toList

/-- The action that builds an instance by the steps put together. -/
def construct (a : Assembly) (c : ClassId) : Action := .construct c a.steps.toList

end Assembly

namespace Lowering

/-- Gives up because of something out of order. -/
def fail {α : Type} (finding : Finding) (span : Option Span) : Lowering α :=
  throw (.invariant .lowering finding span)

/-- Declares a nonterminal; a name already taken gets a number. -/
def declare (base : String) (content : Content) (origin : NonterminalOrigin) :
    Lowering NonterminalId := do
  let d ← get
  let id := d.nonterminals.size
  let name := Naming.uniqueName base id fun name => d.nonterminals.any fun n => n.name == name
  modify fun d => { d with nonterminals := d.nonterminals.push ⟨id, name, content, origin⟩ }
  return id

/-- Adds an alternative of a nonterminal. -/
def produce (lhs : NonterminalId) (body : List Term) (action : Action) (node : Option NodeId) :
    Lowering Unit :=
  modify fun d => { d with productions := d.productions.push ⟨lhs, body, action, node⟩ }

/-- Warns about the quantifiers that an expression has directly inside. -/
def warnNested (sc : LoweringScope) (e : Expr) (absorbed : List Absorption) : Lowering Unit :=
  modify fun d =>
    { d with
      warnings := d.warnings ++
        (absorbed.map fun a => (⟨a, sc.rule.name, e.span⟩ : NestedQuantifiers)).toArray }

/-- A new nonterminal for an expression, named after the rule and the expression's place in it. -/
def synthesize (sc : LoweringScope) (e : Expr) (kind : SynthesizedKind) (content : Content) :
    Lowering NonterminalId := do
  let path := sc.model.nodePath e.id
  let base :=
    if path.isEmpty then sc.owner ++ "_" ++ kind.word
    else sc.owner ++ "_" ++ path ++ "_" ++ kind.word
  let id ← declare base content (.synthesized sc.rule.id e.id kind)
  if sc.reports then
    modify fun d =>
      { d with
        entries := d.entries.push <|
          Log.Entry.debug "Synthesized nonterminal"
            [("name", (d.nonterminals.getD id default).name), ("rule", sc.rule.name),
              ("kind", kind.word)] }
  return id

/-- What a term carries. -/
def contentOf (term : Term) : Lowering Content := do
  return term.contentIn (← get).nonterminals

/-- The term that stands for a terminal or a name. -/
def leafTerm (sc : LoweringScope) (e : Expr) (name : String) : Lowering Term :=
  match sc.model.symbols.resolve? name with
  | some (.builtin p) => pure (.terminal (.pattern p))
  | some (.rule id) => pure (.nonterminal id)
  | none => fail (.unresolvedSymbol name) e.span

/-- The class that an expression with `@class` builds. -/
def bearerClass (sc : LoweringScope) (e : Expr) : Lowering ClassId :=
  match sc.model.nodeClasses.get? e.id with
  | some c => pure c
  | none => fail (.bearerWithoutClass e.display) e.span

/-- The action of a production that passes on the value of the term at `position`. -/
def forwarding (value : Option Value) (position : Option Nat) (e : Expr) : Lowering Action :=
  match value, position with
  | none, _ => pure .nothing
  | some _, some position => pure (.forward position)
  | some _, none => fail (.valueFromNowhere e.display) e.span

/-- How a value is put into a field. -/
def assignMode : Cardinality → Cardinality → AssignMode
  | .list, .list => .extend
  | .list, _ => .append
  | _, _ => .set

/-- Adds the term that an expression was lowered to, and the step that fills the field which
`owner` fills, if there is one. -/
def assign (sc : LoweringScope) (c : ClassId) (owner e : Expr) (term : Term) (a : Assembly) :
    Lowering Assembly := do
  match sc.model.fieldFor? c owner.id with
  | none => return a.push term
  | some field =>
    let (source, cardinality) ←
      match e with
      | .terminal _ (.literal text) => pure (FieldSource.lexeme text, Cardinality.scalar)
      | _ => do
        match (← contentOf term).value? with
        | some v => pure (FieldSource.position a.body.size, v.cardinality)
        | none => fail (.fieldWithoutValue field.name e.display) e.span
    let step := Step.assign field.id source (assignMode field.cardinality cardinality)
    return ⟨a.body.push term, a.steps.push step⟩

/-- The alternatives of a quantified operand without a value: the operand and what follows, or the
end. -/
def plainAlternatives (quantifier : Quantifier) (item : List Term) (this : Term) :
    List (List Term) :=
  match quantifier with
  | .optional => [item, []]
  | .zeroOrMore => [item ++ [this], []]
  | .oneOrMore => [item ++ [this], item]

/-- The alternatives of a quantified operand with a value. -/
def valuedAlternatives (quantifier : Quantifier) (v : Value) (item this : Term) :
    List (List Term × Action) :=
  match quantifier with
  | .optional =>
    [([item], .forward 0), ([], if v.cardinality = .list then .emptyList else .absent)]
  | .zeroOrMore => [([item, this], .prepend 0 1), ([], .emptyList)]
  | .oneOrMore => [([item, this], .prepend 0 1), ([item], .singleton 0)]

end Lowering
end AnnotatedGrammar
