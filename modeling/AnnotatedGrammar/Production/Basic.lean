import AnnotatedGrammar.Model.Query
import AnnotatedGrammar.Production.Quantifier

/-!
# Productions

A production set derives the same texts as the rules of a grammar, by plain alternatives of terms
instead of expressions. Every production says by an action how the value of its nonterminal comes
from the values of its terms.
-/

namespace AnnotatedGrammar

/-- The index of a nonterminal. -/
abbrev NonterminalId := Nat

/-- What a term or nonterminal carries once it is matched. -/
inductive Content
  | nothing
  | value (v : Value)
  /-- A partly filled instance of a class, to be merged into the instance around it; `many` tells
  whether it collects repeated matches. -/
  | fragment (c : ClassId) (many : Bool)
deriving DecidableEq, Repr, Inhabited

namespace Content

/-- The content of a value that may be missing. -/
def ofValue? : Option Value → Content
  | some v => value v
  | none => nothing

/-- Whether there is anything to carry. -/
def hasValue : Content → Bool
  | nothing => false
  | value _ | fragment _ _ => true

/-- The value carried. -/
def value? : Content → Option Value
  | value v => some v
  | _ => none

end Content

/-- One item in the body of a production. -/
inductive Term
  | terminal (t : Terminal)
  | nonterminal (n : NonterminalId)
deriving DecidableEq, Repr, Inhabited

/-- The terminal that a term is. -/
def Term.terminal? : Term → Option Terminal
  | terminal t => some t
  | nonterminal _ => none

/-- Where an assignment takes its value from. -/
inductive FieldSource
  /-- The term at this position of the body. -/
  | position (i : Nat)
  /-- The text of a literal. -/
  | lexeme (text : String)
deriving DecidableEq, Repr, Inhabited

/-- How an assignment changes its field. -/
inductive AssignMode
  | set
  /-- Adds one item to a list. -/
  | append
  /-- Adds every item of a list to a list. -/
  | extend
deriving DecidableEq, Repr, Inhabited

/-- One step in filling an instance. -/
inductive Step
  | assign (field : FieldId) (source : FieldSource) (mode : AssignMode)
  /-- Merges the fragment at a position into the instance. -/
  | merge (position : Nat) (many : Bool)
deriving DecidableEq, Repr, Inhabited

/-- How the value of a nonterminal comes from the terms of a production. Positions count from
zero. -/
inductive Action
  | nothing
  /-- The value of one term. -/
  | forward (position : Nat)
  /-- No value, where one is optional. -/
  | absent
  | emptyList
  | prepend (item list : Nat)
  | singleton (item : Nat)
  /-- A new instance of a class, filled step by step. -/
  | construct (c : ClassId) (steps : List Step)
  /-- A new instance of a tagged class. -/
  | choose (c : ClassId) (variant : Nat) (payload : Option Nat)
  /-- The value of the whole text. -/
  | accept (position : Nat)
deriving DecidableEq, Repr, Inhabited

/-- What a nonterminal that no rule has was made for. -/
inductive SynthesizedKind
  | optional
  | list
  /-- The operand of a quantifier. -/
  | item
  | alternation
  | group
deriving DecidableEq, Repr, Inhabited

/-- The kind as the last part of a nonterminal's name. -/
def SynthesizedKind.word : SynthesizedKind → String
  | optional => "opt"
  | list => "list"
  | item => "item"
  | alternation => "alt"
  | group => "grp"

/-- What a nonterminal stands for. -/
inductive NonterminalOrigin
  | rule (id : RuleId)
  /-- An expression within a rule. -/
  | synthesized (rule : RuleId) (node : NodeId) (kind : SynthesizedKind)
  /-- A whole text. -/
  | accept
deriving DecidableEq, Repr, Inhabited

/-- A nonterminal. -/
structure Nonterminal where
  id : NonterminalId
  name : String
  content : Content
  origin : NonterminalOrigin
deriving DecidableEq, Repr, Inhabited

/-- Whether the nonterminal was made for an expression within a rule. -/
def Nonterminal.isSynthesized (n : Nonterminal) : Bool :=
  match n.origin with
  | .synthesized _ _ _ => true
  | _ => false

/-- One alternative of a nonterminal. -/
structure Production where
  lhs : NonterminalId
  body : List Term
  action : Action
  /-- The expression that the production stands for. -/
  node : Option NodeId
deriving DecidableEq, Repr, Inhabited

/-- Quantifiers directly around each other in a rule. -/
structure NestedQuantifiers extends Absorption where
  ruleName : String
  span : Span
deriving DecidableEq, Repr, Inhabited

/-- The productions of a grammar. -/
structure ProductionSet where
  nonterminals : Array Nonterminal
  /-- In the order of their nonterminals, and for each nonterminal in order of preference. -/
  productions : Array Production
  /-- The nonterminal of whole texts. -/
  start : NonterminalId
  warnings : List NestedQuantifiers
deriving Repr, Inhabited

/-- What a terminal carries. -/
def Terminal.content : Terminal → Content
  | .literal _ => .nothing
  | .pattern p => .value (Value.ofPrimitive (Primitive.ofPattern p))

/-- What a term carries, given what nonterminals there are. -/
def Term.contentIn (nonterminals : Array Nonterminal) : Term → Content
  | .terminal t => t.content
  | .nonterminal n => (nonterminals.getD n default).content

namespace ProductionSet

/-- The nonterminal of an index. -/
def nonterminal (set : ProductionSet) (n : NonterminalId) : Nonterminal :=
  set.nonterminals.getD n default

/-- The productions of a nonterminal, in order of preference. -/
def productionsOf (set : ProductionSet) (n : NonterminalId) : List Production :=
  set.productions.toList.filter fun p => p.lhs == n

/-- The nonterminals made for expressions within rules. -/
def synthesized (set : ProductionSet) : List Nonterminal :=
  set.nonterminals.toList.filter Nonterminal.isSynthesized

/-- What a term carries. -/
def contentOf (set : ProductionSet) (term : Term) : Content := term.contentIn set.nonterminals

/-- The different terminals, in the order in which they first occur. -/
def terminals (set : ProductionSet) : List Terminal :=
  ((set.productions.toList.flatMap (·.body)).filterMap Term.terminal?).eraseDups

/-- A term as listings show it. -/
def displayTerm (set : ProductionSet) : Term → String
  | .terminal (.literal text) => "'" ++ text ++ "'"
  | .terminal (.pattern p) => p.display
  | .nonterminal n => (set.nonterminal n).name

/-- A production on one line. -/
def displayProduction (set : ProductionSet) (p : Production) : String :=
  let body := if p.body.isEmpty then ["%empty"] else p.body.map set.displayTerm
  " ".intercalate ((set.nonterminal p.lhs).name :: "->" :: body)

/-- All productions, one a line. -/
def display (set : ProductionSet) : String :=
  String.join (set.productions.toList.map fun p => set.displayProduction p ++ "\n")

end ProductionSet
end AnnotatedGrammar
