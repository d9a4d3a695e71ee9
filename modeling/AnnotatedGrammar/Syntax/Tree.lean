import AnnotatedGrammar.Syntax.Marker
import AnnotatedGrammar.Token.Basic

/-!
# Grammars as trees

A rule body is a tree of expressions. Every expression has a number, the markers written on it and
its place in the text. The numbers of a grammar count its expressions in the order in which they
begin, rule after rule.
-/

namespace AnnotatedGrammar

/-- The number of an expression within its grammar. -/
abbrev NodeId := Nat

/-- What a grammar asks for verbatim or by a class of words. -/
inductive Terminal
  | literal (text : String)
  | pattern (pattern : Pattern)
deriving DecidableEq, Repr, Inhabited, Hashable

/-- The terminal as text. -/
def Terminal.display : Terminal → String
  | literal text => Text.quoted text
  | pattern p => p.display

/-- How often a repeated element occurs at least. -/
inductive Repetition
  | zeroOrMore
  | oneOrMore
deriving DecidableEq, Repr, Inhabited

/-- The operator of a repetition. -/
def Repetition.symbol : Repetition → String
  | zeroOrMore => "*"
  | oneOrMore => "+"

/-- What every expression carries. -/
structure NodeInfo where
  id : NodeId
  markers : List Marker
  span : Span
deriving DecidableEq, Repr, Inhabited

/-- An expression of the grammar notation. The branches of an alternation are in order of
preference. -/
inductive Expr
  | terminal (info : NodeInfo) (terminal : Terminal)
  | reference (info : NodeInfo) (name : String)
  | sequence (info : NodeInfo) (items : List Expr)
  | alternation (info : NodeInfo) (branches : List Expr)
  | optional (info : NodeInfo) (body : Expr)
  | repeated (info : NodeInfo) (body : Expr) (kind : Repetition)
  | group (info : NodeInfo) (body : Expr)
deriving Repr, Inhabited

namespace Expr

/-- Number, markers and place. -/
def info : Expr → NodeInfo
  | terminal info _ | reference info _ | sequence info _ | alternation info _ | optional info _
  | repeated info _ _ | group info _ => info

/-- The number of the expression. -/
def id (e : Expr) : NodeId := e.info.id

/-- The markers on the expression, in the order in which they take effect. -/
def markers (e : Expr) : List Marker := e.info.markers

/-- Where the expression stands. -/
def span (e : Expr) : Span := e.info.span

/-- The expression with its number, markers and place replaced. -/
def withInfo (e : Expr) (info : NodeInfo) : Expr :=
  match e with
  | terminal _ t => terminal info t
  | reference _ name => reference info name
  | sequence _ items => sequence info items
  | alternation _ branches => alternation info branches
  | optional _ body => optional info body
  | repeated _ body kind => repeated info body kind
  | group _ body => group info body

/-- The expression with further markers in front of its own. -/
def withMarkersBefore (e : Expr) (markers : List Marker) : Expr :=
  e.withInfo { e.info with markers := markers ++ e.info.markers }

/-- The expression with further markers behind its own. -/
def withMarkersAfter (e : Expr) (markers : List Marker) : Expr :=
  e.withInfo { e.info with markers := e.info.markers ++ markers }

/-- The expressions directly inside. -/
def children : Expr → List Expr
  | terminal _ _ | reference _ _ => []
  | sequence _ items => items
  | alternation _ branches => branches
  | optional _ body | repeated _ body _ | group _ body => [body]

/-- The first marker with a key. -/
def marker? (e : Expr) (key : MarkerKey) : Option Marker :=
  e.markers.find? fun marker => marker.key == key.word

/-- The value of the first marker with a key. -/
def markerValue? (e : Expr) (key : MarkerKey) : Option String :=
  (e.marker? key).bind (·.value)

/-- Whether the expression carries a marker with the key. -/
def hasMarker (e : Expr) (key : MarkerKey) : Bool := (e.marker? key).isSome

/-- Whether the expression carries no marker at all. -/
def isUnmarked (e : Expr) : Bool := e.markers.isEmpty

/-- The kind of the expression as messages speak of it. -/
def kindWord : Expr → String
  | terminal _ (.literal _) => "literal"
  | terminal _ (.pattern _) => "pattern"
  | reference _ _ => "reference"
  | sequence _ _ => "sequence"
  | alternation _ _ => "alternation"
  | optional _ _ => "optional"
  | repeated _ _ _ => "repetition"
  | group _ _ => "group"

mutual

/-- The expression and everything inside it, in the order of the text. -/
def preorder : Expr → List Expr
  | terminal info t => [terminal info t]
  | reference info name => [reference info name]
  | sequence info items => sequence info items :: preorderAll items
  | alternation info branches => alternation info branches :: preorderAll branches
  | optional info body => optional info body :: preorder body
  | repeated info body kind => repeated info body kind :: preorder body
  | group info body => group info body :: preorder body

/-- Several expressions and everything inside them. -/
def preorderAll : List Expr → List Expr
  | [] => []
  | e :: rest => preorder e ++ preorderAll rest

end

mutual

/-- Numbers an expression and everything inside it, from `next` on; also returns the number after
the last one given. -/
def numbered (next : NodeId) : Expr → Expr × NodeId
  | terminal info t => (terminal { info with id := next } t, next + 1)
  | reference info name => (reference { info with id := next } name, next + 1)
  | sequence info items =>
    let (items, after) := numberedAll (next + 1) items
    (sequence { info with id := next } items, after)
  | alternation info branches =>
    let (branches, after) := numberedAll (next + 1) branches
    (alternation { info with id := next } branches, after)
  | optional info body =>
    let (body, after) := numbered (next + 1) body
    (optional { info with id := next } body, after)
  | repeated info body kind =>
    let (body, after) := numbered (next + 1) body
    (repeated { info with id := next } body kind, after)
  | group info body =>
    let (body, after) := numbered (next + 1) body
    (group { info with id := next } body, after)

/-- Numbers several expressions one after another. -/
def numberedAll (next : NodeId) : List Expr → List Expr × NodeId
  | [] => ([], next)
  | e :: rest =>
    let (e, afterFirst) := numbered next e
    let (rest, after) := numberedAll afterFirst rest
    (e :: rest, after)

end

/-- A text followed by the markers written behind it. -/
def displayMarkers (text : String) (markers : List Marker) : String :=
  markers.foldl (fun text marker => text ++ " " ++ marker.display) text

mutual

/-- The expression as text, with every marker behind the expression it belongs to. -/
def display : Expr → String
  | terminal info t => displayMarkers t.display info.markers
  | reference info name => displayMarkers name info.markers
  | sequence info items => displayMarkers (" ".intercalate (displayAll items)) info.markers
  | alternation info branches =>
    displayMarkers (" | ".intercalate (displayAll branches)) info.markers
  | optional info body => displayMarkers (display body ++ "?") info.markers
  | repeated info body kind => displayMarkers (display body ++ kind.symbol) info.markers
  | group info body => displayMarkers ("(" ++ display body ++ ")") info.markers

/-- Several expressions as texts. -/
def displayAll : List Expr → List String
  | [] => []
  | e :: rest => display e :: displayAll rest

end

end Expr

/-- A rule of a grammar. -/
structure Rule where
  name : String
  nameSpan : Span
  markers : List Marker
  body : Expr
  span : Span
deriving Repr, Inhabited

namespace Rule

/-- The first marker with a key. -/
def marker? (rule : Rule) (key : MarkerKey) : Option Marker :=
  rule.markers.find? fun marker => marker.key == key.word

/-- The value of the first marker with a key. -/
def markerValue? (rule : Rule) (key : MarkerKey) : Option String :=
  (rule.marker? key).bind (·.value)

/-- The rule as text, with its markers in front. -/
def display (rule : Rule) : String :=
  String.join (rule.markers.map fun marker => marker.display ++ " ") ++ rule.name ++ " = " ++
    rule.body.display ++ " ;"

/-- Numbers the bodies of rules one after another; `done` holds the rules already numbered, latest
first. -/
def numberedAll (done : List Rule) (next : NodeId) : List Rule → List Rule × NodeId
  | [] => (done.reverse, next)
  | rule :: rest =>
    let (body, after) := rule.body.numbered next
    numberedAll ({ rule with body } :: done) after rest

end Rule

/-- A grammar: its directives and rules in the order of the text. -/
structure Grammar where
  directives : List Directive
  rules : Array Rule
  /-- How many expressions there are; their numbers lie below. -/
  nodeCount : Nat
deriving Repr, Inhabited

namespace Grammar

/-- The grammar of directives and rules, with its expressions numbered. -/
def ofParts (directives : List Directive) (rules : List Rule) : Grammar :=
  let (rules, nodeCount) := Rule.numberedAll [] 0 rules
  ⟨directives, rules.toArray, nodeCount⟩

/-- The first rule of a name. -/
def rule? (grammar : Grammar) (name : String) : Option Rule :=
  grammar.rules.find? fun rule => rule.name == name

/-- The first directive of a name. -/
def directive? (grammar : Grammar) (name : String) : Option Directive :=
  grammar.directives.find? fun directive => directive.name == name

end Grammar
end AnnotatedGrammar
