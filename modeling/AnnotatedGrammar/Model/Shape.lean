import AnnotatedGrammar.Syntax.Tree

/-!
# Shapes of rule bodies

Which part of an expression decides about its value. Parentheses without markers of their own are
transparent; a chain of quantifiers has one operand; an expression that carries `@class` contributes
its content to that class.
-/

namespace AnnotatedGrammar.Expr

mutual

/-- The number of expressions in an expression, itself included; a list counts one more for each
item. -/
def weight : Expr → Nat
  | terminal _ _ | reference _ _ => 1
  | sequence _ items => weightAll items + 1
  | alternation _ branches => weightAll branches + 1
  | optional _ body | repeated _ body _ | group _ body => weight body + 1

/-- The weights of several expressions together. -/
def weightAll : List Expr → Nat
  | [] => 0
  | e :: rest => weight e + weightAll rest + 1

end

/-- Markers that turn an expression into one field of the class around it. -/
def fieldMarkers : List MarkerKey := [.field, .list, .optional]

/-- Markers that make parentheses significant. -/
def keepsGroup (e : Expr) : Bool :=
  e.hasMarker .classOf || e.hasMarker .skip || fieldMarkers.any e.hasMarker

/-- The expression inside transparent parentheses, and the first type named on the way. -/
def stripGroups : Expr → Expr × Option String
  | group info body =>
    if keepsGroup (group info body) then (group info body, none)
    else
      let inner := stripGroups body
      (inner.1, (group info body).markerValue? .typeOf <|> inner.2)
  | e => (e, none)

/-- The expression inside transparent parentheses. -/
def core (e : Expr) : Expr := e.stripGroups.1

theorem weight_core_le (e : Expr) : e.core.weight ≤ e.weight := by
  unfold core
  fun_induction stripGroups e with
  | case1 => exact Nat.le_refl _
  | case2 info body _ inner ih => simp only [weight]; exact Nat.le_succ_of_le ih
  | case3 => exact Nat.le_refl _

/-- What an expression with `@class` contributes to its class: parentheses their content, any other
expression itself. The flag tells the second case, in which the markers on the expression belong to
the class around it. -/
def classContent : Expr → Expr × Bool
  | group _ body => (body, false)
  | e => (e, true)

/-- The content of a class is smaller than the expression that carries it, or that expression. -/
theorem weight_classContent (e : Expr) :
    if e.classContent.2 then e.classContent.1 = e else e.classContent.1.weight < e.weight := by
  cases e <;> simp [classContent, weight]

/-- The alternatives of a class body, if it has several. -/
def classAlternatives? (content : Expr) : Option (List Expr) :=
  match content.core with
  | alternation _ branches => some branches
  | _ => none

theorem weight_classAlternatives {content : Expr} {branches : List Expr}
    (h : content.classAlternatives? = some branches) :
    weightAll branches < content.weight := by
  unfold classAlternatives? at h
  have hle := content.weight_core_le
  split at h
  · rename_i info found hcore
    obtain rfl : found = branches := by simpa using h
    rw [hcore] at hle
    simp only [weight] at hle
    omega
  · simp at h

/-- The operand of quantifiers and parentheses that carry no markers. -/
def operand : Expr → Expr
  | optional info body => if info.markers.isEmpty then operand body else optional info body
  | repeated info body kind =>
    if info.markers.isEmpty then operand body else repeated info body kind
  | group info body => if info.markers.isEmpty then operand body else group info body
  | e => e

/-- The innermost operand of a quantified expression; any other expression is its own. -/
def quantifiedAtom : Expr → Expr
  | optional _ body | repeated _ body _ => operand body
  | e => e

/-- Whether the expression stands for a value of its own rather than for parts of the value around
it. -/
def isFieldElement (e : Expr) : Bool :=
  e.hasMarker .classOf || fieldMarkers.any e.hasMarker || e.hasMarker .typeOf

/-- Whether a quantified expression yields one value for each match. Quantified sequences, and
quantified elements with field markers of their own, contribute their parts instead. -/
def isSimpleChain (e : Expr) : Bool :=
  let atom := e.quantifiedAtom
  let marked := fieldMarkers.any atom.hasMarker || atom.hasMarker .typeOf || atom.hasMarker .skip
  let bareSequence :=
    match atom with
    | sequence _ _ => !atom.hasMarker .classOf
    | _ => false
  !marked && !bareSequence

/-- Whether the expression carries markers, and none but those that describe a field. -/
def carriesOnlyFieldMarkers (e : Expr) : Bool :=
  !e.isUnmarked && e.markers.all fun marker => fieldMarkers.any fun key => marker.key == key.word

/-- Whether a declared type names the alternatives of the expression rather than stating a fact. -/
def namesAlternatives (e : Expr) : Bool :=
  let inner :=
    match e with
    | group _ body => body.core
    | e => e
  match inner with
  | alternation _ _ => true
  | _ => false

/-- The symbol that an expression by itself stands for. -/
def symbolName? : Expr → Option String
  | reference _ name => some name
  | terminal _ (.pattern p) => some p.builtinName
  | _ => none

/-- The text of a literal. -/
def literalText? : Expr → Option String
  | terminal _ (.literal text) => some text
  | _ => none

/-- What a branch is named after: its first symbol, else its first literal. -/
def tagSource? (e : Expr) : Option String :=
  e.preorder.findSome? symbolName? <|> e.preorder.findSome? literalText?

end AnnotatedGrammar.Expr
