import AnnotatedGrammar.Model.Shape

/-!
# Quantifiers and their collapse

Quantifiers written directly around each other come down to one. `X??` is `X?` and `X++` is `X+`;
any other pair is `X*`. Parentheses without markers between them do not count, and neither does one
inner quantifier that carries only field markers: its markers then speak of every match of the
operand.
-/

namespace AnnotatedGrammar

/-- How often an operand may occur. -/
inductive Quantifier
  | optional
  | zeroOrMore
  | oneOrMore
deriving DecidableEq, Repr, Inhabited

namespace Quantifier

/-- The quantifier of a repetition. -/
def ofRepetition : Repetition → Quantifier
  | .zeroOrMore => zeroOrMore
  | .oneOrMore => oneOrMore

/-- The quantifier as it is written. -/
def symbol : Quantifier → String
  | optional => "?"
  | zeroOrMore => "*"
  | oneOrMore => "+"

/-- Whether the operand may occur more than once. -/
def isList : Quantifier → Bool
  | optional => false
  | zeroOrMore | oneOrMore => true

/-- The one quantifier that a quantifier around another comes down to. -/
def combine : Quantifier → Quantifier → Quantifier
  | optional, optional => optional
  | oneOrMore, oneOrMore => oneOrMore
  | _, _ => zeroOrMore

end Quantifier

/-- A quantifier that took up another one directly inside. -/
structure Absorption where
  outer : Quantifier
  inner : Quantifier
deriving DecidableEq, Repr, Inhabited

/-- What the two quantifiers come down to. -/
def Absorption.result (a : Absorption) : Quantifier := a.outer.combine a.inner

/-- A quantified expression with its quantifiers collapsed. -/
structure Collapsed where
  /-- The operand. -/
  atom : Expr
  quantifier : Quantifier
  /-- The inner quantifier whose field markers speak of every match of the operand. -/
  carrier : Option Expr
  /-- The inner quantifiers taken up, outermost first. -/
  absorbed : List Absorption
deriving Repr, Inhabited

namespace Expr

/-- The quantifier of an expression and what it is applied to. -/
def quantified? : Expr → Option (Quantifier × Expr)
  | optional _ body => some (.optional, body)
  | repeated _ body kind => some (.ofRepetition kind, body)
  | _ => none

/-- Whether a collapse may go into an expression; `carrier` tells whether a marked quantifier was
taken up already. -/
def isTransparent (e : Expr) (carrier : Bool) : Bool :=
  e.isUnmarked || (!carrier && e.carriesOnlyFieldMarkers)

/-- Takes up the quantifiers directly inside a quantifier that is applied to an expression. -/
def absorb (quantifier : Quantifier) (carrier : Option Expr) : Expr → Collapsed
  | optional info body =>
    if (optional info body).isTransparent carrier.isSome then
      let step : Absorption := ⟨quantifier, .optional⟩
      let found :=
        if (optional info body).isUnmarked then carrier else some (optional info body)
      let inner := absorb step.result found body
      { inner with absorbed := step :: inner.absorbed }
    else ⟨optional info body, quantifier, carrier, []⟩
  | repeated info body kind =>
    if (repeated info body kind).isTransparent carrier.isSome then
      let step : Absorption := ⟨quantifier, .ofRepetition kind⟩
      let found :=
        if (repeated info body kind).isUnmarked then carrier else some (repeated info body kind)
      let inner := absorb step.result found body
      { inner with absorbed := step :: inner.absorbed }
    else ⟨repeated info body kind, quantifier, carrier, []⟩
  | group info body =>
    if (group info body).isUnmarked then absorb quantifier carrier body
    else ⟨group info body, quantifier, carrier, []⟩
  | e => ⟨e, quantifier, carrier, []⟩

/-- A quantified expression with its quantifiers collapsed. -/
def collapse? (e : Expr) : Option Collapsed :=
  e.quantified?.map fun part => part.2.absorb part.1 none

theorem weight_absorb_le (quantifier : Quantifier) (carrier : Option Expr) (e : Expr) :
    (e.absorb quantifier carrier).atom.weight ≤ e.weight := by
  fun_induction absorb quantifier carrier e with
  | case1 _ _ _ _ _ step found inner ih => simp only [weight]; exact Nat.le_succ_of_le ih
  | case2 => exact Nat.le_refl _
  | case3 _ _ _ _ _ _ step found inner ih => simp only [weight]; exact Nat.le_succ_of_le ih
  | case4 => exact Nat.le_refl _
  | case5 _ _ _ _ _ ih => simp only [weight]; exact Nat.le_succ_of_le ih
  | case6 => exact Nat.le_refl _
  | case7 => exact Nat.le_refl _

end Expr
end AnnotatedGrammar
