import AnnotatedGrammar.Log.Code
import AnnotatedGrammar.Model.Basic

/-!
# Internal faults

What the later stages may find out of order in their input although an earlier stage should have
seen to it. No grammar is to blame for such a fault, and none should cause one.
-/

namespace AnnotatedGrammar

/-- The stages that check their input. -/
inductive Stage
  | lowering
  | tokenCatalog
  | classImplementation
  | parserGrammar
deriving DecidableEq, Repr, Inhabited

/-- The stage as messages speak of it. -/
def Stage.word : Stage → String
  | lowering => "desugaring"
  | tokenCatalog => "token catalog"
  | classImplementation => "class implementation"
  | parserGrammar => "parser grammar"

/-- What was found out of order. -/
inductive Finding
  /-- An expression carries `@class` but builds no class. -/
  | bearerWithoutClass (expression : String)
  /-- A rule or sequence has a value that none of its elements has. -/
  | valueFromNowhere (expression : String)
  | notAnAlternation (className : String)
  | concreteAlternation (className : String)
  | variantCount (className : String) (variants alternatives : Nat)
  | variantOrder (tag : String)
  | payloadWithoutValue (tag : String)
  | fieldWithoutValue (field expression : String)
  | alternationWithoutClass
  | twoValues
  | unresolvedSymbol (name : String)
  /-- A production has no value although its nonterminal should have one. -/
  | nothingForValue (lhs : String)
  | absentForRequired (lhs : String)
  | emptyListForOther (lhs : String)
  /-- A production reads a value from a term that carries none. -/
  | readsNothing (lhs : String) (position : Nat)
  | foreignField (lhs field : String)
  | mergesOther (lhs : String)
  | unknownVariant (lhs : String) (index : Nat)
  | payloadMismatch (lhs tag : String)
  | nonterminalAsToken
  | withoutVariants (className : String)
  | withoutProductions (nonterminal : String)
  /-- Anything else, in words of its own. -/
  | other (text : String)
deriving DecidableEq, Repr, Inhabited

/-- The finding in words. -/
def Finding.message : Finding → String
  | bearerWithoutClass e => "`" ++ e ++ "` carries `@class` but materialized no class"
  | valueFromNowhere e => "`" ++ e ++ "` has a value but no element carries it"
  | notAnAlternation c => "class `" ++ c ++ "` expects an alternation"
  | concreteAlternation c => "concrete class `" ++ c ++ "` realized as an alternation"
  | variantCount c variants alternatives =>
    "union `" ++ c ++ "` has " ++ toString variants ++ " variants for " ++
      toString alternatives ++ " alternatives"
  | variantOrder tag => "variant `" ++ tag ++ "` realizes another alternative"
  | payloadWithoutValue tag => "variant `" ++ tag ++ "` has a payload field but no value"
  | fieldWithoutValue field e =>
    "field `" ++ field ++ "` is filled from `" ++ e ++ "` which has no value"
  | alternationWithoutClass => "valued alternation without a class"
  | twoValues => "two values in a sequence that builds no class"
  | unresolvedSymbol name => "unresolved symbol `" ++ name ++ "`"
  | nothingForValue lhs => ofProduction lhs "unit action on a valued nonterminal"
  | absentForRequired lhs => ofProduction lhs "absent action on a non-optional nonterminal"
  | emptyListForOther lhs => ofProduction lhs "empty list action on a non-list nonterminal"
  | readsNothing lhs position =>
    "production of `" ++ lhs ++ "` reads position " ++ toString position ++
      " which carries no value"
  | foreignField lhs field =>
    ofProduction lhs ("field `" ++ field ++ "` does not belong to the constructed class")
  | mergesOther lhs => ofProduction lhs "merge of a term that is not a fragment"
  | unknownVariant lhs index =>
    ofProduction lhs ("variant #" ++ toString index ++ " does not exist")
  | payloadMismatch lhs tag =>
    ofProduction lhs ("payload of variant `" ++ tag ++ "` does not match")
  | nonterminalAsToken => "nonterminal looked up as a token"
  | withoutVariants c => "union `" ++ c ++ "` has no variants"
  | withoutProductions n => "nonterminal `" ++ n ++ "` has no productions"
  | other text => text
where
  ofProduction (lhs text : String) : String := "production of `" ++ lhs ++ "`: " ++ text

/-- A fault of the compiler itself. -/
inductive InternalFault
  | invariant (stage : Stage) (finding : Finding) (span : Option Span)
  | unknownToken (terminal : String)
  | unknownClass (c : ClassId)
  /-- A nonterminal has a value to receive but no type to hold it. -/
  | untypedNonterminal (name : String)
  /-- The writer of an artifact stopped without an answer, as it does at an index that leads
  nowhere. No index of an accepted grammar does. -/
  | writerStopped (artifact : String)
deriving DecidableEq, Repr, Inhabited

namespace InternalFault

/-- The message shown to users. -/
def message : InternalFault → String
  | invariant stage finding _ =>
    "internal invariant violated during " ++ stage.word ++ ": " ++ finding.message
  | unknownToken terminal => "terminal `" ++ terminal ++ "` has no catalog entry"
  | unknownClass c => "class handle #" ++ toString c ++ " is out of range"
  | untypedNonterminal name => "nonterminal `" ++ name ++ "` carries a value but has no type"
  | writerStopped artifact => "the " ++ artifact ++ " emitter panicked"

/-- The code of the fault. -/
def code : InternalFault → Code
  | invariant _ _ _ => Code.invariantViolation
  | unknownToken _ => Code.unknownToken
  | unknownClass _ => Code.unknownClassHandle
  | untypedNonterminal _ => Code.untypedNonterminal
  | writerStopped _ => Code.emitterPanicked

/-- The place in the grammar, where one is known. -/
def span? : InternalFault → Option Span
  | invariant _ _ span => span
  | _ => none

/-- The advice that goes with every internal fault. -/
def help : String :=
  "this is a bug in exgram; please report it with the grammar that triggers it"

end InternalFault
end AnnotatedGrammar
