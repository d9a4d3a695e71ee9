import AnnotatedGrammar.Limits
import AnnotatedGrammar.Log.Code
import AnnotatedGrammar.Token.Basic

/-!
# Syntax errors

What can be wrong with the order of tokens in a grammar, and how users are told.
-/

namespace AnnotatedGrammar

/-- The construct in which an expression is read. -/
inductive ParseContext
  | rule (name : String)
  | group
deriving DecidableEq, Repr, Inhabited

/-- The construct as messages speak of it. -/
def ParseContext.display : ParseContext → String
  | rule name => "rule `" ++ name ++ "`"
  | group => "group"

/-- What could stand at a place. -/
inductive Expectation
  | ruleOrDirective
  | ruleName
  | equals
  | terminator
  | closingParen
  | expression
  | expressionIn (context : ParseContext)
deriving DecidableEq, Repr, Inhabited

/-- The expectation as messages speak of it. -/
def Expectation.display : Expectation → String
  | ruleOrDirective => "a rule or directive"
  | ruleName => "a rule name"
  | equals => "`=`"
  | terminator => "`;`"
  | closingParen => "`)`"
  | expression => "an expression"
  | expressionIn context => "an expression in " ++ context.display

/-- What is wrong with a directive. -/
inductive DirectiveProblem
  | noName
  | noValue (name : String)
  | noTerminator (name : String)
deriving DecidableEq, Repr, Inhabited

/-- The problem as messages speak of it. -/
def DirectiveProblem.display : DirectiveProblem → String
  | noName => "expected a directive name after `%`"
  | noValue name => "`%" ++ name ++ "` needs a value"
  | noTerminator name => "`%" ++ name ++ "` must end with `;`"

/-- What is wrong with a marker. -/
inductive MarkerProblem
  | noName
  | noValue (key : String)
  | notClosed (key : String)
deriving DecidableEq, Repr, Inhabited

/-- The problem as messages speak of it. -/
def MarkerProblem.display : MarkerProblem → String
  | noName => "expected an annotation name after `@`"
  | noValue key => "`@" ++ key ++ "(` needs a value"
  | notClosed key => "`@" ++ key ++ "` value must be closed with `)`"

/-- What is wrong at a place of a grammar. -/
inductive SyntaxFault
  | unexpectedToken (expected : Expectation) (found : Token)
  | unexpectedEnd (expected : Expectation)
  | emptyGrammar
  /-- An opening parenthesis that is never closed. -/
  | unmatchedOpening
  /-- A closing parenthesis that was never opened. -/
  | unmatchedClosing
  | missingTerminator (rule : String)
  | emptyExpression (context : ParseContext)
  | malformedDirective (problem : DirectiveProblem)
  | malformedMarker (problem : MarkerProblem)
  | tooManyErrors
  | nestingTooDeep
deriving DecidableEq, Repr, Inhabited

/-- A syntax error: what is wrong, and where. -/
abbrev SyntaxError := Located SyntaxFault

namespace SyntaxFault

/-- What users are told. -/
def message : SyntaxFault → String
  | unexpectedToken expected found =>
    "expected " ++ expected.display ++ ", found " ++ found.describe
  | unexpectedEnd expected => "unexpected end of input: expected " ++ expected.display
  | emptyGrammar => "grammar contains no rules"
  | unmatchedOpening => "unmatched `(`"
  | unmatchedClosing => "unmatched `)`"
  | missingTerminator rule => "rule `" ++ rule ++ "` is missing its `;` terminator"
  | emptyExpression context => "expected an expression in " ++ context.display
  | malformedDirective problem => "malformed directive: " ++ problem.display
  | malformedMarker problem => "malformed annotation: " ++ problem.display
  | tooManyErrors => "too many syntax errors (limit " ++ toString Limits.syntaxErrors ++ ")"
  | nestingTooDeep =>
    "expression nesting exceeds maximum depth " ++ toString Limits.nestingDepth

/-- The registered code. -/
def code : SyntaxFault → Code
  | unexpectedToken _ _ => Code.unexpectedToken
  | unexpectedEnd _ => Code.unexpectedEnd
  | emptyGrammar => Code.emptyGrammar
  | unmatchedOpening | unmatchedClosing => Code.unmatchedDelimiter
  | missingTerminator _ => Code.missingTerminator
  | emptyExpression _ => Code.emptyExpression
  | malformedDirective _ => Code.malformedDirective
  | malformedMarker _ => Code.malformedMarker
  | tooManyErrors => Code.tooManySyntaxErrors
  | nestingTooDeep => Code.nestingTooDeep

/-- Advice on how to mend the grammar. -/
def help? : SyntaxFault → Option String
  | missingTerminator _ => some "terminate every rule with `;`"
  | unmatchedOpening => some "add the closing `)`"
  | unmatchedClosing => some "remove the stray `)`"
  | malformedMarker _ => some "annotations are written `@key` or `@key(value)`"
  | nestingTooDeep => some "move deeply nested groups into their own rules"
  | _ => none

/-- Whether the rest of the grammar is left unread after the error. -/
def endsParsing : SyntaxFault → Bool
  | tooManyErrors | emptyGrammar => true
  | _ => false

end SyntaxFault
end AnnotatedGrammar
