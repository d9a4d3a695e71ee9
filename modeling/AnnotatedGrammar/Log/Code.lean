/-!
# Codes of messages

Every message of the compiler carries a code. The register says for each error and warning code
which part of the compiler reports it, how severe it is and what a user can do about it.
-/

namespace AnnotatedGrammar

/-- The code of a message, such as `E110`. -/
structure Code where
  text : String
deriving DecidableEq, Repr, Inhabited

/-- How severe an error is. -/
inductive Severity
  | critical
  | high
  | medium
  | low
deriving DecidableEq, Repr, Inhabited

/-- The severity as it is written in reports. -/
def Severity.word : Severity → String
  | critical => "Critical"
  | high => "High"
  | medium => "Medium"
  | low => "Low"

namespace Code

def internalError : Code := ⟨"ERR001"⟩
def startupFailure : Code := ⟨"ERR002"⟩
def fileNotFound : Code := ⟨"E005"⟩
def fileTooLarge : Code := ⟨"E007"⟩
def invalidEncoding : Code := ⟨"E010"⟩
def readFailed : Code := ⟨"E011"⟩
def writeFailed : Code := ⟨"E013"⟩
def invalidCharacter : Code := ⟨"E020"⟩
def unterminatedLiteral : Code := ⟨"E021"⟩
def emptyLiteral : Code := ⟨"E022"⟩
def identifierTooLong : Code := ⟨"E023"⟩
def literalTooLong : Code := ⟨"E024"⟩
def invalidEscape : Code := ⟨"E025"⟩
def unterminatedComment : Code := ⟨"E026"⟩
def commentTooLong : Code := ⟨"E027"⟩
def tooManyTokens : Code := ⟨"E028"⟩
def malformedPattern : Code := ⟨"E029"⟩
def unexpectedEnd : Code := ⟨"E040"⟩
def emptyGrammar : Code := ⟨"E041"⟩
def unmatchedDelimiter : Code := ⟨"E042"⟩
def missingTerminator : Code := ⟨"E043"⟩
def emptyExpression : Code := ⟨"E044"⟩
def malformedDirective : Code := ⟨"E045"⟩
def malformedMarker : Code := ⟨"E046"⟩
def unexpectedToken : Code := ⟨"E050"⟩
def tooManySyntaxErrors : Code := ⟨"E086"⟩
def nestingTooDeep : Code := ⟨"E087"⟩
def duplicateRule : Code := ⟨"E090"⟩
def undefinedSymbol : Code := ⟨"E110"⟩
def undefinedStart : Code := ⟨"E111"⟩
def unknownMarker : Code := ⟨"E120"⟩
def markerValue : Code := ⟨"E121"⟩
def misplacedMarker : Code := ⟨"E122"⟩
def conflictingMarkers : Code := ⟨"E123"⟩
def unknownDirective : Code := ⟨"E124"⟩
def duplicateDirective : Code := ⟨"E125"⟩
def nameCollision : Code := ⟨"E130"⟩
def invalidIdentifier : Code := ⟨"E131"⟩
def recursiveValue : Code := ⟨"E140"⟩
def inheritanceConflict : Code := ⟨"E141"⟩
def inheritanceCycle : Code := ⟨"E142"⟩
def classRequired : Code := ⟨"E150"⟩
def unknownClass : Code := ⟨"E151"⟩
def unknownField : Code := ⟨"E152"⟩
def typeMismatch : Code := ⟨"E153"⟩
def invalidKeyField : Code := ⟨"E154"⟩
def limitExceeded : Code := ⟨"E160"⟩
def tooManySemanticErrors : Code := ⟨"E161"⟩
def nestedOperatorCollapsed : Code := ⟨"W200"⟩
def invariantViolation : Code := ⟨"E300"⟩
def unknownToken : Code := ⟨"E301"⟩
def unknownClassHandle : Code := ⟨"E302"⟩
def untypedNonterminal : Code := ⟨"E303"⟩
def emitterPanicked : Code := ⟨"E304"⟩

/-- Information without a code of its own. -/
def plainInfo : Code := ⟨"I000"⟩

/-- Debug messages have no code of their own. -/
def plainDebug : Code := ⟨"D000"⟩

def loggingReady : Code := ⟨"I004"⟩
def tokenized : Code := ⟨"I020"⟩
def parsed : Code := ⟨"I040"⟩
def modelBuilt : Code := ⟨"I050"⟩
def desugared : Code := ⟨"I060"⟩
def catalogBuilt : Code := ⟨"I070"⟩
def emitted : Code := ⟨"I080"⟩
def generated : Code := ⟨"I090"⟩
def artifactsWritten : Code := ⟨"I091"⟩

/-- What the register knows about a code. -/
structure Entry where
  code : Code
  category : String
  severity : Severity
  /-- Whether the run can go on to find further errors. -/
  recoverable : Bool
  /-- Whether nothing can be generated after this error. -/
  requiresHalt : Bool
  description : String
  action : String
deriving Repr, Inhabited

/-- The registered error and warning codes. -/
def register : List Entry :=
  [ ⟨internalError, "System", .critical, false, true,
      "Critical internal compiler error",
      "File a bug report with the grammar that triggered it"⟩,
    ⟨startupFailure, "System", .critical, false, true,
      "Logging or configuration initialization failed",
      "Check EXGRAM_* environment variables and the preferences file"⟩,
    ⟨fileNotFound, "FileProcessing", .high, false, true,
      "Grammar file not found",
      "Check the input path"⟩,
    ⟨fileTooLarge, "FileProcessing", .high, false, true,
      "Grammar file exceeds the configured size limit",
      "Split the grammar or raise file_processing.max_file_size"⟩,
    ⟨invalidEncoding, "FileProcessing", .high, false, true,
      "Grammar file is not valid UTF-8",
      "Re-encode the grammar as UTF-8"⟩,
    ⟨readFailed, "FileProcessing", .high, false, true,
      "I/O error while reading input",
      "Check file permissions"⟩,
    ⟨writeFailed, "FileProcessing", .high, false, true,
      "Failed to write generated artifacts",
      "Check that the output directory is writable"⟩,
    ⟨invalidCharacter, "Lexical", .high, true, false,
      "Character is not part of the grammar language",
      "Remove the character or quote it inside a literal"⟩,
    ⟨unterminatedLiteral, "Lexical", .high, true, false,
      "Literal is not closed before the end of the line",
      "Add the closing quote"⟩,
    ⟨emptyLiteral, "Lexical", .medium, true, false,
      "Empty literal terminal",
      "Literals must match at least one character; use `?` for optional syntax"⟩,
    ⟨identifierTooLong, "Lexical", .medium, true, false,
      "Identifier exceeds the maximum length",
      "Use a shorter rule name"⟩,
    ⟨literalTooLong, "Lexical", .medium, true, false,
      "Literal exceeds the maximum length",
      "Shorten the literal"⟩,
    ⟨invalidEscape, "Lexical", .medium, true, false,
      "Unknown escape sequence in literal",
      "Supported escapes are \\\\ \\\" \' \\n and \\t"⟩,
    ⟨unterminatedComment, "Lexical", .high, true, false,
      "Block comment is not closed",
      "Close the comment with `*)`"⟩,
    ⟨commentTooLong, "Lexical", .medium, true, false,
      "Comment exceeds the maximum length",
      "Shorten the comment"⟩,
    ⟨tooManyTokens, "Lexical", .high, false, true,
      "Grammar contains too many tokens",
      "Split the grammar or raise lexical.max_token_count"⟩,
    ⟨malformedPattern, "Lexical", .high, true, false,
      "Malformed pattern terminal",
      "Patterns are written <identifier>, <number>, <string> or <reference>"⟩,
    ⟨unexpectedEnd, "Syntax", .high, true, false,
      "Unexpected end of grammar",
      "Complete the last rule and terminate it with `;`"⟩,
    ⟨emptyGrammar, "Syntax", .high, false, true,
      "Grammar contains no rules",
      "Define at least one rule"⟩,
    ⟨unmatchedDelimiter, "Syntax", .high, true, false,
      "Unmatched parenthesis",
      "Balance the group delimiters"⟩,
    ⟨missingTerminator, "Syntax", .high, true, false,
      "Rule is missing its `;` terminator",
      "Terminate the rule with `;`"⟩,
    ⟨emptyExpression, "Syntax", .high, true, false,
      "Expected an expression",
      "Every rule body, group and alternative needs at least one element"⟩,
    ⟨malformedDirective, "Syntax", .high, true, false,
      "Malformed directive",
      "Directives are written `%name value ;`"⟩,
    ⟨malformedMarker, "Syntax", .high, true, false,
      "Malformed annotation",
      "Annotations are written `@key` or `@key(value)`"⟩,
    ⟨unexpectedToken, "Syntax", .high, true, false,
      "Unexpected token",
      "Check the grammar syntax near the reported position"⟩,
    ⟨tooManySyntaxErrors, "Syntax", .high, false, true,
      "Too many syntax errors; later errors were not collected",
      "Fix the reported errors and run again"⟩,
    ⟨nestingTooDeep, "Syntax", .high, false, false,
      "Expression nesting exceeds the maximum depth",
      "Split deeply nested groups into separate rules"⟩,
    ⟨duplicateRule, "Semantic", .high, true, false,
      "Rule defined more than once",
      "Rename or merge the duplicate rule"⟩,
    ⟨undefinedSymbol, "Semantic", .high, true, false,
      "Reference to an undefined rule",
      "Define the rule or fix the spelling"⟩,
    ⟨undefinedStart, "Semantic", .high, true, false,
      "Start symbol is not a rule",
      "Point %start at an existing rule"⟩,
    ⟨unknownMarker, "Semantic", .high, true, false,
      "Unknown annotation key",
      "Supported keys: class, field, type, key, list, optional, skip"⟩,
    ⟨markerValue, "Semantic", .high, true, false,
      "Annotation value missing or not allowed",
      "class, field, type and key take a value; list, optional and skip do not"⟩,
    ⟨misplacedMarker, "Semantic", .high, true, false,
      "Annotation is not allowed at this position",
      "Move the annotation to a rule, group or element as documented"⟩,
    ⟨conflictingMarkers, "Semantic", .high, true, false,
      "Annotations on the same node contradict each other",
      "Remove one of the conflicting annotations"⟩,
    ⟨unknownDirective, "Semantic", .high, true, false,
      "Unknown directive",
      "Supported directives: %namespace, %prefix, %start"⟩,
    ⟨duplicateDirective, "Semantic", .medium, true, false,
      "Directive given more than once",
      "Keep a single occurrence"⟩,
    ⟨nameCollision, "Semantic", .high, true, false,
      "Generated name collides with another after sanitization",
      "Rename one of the classes or fields"⟩,
    ⟨invalidIdentifier, "Semantic", .high, true, false,
      "Name does not produce a usable identifier",
      "Use letters, digits and underscores"⟩,
    ⟨recursiveValue, "Semantic", .high, true, false,
      "Rule forwards its own value recursively",
      "Annotate the rule with @class"⟩,
    ⟨inheritanceConflict, "Semantic", .high, true, false,
      "Class already derives from a different base",
      "A class can join only one polymorphic alternation"⟩,
    ⟨inheritanceCycle, "Semantic", .high, true, false,
      "Class hierarchy is cyclic",
      "Break the cycle between the polymorphic alternations"⟩,
    ⟨classRequired, "Semantic", .high, true, false,
      "Rule produces several values but names no class",
      "Annotate the rule or group with @class, or @skip the extra elements"⟩,
    ⟨unknownClass, "Semantic", .high, true, false,
      "Annotation references a class that does not exist",
      "Check the class name"⟩,
    ⟨unknownField, "Semantic", .high, true, false,
      "Annotation references a field that does not exist",
      "Check the field name"⟩,
    ⟨typeMismatch, "Semantic", .high, true, false,
      "Declared type does not match the element",
      "Use the element's own type or one of its base classes"⟩,
    ⟨invalidKeyField, "Semantic", .high, true, false,
      "Key field must be a scalar field of the class",
      "Pick a field that occurs exactly once"⟩,
    ⟨limitExceeded, "Semantic", .high, false, true,
      "Grammar exceeds a configured model limit",
      "Split the grammar or raise the limit in the build profile"⟩,
    ⟨tooManySemanticErrors, "Semantic", .high, false, true,
      "Too many semantic errors; later errors were not collected",
      "Fix the reported errors and run again"⟩,
    ⟨nestedOperatorCollapsed, "Desugar", .low, true, false,
      "Nested optional/repetition operators were collapsed",
      "Remove the redundant operator"⟩,
    ⟨invariantViolation, "Codegen", .critical, false, true,
      "Internal invariant violated while generating code",
      "File a bug report with the grammar that triggered it"⟩,
    ⟨unknownToken, "Codegen", .critical, false, true,
      "Production references a terminal missing from the token catalog",
      "File a bug report with the grammar that triggered it"⟩,
    ⟨unknownClassHandle, "Codegen", .critical, false, true,
      "Class handle does not resolve",
      "File a bug report with the grammar that triggered it"⟩,
    ⟨untypedNonterminal, "Codegen", .critical, false, true,
      "Nonterminal has no semantic type where one is required",
      "File a bug report with the grammar that triggered it"⟩,
    ⟨emitterPanicked, "Codegen", .critical, false, true,
      "Emitter thread terminated abnormally",
      "File a bug report with the grammar that triggered it"⟩ ]

/-- The register entry of a code, if it has one. -/
def entry? (code : Code) : Option Entry :=
  register.find? fun entry => entry.code == code

/-- Severity of a code; codes outside the register count as high. -/
def severity (code : Code) : Severity :=
  match code.entry? with
  | some entry => entry.severity
  | none => .high

/-- Whether the run can go on after the code; not after an unregistered one. -/
def recoverable (code : Code) : Bool :=
  match code.entry? with
  | some entry => entry.recoverable
  | none => false

/-- Whether the code ends the run; an unregistered one does. -/
def requiresHalt (code : Code) : Bool :=
  match code.entry? with
  | some entry => entry.requiresHalt
  | none => true

/-- What the code stands for. -/
def description (code : Code) : String :=
  match code.entry? with
  | some entry => entry.description
  | none => "Unknown error"

/-- What a user can do about the code. -/
def action (code : Code) : String :=
  match code.entry? with
  | some entry => entry.action
  | none => "No recommended action"

/-- The part of the compiler that reports the code. -/
def category (code : Code) : String :=
  match code.entry? with
  | some entry => entry.category
  | none => "Unknown"

end Code
end AnnotatedGrammar
