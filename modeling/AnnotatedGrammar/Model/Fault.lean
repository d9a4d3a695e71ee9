import AnnotatedGrammar.Limits
import AnnotatedGrammar.Log.Code
import AnnotatedGrammar.Model.Basic

/-!
# Semantic errors

What can keep a well-formed grammar from having a data model, and how users are told.
-/

namespace AnnotatedGrammar

/-- What a written name is the name of. -/
inductive NameKind
  | namespaceName
  | classPrefix
  | marker (key : MarkerKey)
deriving DecidableEq, Repr, Inhabited

/-- The kind of name as messages speak of it. -/
def NameKind.word : NameKind → String
  | namespaceName => "namespace"
  | classPrefix => "prefix"
  | marker key => key.word

/-- Two names of this kind must differ. -/
inductive CollisionKind
  | className
  | fieldName
deriving DecidableEq, Repr, Inhabited

/-- The kind of name as messages speak of it. -/
def CollisionKind.word : CollisionKind → String
  | className => "class"
  | fieldName => "field"

/-- A place where a marker has no meaning. -/
inductive MarkerPlace
  | site (site : MarkerSite)
  | ruleWithoutClass
  | ruleWithClass
  | ruleBuildingNoClass
  | outsideClass
  | withoutValue
deriving DecidableEq, Repr, Inhabited

/-- The place as messages speak of it. -/
def MarkerPlace.display : MarkerPlace → String
  | site s => s.word
  | ruleWithoutClass => "a rule without `@class`"
  | ruleWithClass => "a rule with `@class`"
  | ruleBuildingNoClass => "a rule that does not build a class"
  | outsideClass => "an element outside a class"
  | withoutValue => "an element without a value"

/-- Markers that cannot stand together. -/
inductive MarkerConflict
  | differentValues (key : String)
  | listAndOptional
  | skipWith (key : MarkerKey)
  | optionalList
  | assignedTwice (field : String)
deriving DecidableEq, Repr, Inhabited

/-- The conflict as messages speak of it. -/
def MarkerConflict.display : MarkerConflict → String
  | differentValues key => "`@" ++ key ++ "` is given twice with different values"
  | listAndOptional => "`@list` and `@optional` contradict each other"
  | skipWith key => "`@skip` cannot be combined with `@" ++ key.word ++ "`"
  | optionalList => "`@optional` on a list-valued element"
  | assignedTwice field => "field `" ++ field ++ "` is assigned twice in one alternative"

/-- What is limited. -/
inductive Limited
  | rules
  | classes
  | fieldsPerClass
deriving DecidableEq, Repr, Inhabited

/-- What is limited, as messages speak of it. -/
def Limited.word : Limited → String
  | rules => "rules"
  | classes => "classes"
  | fieldsPerClass => "fields per class"

/-- The bound of what is limited. -/
def Limited.bound : Limited → Nat
  | rules => Limits.rules
  | classes => Limits.classes
  | fieldsPerClass => Limits.fieldsPerClass

/-- Where two types should agree. -/
inductive TypeContext
  | field (field className : String)
  | assertion
deriving DecidableEq, Repr, Inhabited

/-- The context as messages speak of it. -/
def TypeContext.display : TypeContext → String
  | field name className => "field `" ++ name ++ "` of class `" ++ className ++ "`"
  | assertion => "type assertion"

/-- What is wrong with the meaning of a grammar. -/
inductive SemanticFault
  | duplicateRule (name : String) (first : Position)
  | undefinedSymbol (rule symbol : String)
  | undefinedStart (symbol : String)
  | unknownMarker (key : String)
  | missingMarkerValue (key : String)
  | unwantedMarkerValue (key : String)
  | misplacedMarker (key : String) (place : MarkerPlace)
  | conflictingMarkers (conflict : MarkerConflict)
  | unknownDirective (name : String)
  | duplicateDirective (name : String)
  | nameCollision (kind : CollisionKind) (name other sanitized : String)
  | invalidIdentifier (kind : NameKind) (text : String)
  | recursiveValue (rule : String)
  | inheritanceConflict (className first second : String)
  | inheritanceCycle (className : String)
  | classRequired (rule : String) (count : Nat)
  | unknownClass (name : String)
  | unknownField (className field : String)
  | typeMismatch (context : TypeContext) (expected found : String)
  | invalidKeyField (className field : String) (cardinality : Cardinality)
  | limitExceeded (what : Limited)
  | tooManyErrors
deriving DecidableEq, Repr, Inhabited

/-- A semantic error: what is wrong, and where. -/
abbrev SemanticError := Located SemanticFault

namespace SemanticFault

/-- What users are told. -/
def message : SemanticFault → String
  | duplicateRule name _ => "rule `" ++ name ++ "` is defined more than once"
  | undefinedSymbol rule symbol =>
    "rule `" ++ rule ++ "` references undefined symbol `" ++ symbol ++ "`"
  | undefinedStart symbol => "start symbol `" ++ symbol ++ "` is not a rule"
  | unknownMarker key => "unknown annotation `@" ++ key ++ "`"
  | missingMarkerValue key => "annotation `@" ++ key ++ "` requires a value"
  | unwantedMarkerValue key => "annotation `@" ++ key ++ "` takes no value"
  | misplacedMarker key place =>
    "annotation `@" ++ key ++ "` is not allowed on " ++ place.display
  | conflictingMarkers conflict => "conflicting annotations: " ++ conflict.display
  | unknownDirective name => "unknown directive `%" ++ name ++ "`"
  | duplicateDirective name => "directive `%" ++ name ++ "` is given more than once"
  | nameCollision kind name other sanitized =>
    kind.word ++ " name `" ++ name ++ "` collides with `" ++ other ++ "` as `" ++ sanitized ++
      "`"
  | invalidIdentifier kind text =>
    "`" ++ text ++ "` does not yield a valid " ++ kind.word ++ " identifier"
  | recursiveValue rule => "the value of rule `" ++ rule ++ "` depends on itself"
  | inheritanceConflict className first second =>
    "class `" ++ className ++ "` cannot derive from both `" ++ first ++ "` and `" ++ second ++
      "`"
  | inheritanceCycle className => "class `" ++ className ++ "` is its own ancestor"
  | classRequired rule count =>
    "a sequence in rule `" ++ rule ++ "` has " ++ toString count ++
      " values; annotate it with `@class`"
  | unknownClass name => "unknown class or type `" ++ name ++ "`"
  | unknownField className field =>
    "class `" ++ className ++ "` has no field `" ++ field ++ "`"
  | typeMismatch context expected found =>
    context.display ++ ": expected `" ++ expected ++ "`, found `" ++ found ++ "`"
  | invalidKeyField className field cardinality =>
    "key field `" ++ field ++ "` of class `" ++ className ++ "` is " ++ cardinality.word ++
      ", not scalar"
  | limitExceeded what =>
    "too many " ++ what.word ++ " (limit " ++ toString what.bound ++ ")"
  | tooManyErrors =>
    "too many semantic errors (limit " ++ toString Limits.semanticErrors ++
      "); remaining errors suppressed"

/-- The registered code. -/
def code : SemanticFault → Code
  | duplicateRule _ _ => Code.duplicateRule
  | undefinedSymbol _ _ => Code.undefinedSymbol
  | undefinedStart _ => Code.undefinedStart
  | unknownMarker _ => Code.unknownMarker
  | missingMarkerValue _ | unwantedMarkerValue _ => Code.markerValue
  | misplacedMarker _ _ => Code.misplacedMarker
  | conflictingMarkers _ => Code.conflictingMarkers
  | unknownDirective _ => Code.unknownDirective
  | duplicateDirective _ => Code.duplicateDirective
  | nameCollision _ _ _ _ => Code.nameCollision
  | invalidIdentifier _ _ => Code.invalidIdentifier
  | recursiveValue _ => Code.recursiveValue
  | inheritanceConflict _ _ _ => Code.inheritanceConflict
  | inheritanceCycle _ => Code.inheritanceCycle
  | classRequired _ _ => Code.classRequired
  | unknownClass _ => Code.unknownClass
  | unknownField _ _ => Code.unknownField
  | typeMismatch _ _ _ => Code.typeMismatch
  | invalidKeyField _ _ _ => Code.invalidKeyField
  | limitExceeded _ => Code.limitExceeded
  | tooManyErrors => Code.tooManySemanticErrors

/-- Advice on how to mend the grammar. -/
def help? : SemanticFault → Option String
  | duplicateRule _ first => some ("first definition is at " ++ first.display)
  | undefinedSymbol _ symbol =>
    some ("define a rule named `" ++ symbol ++ "` or use one of the built-in patterns")
  | unknownMarker _ =>
    some "recognized annotations: class, field, type, key, list, optional, skip"
  | unknownDirective _ => some "recognized directives: %namespace, %prefix, %start"
  | classRequired _ _ =>
    some "mark all but one element with `@skip`, or materialize a class"
  | recursiveValue _ => some "give the rule a `@class` so its value has a type of its own"
  | nameCollision _ _ _ _ => some "rename one of the two"
  | _ => none

end SemanticFault
end AnnotatedGrammar
