import AnnotatedGrammar.Model.Shape
import AnnotatedGrammar.Model.Symbols
import AnnotatedGrammar.Naming

/-!
# Checks before the model is built

Directives and markers must be known, stand where they have a meaning and not contradict each other;
every name in a rule body must stand for something. Nothing here depends on the model.
-/

namespace AnnotatedGrammar

/-- What a run may override in a grammar. -/
structure Overrides where
  namespaceName : Option String
  classPrefix : Option String
deriving DecidableEq, Repr, Inhabited

/-- What the directives of a grammar settle. -/
structure Settings where
  namespaceName : String
  classPrefix : String
  start : RuleId
deriving DecidableEq, Repr, Inhabited

namespace Settings

/-- The namespace of a grammar that names none. -/
def defaultNamespace : String := "generated"

/-- The first directive of each known kind; errors come out latest first. -/
def gather (seen : List (DirectiveKind × Directive)) (errors : List SemanticError) :
    List Directive → List (DirectiveKind × Directive) × List SemanticError
  | [] => (seen, errors)
  | d :: rest =>
    match DirectiveKind.ofWord? d.name with
    | none => gather seen (⟨.unknownDirective d.name, d.span⟩ :: errors) rest
    | some kind =>
      match seen.lookup kind with
      | some _ => gather seen (⟨.duplicateDirective d.name, d.span⟩ :: errors) rest
      | none => gather ((kind, d) :: seen) errors rest

/-- The parts of a namespace between double colons; `part` holds the current one, latest character
first. -/
def namespaceParts (part : List Char) : List Char → List (List Char)
  | [] => [part.reverse]
  | ':' :: ':' :: rest => part.reverse :: namespaceParts [] rest
  | c :: rest => namespaceParts (c :: part) rest

/-- Whether a namespace consists of names that are not reserved. -/
def isNamespace (text : String) : Bool :=
  (namespaceParts [] text.toList).all fun part =>
    Naming.isIdentifier (String.ofList part) && !Naming.isReserved (String.ofList part)

/-- What the directives settle, and what is wrong with them. -/
def ofDirectives (directives : List Directive) (symbols : SymbolTable) (overrides : Overrides) :
    Settings × List SemanticError :=
  let (seen, errors) := gather [] [] directives
  let value? (kind : DirectiveKind) := (seen.lookup kind).map (·.value)
  let spanOf (kind : DirectiveKind) :=
    match seen.lookup kind with
    | some d => d.span
    | none => ⟨⟨0, 0, 0⟩, ⟨0, 0, 0⟩⟩
  let namespaceName :=
    (overrides.namespaceName <|> value? .namespaceName).getD defaultNamespace
  let namespaceErrors : List SemanticError :=
    if isNamespace namespaceName then []
    else [⟨.invalidIdentifier .namespaceName namespaceName, spanOf .namespaceName⟩]
  let classPrefix := (overrides.classPrefix <|> value? .classPrefix).getD ""
  let prefixErrors : List SemanticError :=
    if classPrefix.isEmpty || Naming.isIdentifier classPrefix then []
    else [⟨.invalidIdentifier .classPrefix classPrefix, spanOf .classPrefix⟩]
  let (start, startErrors) : RuleId × List SemanticError :=
    match seen.lookup .start with
    | none => (0, [])
    | some d =>
      match symbols.ruleId? d.value with
      | some id => (id, [])
      | none => (0, [⟨.undefinedStart d.value, d.span⟩])
  (⟨namespaceName, classPrefix, start⟩,
    errors.reverse ++ namespaceErrors ++ prefixErrors ++ startErrors)

end Settings

namespace Marker

/-- Whether the value of a marker can be made into the name it stands for. -/
def hasUsableValue (key : MarkerKey) (value : String) : Bool :=
  match key with
  | .classOf => (Naming.className value "").isSome
  | .field | .keyOf => (Naming.fieldName value).isSome
  | .typeOf => (Primitive.ofWord? value).isSome || (Naming.className value "").isSome
  | .list | .optional | .skip => true

/-- What is wrong with a marker of a known key at a site, apart from its neighbours. -/
def siteErrors (m : Marker) (key : MarkerKey) (site : MarkerSite) : List SemanticError :=
  let placeErrors : List SemanticError :=
    if key.allowedOn site then [] else [⟨.misplacedMarker m.key (.site site), m.span⟩]
  let valueErrors : List SemanticError :=
    match m.value with
    | none => []
    | some value =>
      if hasUsableValue key value then []
      else [⟨.invalidIdentifier (.marker key) value, m.span⟩]
  placeErrors ++ valueErrors

/-- What is wrong with markers at a site, one after another; `seen` holds the usable markers
before them. -/
def eachErrors (site : MarkerSite) (seen : List Marker) : List Marker → List SemanticError
  | [] => []
  | m :: rest =>
    match MarkerKey.ofWord? m.key with
    | none => ⟨.unknownMarker m.key, m.span⟩ :: eachErrors site seen rest
    | some key =>
      if key.takesValue && m.value.isNone then
        ⟨.missingMarkerValue m.key, m.span⟩ :: eachErrors site seen rest
      else if !key.takesValue && m.value.isSome then
        ⟨.unwantedMarkerValue m.key, m.span⟩ :: eachErrors site seen rest
      else
        m.siteErrors key site ++
          match seen.find? fun earlier => earlier.key == m.key with
          | some earlier =>
            if earlier.value = m.value then eachErrors site seen rest
            else
              ⟨.conflictingMarkers (.differentValues m.key), m.span⟩ ::
                eachErrors site seen rest
          | none => eachErrors site (seen ++ [m]) rest

/-- What is wrong with the markers on one expression or rule together. -/
def togetherErrors (markers : List Marker) : List SemanticError :=
  match markers with
  | [] => []
  | first :: _ =>
    let has (key : MarkerKey) := markers.any fun m => m.key == key.word
    let listErrors : List SemanticError :=
      if has .list && has .optional then
        [⟨.conflictingMarkers .listAndOptional, first.span⟩]
      else []
    let skipErrors : List SemanticError :=
      if has .skip then
        (Expr.fieldMarkers.filter has).map fun key =>
          ⟨.conflictingMarkers (.skipWith key), first.span⟩
      else []
    listErrors ++ skipErrors

/-- What is wrong with the markers on one expression or rule. -/
def errors (site : MarkerSite) (markers : List Marker) : List SemanticError :=
  eachErrors site [] markers ++ togetherErrors markers

end Marker

namespace Expr

/-- The site that an element of a sequence, or an operand of a quantifier, is. -/
def elementSite : Expr → MarkerSite
  | group _ _ => .group
  | _ => .element

/-- The site that a whole rule body, or the content of parentheses, is. -/
def contentSite : Expr → MarkerSite
  | sequence _ _ | group _ _ => .group
  | _ => .element

mutual

/-- What is wrong with the markers in an expression. -/
def markerErrors (site : MarkerSite) : Expr → List SemanticError
  | terminal info _ => Marker.errors site info.markers
  | reference info _ => Marker.errors site info.markers
  | sequence info items => Marker.errors site info.markers ++ markerErrorsOfItems items
  | alternation info branches =>
    Marker.errors site info.markers ++ markerErrorsOfBranches branches
  | optional info body =>
    Marker.errors site info.markers ++ markerErrors body.elementSite body
  | repeated info body _ =>
    Marker.errors site info.markers ++ markerErrors body.elementSite body
  | group info body => Marker.errors site info.markers ++ markerErrors body.contentSite body

/-- What is wrong with the markers in the items of a sequence. -/
def markerErrorsOfItems : List Expr → List SemanticError
  | [] => []
  | e :: rest => markerErrors e.elementSite e ++ markerErrorsOfItems rest

/-- What is wrong with the markers in the branches of an alternation. -/
def markerErrorsOfBranches : List Expr → List SemanticError
  | [] => []
  | e :: rest => markerErrors .branch e ++ markerErrorsOfBranches rest

end

mutual

/-- The place of every expression within its rule body: letters for the kind of step, numbers for
the item or branch. `path` is the place of the expression itself. -/
def paths (path : String) : Expr → List (NodeId × String)
  | terminal info _ => [(info.id, path)]
  | reference info _ => [(info.id, path)]
  | sequence info items => (info.id, path) :: pathsOfAll (path ++ "s") 1 items
  | alternation info branches => (info.id, path) :: pathsOfAll (path ++ "a") 1 branches
  | optional info body => (info.id, path) :: paths (path ++ "o") body
  | repeated info body _ => (info.id, path) :: paths (path ++ "r") body
  | group info body => (info.id, path) :: paths (path ++ "g") body

/-- The places of the items of a sequence or the branches of an alternation, numbered from
`number`. -/
def pathsOfAll (step : String) (number : Nat) : List Expr → List (NodeId × String)
  | [] => []
  | e :: rest => paths (step ++ toString number) e ++ pathsOfAll step (number + 1) rest

end

/-- The name and place of every reference in an expression. -/
def references (e : Expr) : List (String × Span) :=
  e.preorder.filterMap fun node =>
    match node with
    | reference info name => some (name, info.span)
    | _ => none

end Expr

namespace Rule

/-- What is wrong with the markers of a rule and its body. -/
def markerErrors (rule : Rule) : List SemanticError :=
  let keyErrors : List SemanticError :=
    match rule.marker? .keyOf with
    | some key =>
      if (rule.marker? .classOf).isNone then
        [⟨.misplacedMarker MarkerKey.keyOf.word .ruleWithoutClass, key.span⟩]
      else []
    | none => []
  Marker.errors .rule rule.markers ++ keyErrors ++
    rule.body.markerErrors rule.body.contentSite

/-- The references in a rule that stand for nothing. -/
def referenceErrors (rule : Rule) (symbols : SymbolTable) : List SemanticError :=
  (rule.body.references.filter fun reference => !symbols.contains reference.1).map
    fun reference => ⟨.undefinedSymbol rule.name reference.1, reference.2⟩

end Rule

namespace Grammar

/-- What is wrong with the markers and names of the rules. -/
def ruleErrors (grammar : Grammar) (symbols : SymbolTable) : List SemanticError :=
  grammar.rules.toList.flatMap fun rule => rule.markerErrors ++ rule.referenceErrors symbols

/-- The place of every expression within its rule. -/
def paths (grammar : Grammar) : NodeTable String :=
  (grammar.rules.toList.flatMap fun rule => rule.body.paths "").foldl
    (fun table entry => table.insert entry.1 entry.2) (NodeTable.empty grammar.nodeCount)

end Grammar
end AnnotatedGrammar
