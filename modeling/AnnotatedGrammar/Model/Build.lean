import AnnotatedGrammar.Config.Preferences
import AnnotatedGrammar.Model.Analysis

/-!
# Building the model of a grammar

The roles of all rules are settled before any value is computed, so that rules may refer to each
other in cycles. The bodies are then analyzed in order. Last come the checks that need every class:
key fields, declared types and cycles among bases.
-/

namespace AnnotatedGrammar

namespace Build

/-! ## Roles -/

/-- Settles what a rule makes of its text, with the class that takes. -/
def assignRole (sc : Scope) (id : RuleId) (rule : Rule) : Build RuleRole := do
  let core := rule.body.core
  let polymorphic := sc.isPolymorphic core
  match rule.markerValue? .classOf with
  | some name =>
    match rule.marker? .typeOf with
    | some marker => fault (.misplacedMarker MarkerKey.typeOf.word .ruleWithClass) marker.span
    | none => pure ()
    if polymorphic then
      return .polymorphic (← newClass sc name true .abstract (.rule id) rule.nameSpan)
    else return .builds (← newClass sc name true .concrete (.rule id) rule.nameSpan)
  | none =>
    let given := rule.markerValue? .typeOf <|> rule.body.stripGroups.2
    let name := given.getD rule.name
    if polymorphic then
      return .polymorphic (← newClass sc name given.isSome .abstract (.rule id) rule.nameSpan)
    else
      match core with
      | .alternation _ _ =>
        return .tagged (← newClass sc name given.isSome .tagged (.rule id) rule.nameSpan)
      | _ =>
        match rule.marker? .typeOf with
        | some marker =>
          fault (.misplacedMarker MarkerKey.typeOf.word .ruleBuildingNoClass) marker.span
        | none => pure ()
        return .passthrough

/-- Settles the roles of rules from an index on; `roles` holds those before. -/
def assignRoles (sc : Scope) (roles : Array RuleRole) : List Rule → Build (Array RuleRole)
  | [] => pure roles
  | rule :: rest => do
    let role ← assignRole sc roles.size rule
    assignRoles sc (roles.push role) rest

/-! ## Values of rules -/

/-- Records how far the value of a rule is known. -/
def setProgress (id : RuleId) (progress : RuleProgress) : Build Unit :=
  modify fun d => { d with progress := d.progress.setIfInBounds id progress }

/-- What stays the same while a rule is analyzed. -/
def scopeOf (sc : Scope) (roles : Array RuleRole) (rule : Rule) : RuleScope :=
  { sc with roles, ruleName := rule.name }

/-- The value of a rule. A passthrough rule is analyzed when its value is first needed; `depth`
bounds how many rules may be under way, which is never more than there are rules. -/
def ruleValue (sc : Scope) (roles : Array RuleRole) : Nat → RuleId → Build (Option Value)
  | 0, _ => pure none
  | depth + 1, id => do
    match (roles.getD id .passthrough).class?, sc.rules[id]? with
    | some c, _ => return some (Value.ofClass c)
    | none, none => return none
    | none, some rule =>
      match (← get).progress.getD id (.done none) with
      | .done value => return value
      | .inProgress reported =>
        if !reported then
          fault (.recursiveValue rule.name) rule.nameSpan
          setProgress id (.inProgress true)
        return none
      | .pending =>
        setProgress id (.inProgress false)
        let value ←
          elementValue (ruleValue sc roles depth) (scopeOf sc roles rule) rule.body false
        setProgress id (.done value)
        return value

/-- Analyzes the body of a rule. -/
def analyzeRule (sc : Scope) (roles : Array RuleRole) (id : RuleId) (rule : Rule) :
    Build Unit := do
  let visit := ruleValue sc roles sc.rules.size
  let inner := scopeOf sc roles rule
  match roles.getD id .passthrough with
  | .builds c => fillClass visit inner c rule.body false
  | .polymorphic base =>
    recordClass rule.body.core.id base
    match rule.body.core with
    | .alternation _ branches => polymorphicBranches visit inner base 0 branches
    | _ => return ()
  | .tagged c =>
    recordClass rule.body.core.id c
    match rule.body.core with
    | .alternation _ branches =>
      let values ← elementValues visit inner branches
      addVariants c 0 (branches.zip values)
    | _ => return ()
  | .passthrough => discard (ruleValue sc roles (sc.rules.size + 1) id)

/-- Analyzes the bodies of rules from an index on. -/
def analyzeRules (sc : Scope) (roles : Array RuleRole) (id : RuleId) : List Rule → Build Unit
  | [] => pure ()
  | rule :: rest => do
    analyzeRule sc roles id rule
    analyzeRules sc roles (id + 1) rest

/-! ## Checks that need every class -/

/-- Gives the class of a rule its key field. -/
def applyKey (role : RuleRole) (rule : Rule) : Build Unit := do
  match rule.marker? .keyOf, rule.marker? .classOf, role.class? with
  | some marker, some _, some c =>
    match marker.value with
    | none => return ()
    | some raw =>
      let d ← get
      let found := (d.fieldsOf c).find? fun f =>
        f.sourceName == some raw || Naming.fieldName raw == some f.name
      match found with
      | none => fault (.unknownField (d.classAt c).name raw) marker.span
      | some f =>
        if f.cardinality ≠ .scalar then
          fault (.invalidKeyField (d.classAt c).name raw f.cardinality) marker.span
        else updateClass c fun cls => { cls with model := { cls.model with key := some f.id } }
  | _, _, _ => return ()

/-- Compares a declared type with the type of the element. A base of the element's class becomes
the element's type. -/
def checkTypeClaim (claim : TypeClaim) : Build Unit := do
  let d ← get
  let found := d.elementName claim.value.element
  match Primitive.ofWord? claim.expected with
  | some p =>
    if claim.value.element = .primitive p then return ()
    else fault (.typeMismatch .assertion claim.expected found) claim.span
  | none =>
    match d.classes.findIdx? fun c =>
        c.model.sourceName == claim.expected || c.model.name == claim.expected with
    | none => fault (.unknownClass claim.expected) claim.span
    | some target =>
      let mismatch := fault (.typeMismatch .assertion (d.classAt target).name found) claim.span
      match claim.value.element with
      | .primitive _ => mismatch
      | .instance c =>
        if c = target then return ()
        else if d.isAncestor target c then
          recordValue claim.node (some ⟨.instance target, claim.value.cardinality⟩)
          match d.nodeFields.get? claim.node with
          | some field =>
            updateField field fun f =>
              { f with model := { f.model with element := .instance target } }
          | none => return ()
        else mismatch

/-- The classes from a class along its bases up to where they come back to it, if they do; `seen`
holds the classes passed, and at most `steps` bases are followed. -/
def baseCycle? (d : Draft) (start : ClassId) (seen : List ClassId) :
    Nat → Option ClassId → Option (List ClassId)
  | 0, _ => none
  | _ + 1, none => none
  | steps + 1, some c =>
    if c = start then some seen
    else baseCycle? d start (c :: seen) steps (d.classAt c).base

/-- Reports each cycle among the bases of classes once, for its first class. -/
def checkCycles (reported : List ClassId) : List ClassId → Build Unit
  | [] => pure ()
  | start :: rest => do
    let d ← get
    match baseCycle? d start [start] (d.classes.size + 1) (d.classAt start).base with
    | none => checkCycles reported rest
    | some members =>
      let first := members.foldl min start
      if reported.contains first then checkCycles reported rest
      else
        fault (.inheritanceCycle (d.classAt first).name) (d.classAt first).span
        checkCycles (first :: reported) rest

end Build

/-- The data model of a grammar. -/
structure GrammarModel where
  grammar : Grammar
  symbols : SymbolTable
  namespaceName : String
  classPrefix : String
  start : RuleId
  rules : Array RuleModel
  classes : Array ClassModel
  fields : Array FieldModel
  /-- What each expression yields, where that was asked. -/
  nodeValues : NodeTable (Option Value)
  /-- The field each expression fills. -/
  nodeFields : NodeTable FieldId
  /-- The class each expression builds. -/
  nodeClasses : NodeTable ClassId
  /-- The place of each expression within its rule. -/
  nodePaths : NodeTable String
deriving Inhabited

/-- A finished draft: the settings of the grammar, the roles of its rules and everything built. -/
structure DraftedModel where
  settings : Settings
  roles : Array RuleRole
  symbols : SymbolTable
  draft : Draft

namespace Grammar

/-- Builds everything there is to build, and collects every error on the way. -/
def draft (grammar : Grammar) (preferences : ModelPreferences) (overrides : Overrides) :
    DraftedModel :=
  let (symbols, symbolErrors) := SymbolTable.ofGrammar grammar preferences.builtinPatterns
  let (settings, settingErrors) := Settings.ofDirectives grammar.directives symbols overrides
  let scope : Scope :=
    { symbols, rules := grammar.rules, paths := grammar.paths,
      classPrefix := settings.classPrefix, summaries := preferences.classSummaries }
  let rules := grammar.rules.toList
  let initial := Draft.empty grammar.rules.size grammar.nodeCount
    (symbolErrors ++ settingErrors ++ grammar.ruleErrors symbols)
  let build : Build (Array RuleRole) := do
    let roles ← Build.assignRoles scope #[] rules
    Build.analyzeRules scope roles 0 rules
    (roles.toList.zip rules).forM fun entry => Build.applyKey entry.1 entry.2
    (← get).typeClaims.toList.forM Build.checkTypeClaim
    Build.checkCycles [] (List.range (← get).classes.size)
    return roles
  let (roles, draft) := build.run initial
  ⟨settings, roles, symbols, draft⟩

/-- Cuts a list of errors at the limit, and says so. -/
def limitErrors (errors : List SemanticError) : List SemanticError :=
  if Limits.semanticErrors < errors.length then
    let kept := errors.take Limits.semanticErrors
    let span :=
      match kept.getLast? with
      | some last => last.span
      | none => Span.placeholder
    kept ++ [⟨.tooManyErrors, span⟩]
  else errors

/-- The error of a grammar without rules. -/
def noRules : SemanticError := ⟨.undefinedStart "<empty grammar>", Span.placeholder⟩

end Grammar

namespace DraftedModel

/-- The rules of the model, from an index on. -/
def ruleModels (drafted : DraftedModel) (id : RuleId) : List Rule → List RuleModel
  | [] => []
  | rule :: rest =>
    let role := drafted.roles.getD id .passthrough
    let value :=
      match role.class? with
      | some c => some (Value.ofClass c)
      | none =>
        match drafted.draft.progress.getD id .pending with
        | .done value => value
        | _ => none
    { id, name := rule.name, symbol := Naming.nonterminalSymbol rule.name, role, value,
      span := rule.span } :: ruleModels drafted (id + 1) rest

/-- The model of a draft without errors. -/
def model (drafted : DraftedModel) (grammar : Grammar) : GrammarModel where
  grammar := grammar
  symbols := drafted.symbols
  namespaceName := drafted.settings.namespaceName
  classPrefix := drafted.settings.classPrefix
  start := drafted.settings.start
  rules := (drafted.ruleModels 0 grammar.rules.toList).toArray
  classes := drafted.draft.classes.map (·.model)
  fields := drafted.draft.fields.map (·.model)
  nodeValues := drafted.draft.nodeValues
  nodeFields := drafted.draft.nodeFields
  nodeClasses := drafted.draft.nodeClasses
  nodePaths := grammar.paths

end DraftedModel

/-- The outcome of building a model, with what the log is told. -/
structure ModelOutcome where
  result : Except (List SemanticError) GrammarModel
  entries : List Log.Entry

namespace Grammar

/-- What the log is told about errors. -/
def errorEntries (errors : List SemanticError) : List Log.Entry :=
  errors.map fun e => Log.Entry.error e.value.code e.value.message (some e.span) []

/-- Builds the model of a grammar, or finds every reason why it has none. -/
def buildModel (grammar : Grammar) (preferences : ModelPreferences) (overrides : Overrides) :
    ModelOutcome :=
  if grammar.rules.isEmpty then
    let (_, symbolErrors) := SymbolTable.ofGrammar grammar preferences.builtinPatterns
    let errors := limitErrors (symbolErrors ++ [noRules])
    ⟨.error errors, errorEntries errors⟩
  else
    let drafted := grammar.draft preferences overrides
    let entries := drafted.draft.entries.toList
    match limitErrors drafted.draft.errors.toList with
    | [] =>
      let model := drafted.model grammar
      ⟨.ok model, entries ++
        [Log.Entry.success Code.modelBuilt "Grammar model built"
          [("rules", toString model.rules.size), ("classes", toString model.classes.size),
            ("fields", toString model.fields.size)]]⟩
    | errors => ⟨.error errors, entries ++ errorEntries errors⟩

end Grammar
end AnnotatedGrammar
