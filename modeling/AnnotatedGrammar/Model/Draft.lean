import AnnotatedGrammar.Log.Event
import AnnotatedGrammar.Model.Placement

/-!
# A model being built

A draft holds the classes and fields made so far, what is known about expressions and rules, and the
errors found. The operations here make classes, fields and variants and keep their names apart; none
of them looks into expressions.
-/

namespace AnnotatedGrammar

/-- How far the value of a passthrough rule is known. -/
inductive RuleProgress
  | pending
  /-- The value is being computed; `reported` tells whether the rule was found to need its own
  value. -/
  | inProgress (reported : Bool)
  | done (value : Option Value)
deriving DecidableEq, Repr, Inhabited

/-- A class being built. -/
structure ClassDraft where
  model : ClassModel
  /-- Whether the grammar gives the class its name. -/
  isNamed : Bool
  /-- How often each derived field name came up in each alternative. -/
  occurrences : List ((Nat × String) × Nat)
  /-- Whether it was reported that the class has too many fields. -/
  fieldLimitReported : Bool
deriving Repr, Inhabited

/-- A field being built. -/
structure FieldDraft where
  model : FieldModel
  /-- The alternatives of the class that fill the field. -/
  branches : List Nat
deriving Repr, Inhabited

/-- A declared type, compared with the element's own type once all classes are known. -/
structure TypeClaim where
  node : NodeId
  expected : String
  value : Value
  span : Span
deriving Repr, Inhabited

/-- A model being built. -/
structure Draft where
  /-- The errors found, in order. -/
  errors : Array SemanticError
  progress : Array RuleProgress
  classes : Array ClassDraft
  fields : Array FieldDraft
  nodeValues : NodeTable (Option Value)
  nodeFields : NodeTable FieldId
  nodeClasses : NodeTable ClassId
  /-- The declared types, in order. -/
  typeClaims : Array TypeClaim
  /-- What the log is told, in order. -/
  entries : Array Log.Entry
deriving Inhabited

/-- Work on a draft. -/
abbrev Build := StateM Draft

namespace Draft

/-- Nothing built yet. -/
def empty (ruleCount nodeCount : Nat) (errors : List SemanticError) : Draft where
  errors := errors.toArray
  progress := Array.replicate ruleCount .pending
  classes := #[]
  fields := #[]
  nodeValues := NodeTable.empty nodeCount
  nodeFields := NodeTable.empty nodeCount
  nodeClasses := NodeTable.empty nodeCount
  typeClaims := #[]
  entries := #[]

/-- The class of an index. -/
def classAt (d : Draft) (c : ClassId) : ClassModel := (d.classes.getD c default).model

/-- The field of an index. -/
def fieldAt (d : Draft) (f : FieldId) : FieldModel := (d.fields.getD f default).model

/-- The fields of a class. -/
def fieldsOf (d : Draft) (c : ClassId) : List FieldModel := (d.classAt c).fields.map d.fieldAt

/-- The alternatives of its class that fill a field. -/
def branchesOf (d : Draft) (f : FieldId) : List Nat := (d.fields.getD f default).branches

/-- The type of a value's items as messages speak of it. -/
def elementName (d : Draft) : ElementType → String
  | .primitive p => p.word
  | .instance c => (d.classAt c).name

/-- The class or one of its bases is the other class; at most `steps` bases are looked at. -/
def reaches (d : Draft) (ancestor : ClassId) : Nat → ClassId → Bool
  | 0, c => c == ancestor
  | steps + 1, c =>
    c == ancestor ||
      match (d.classAt c).base with
      | some base => reaches d ancestor steps base
      | none => false

/-- Whether a class is another one or derives from it. -/
def isAncestor (d : Draft) (ancestor c : ClassId) : Bool := d.reaches ancestor d.classes.size c

end Draft

namespace Build

/-- Takes note of an error. -/
def fault (what : SemanticFault) (span : Span) : Build Unit :=
  modify fun d => { d with errors := d.errors.push ⟨what, span⟩ }

/-- Changes a class. -/
def updateClass (c : ClassId) (f : ClassDraft → ClassDraft) : Build Unit :=
  modify fun d => { d with classes := d.classes.modify c f }

/-- Changes a field. -/
def updateField (id : FieldId) (f : FieldDraft → FieldDraft) : Build Unit :=
  modify fun d => { d with fields := d.fields.modify id f }

/-- Records the value of an expression. -/
def recordValue (node : NodeId) (value : Option Value) : Build Unit :=
  modify fun d => { d with nodeValues := d.nodeValues.insert node value }

/-- Records the class that an expression builds. -/
def recordClass (node : NodeId) (c : ClassId) : Build Unit :=
  modify fun d => { d with nodeClasses := d.nodeClasses.insert node c }

end Build

/-- What stays the same while the rules are analyzed. -/
structure Scope where
  symbols : SymbolTable
  rules : Array Rule
  paths : NodeTable String
  /-- What every class name begins with. -/
  classPrefix : String
  /-- Whether every class is reported. -/
  summaries : Bool

namespace Scope

/-- The rule that a name stands for. -/
def rule? (sc : Scope) (name : String) : Option Rule :=
  (sc.symbols.ruleId? name).bind fun id => sc.rules[id]?

/-- Whether a branch carries `@class`, or refers to a rule that does. -/
def isClassBearing (sc : Scope) (branch : Expr) : Bool :=
  let core := branch.core
  core.hasMarker .classOf ||
    match core with
    | .reference _ name =>
      match sc.rule? name with
      | some rule => (rule.marker? .classOf).isSome
      | none => false
    | _ => false

/-- Whether an expression has at least two branches with classes of their own. -/
def isPolymorphic (sc : Scope) : Expr → Bool
  | .alternation _ branches => 2 ≤ branches.countP sc.isClassBearing
  | _ => false

end Scope

namespace ClassKind

/-- The kind as the log names it. -/
def word : ClassKind → String
  | concrete => "Concrete"
  | abstract => "Abstract"
  | tagged => "Union"

end ClassKind

namespace Build

/-- The name of a new class. A name that the grammar gives displaces one that was derived; of two
given names the second is at fault. -/
def claimClassName (sc : Scope) (raw : String) (isNamed : Bool) (span : Span) : Build String := do
  let d ← get
  let wanted := (Naming.className raw sc.classPrefix).getD (sc.classPrefix ++ "Class")
  match d.classes.findIdx? fun c => c.model.name == wanted with
  | none => return wanted
  | some other =>
    let free := Naming.uniqueName wanted d.classes.size fun name =>
      d.classes.any fun c => c.model.name == name
    let holder := d.classes.getD other default
    if isNamed then
      if holder.isNamed then
        fault (.nameCollision .className raw holder.model.sourceName wanted) span
        return free
      else
        updateClass other fun c => { c with model := { c.model with name := free } }
        return wanted
    else return free

/-- Makes a class. -/
def newClass (sc : Scope) (raw : String) (isNamed : Bool) (kind : ClassKind)
    (origin : ClassOrigin) (span : Span) : Build ClassId := do
  let id := (← get).classes.size
  if id = Limits.classes then
    fault (.limitExceeded .classes) span
  let name ← claimClassName sc raw isNamed span
  let model : ClassModel :=
    { id, name, sourceName := raw, kind, base := none, fields := [], variants := [], key := none,
      origin, span }
  modify fun d =>
    { d with
      entries :=
        if sc.summaries then
          d.entries.push (Log.Entry.debug "Materialized class"
            [("class", name), ("kind", kind.word), ("source", raw)])
        else d.entries
      classes := d.classes.push ⟨model, isNamed, [], false⟩ }
  return id

/-- Makes a class derive from a base. A class has one base, and not itself. -/
def setBase (c base : ClassId) (span : Span) : Build Unit := do
  let d ← get
  if c = base then
    fault (.inheritanceCycle (d.classAt c).name) span
  else
    match (d.classAt c).base with
    | none => updateClass c fun cls => { cls with model := { cls.model with base := some base } }
    | some existing =>
      if existing = base then return ()
      else
        fault (.inheritanceConflict (d.classAt c).name (d.classAt existing).name
          (d.classAt base).name) span

/-- Adds a field to a class, unless the class is full. -/
def pushField (c : ClassId) (name : String) (sourceName : Option String) (element : ElementType)
    (cardinality : Cardinality) (span : Span) : Build (Option FieldId) := do
  let d ← get
  let holder := d.classes.getD c default
  if Limits.fieldsPerClass ≤ holder.model.fields.length then
    if !holder.fieldLimitReported then
      updateClass c fun cls => { cls with fieldLimitReported := true }
      fault (.limitExceeded .fieldsPerClass) span
    return none
  else
    let id := d.fields.size
    let model : FieldModel :=
      { id, owner := c, name, sourceName, cardinality, element, nodes := [] }
    modify fun d => { d with fields := d.fields.push ⟨model, []⟩ }
    updateClass c fun cls =>
      { cls with model := { cls.model with fields := cls.model.fields ++ [id] } }
    return some id

/-- A field name that the class does not have yet. -/
def freeFieldName (c : ClassId) (base : String) : Build String := do
  let d ← get
  return Naming.uniqueAmong base ((d.fieldsOf c).map (·.name))

/-- The field that the grammar names; a second element may share it if it fits. -/
def namedField (c : ClassId) (raw : String) (element : ElementType) (cardinality : Cardinality)
    (branch : Nat) (span : Span) : Build (Option FieldId) := do
  let d ← get
  match Naming.fieldName raw with
  | none => return none
  | some name =>
    match (d.fieldsOf c).find? fun f => f.name == name with
    | none => pushField c name (some raw) element cardinality span
    | some other =>
      if other.sourceName ≠ some raw then
        fault (.nameCollision .fieldName raw (other.sourceName.getD other.name) name) span
        return none
      else if other.element ≠ element then
        fault (.typeMismatch (.field raw (d.classAt c).name) (d.elementName other.element)
          (d.elementName element)) span
        return none
      else if (d.branchesOf other.id).contains branch then
        if other.cardinality ≠ .list ∧ cardinality ≠ .list then
          fault (.conflictingMarkers (.assignedTwice raw)) span
          return none
        else
          updateField other.id fun f => { f with model := { f.model with cardinality := .list } }
          return some other.id
      else
        updateField other.id fun f =>
          { f with model := { f.model with cardinality := f.model.cardinality.max cardinality } }
        return some other.id

/-- Counts one more occurrence of a derived name in an alternative; returns how many there are. -/
def countOccurrence (c : ClassId) (branch : Nat) (base : String) : Build Nat := do
  let holder := (← get).classes.getD c default
  let count := ((holder.occurrences.lookup (branch, base)).getD 0) + 1
  updateClass c fun cls =>
    { cls with
      occurrences := ((branch, base), count) ::
        cls.occurrences.filter fun entry => entry.1 != (branch, base) }
  return count

/-- The field of an element that the grammar does not name. Elements of the same derived name in
different alternatives share a field. -/
def derivedField (c : ClassId) (subject : String) (element : ElementType)
    (cardinality : Cardinality) (branch : Nat) (span : Span) : Build (Option FieldId) := do
  let base := (Naming.fieldName subject).getD "value"
  let count ← countOccurrence c branch base
  let candidate := if count = 1 then base else Naming.numbered base count
  let d ← get
  let shared := (d.fieldsOf c).find? fun f =>
    f.name == candidate && f.sourceName.isNone && f.element == element &&
      !(d.branchesOf f.id).contains branch
  match shared with
  | some field =>
    updateField field.id fun f =>
      { f with model := { f.model with cardinality := f.model.cardinality.max cardinality } }
    return some field.id
  | none =>
    let name ← freeFieldName c candidate
    pushField c name none element cardinality span

/-- Records that an expression fills a field in an alternative of the class. -/
def recordField (node : NodeId) (field : FieldId) (branch : Nat) : Build Unit := do
  updateField field fun f =>
    { f with
      model := { f.model with nodes := f.model.nodes ++ [node] }
      branches := if f.branches.contains branch then f.branches else branch :: f.branches }
  modify fun d => { d with nodeFields := d.nodeFields.insert node field }

/-- Makes fields that some alternatives leave out optional. -/
def relaxPartial (c : ClassId) (alternatives : Nat) : Build Unit := do
  let d ← get
  for field in (d.classAt c).fields do
    if (d.branchesOf field).length < alternatives ∧ (d.fieldAt field).cardinality = .scalar then
      updateField field fun f =>
        { f with model := { f.model with cardinality := .optional } }

/-- The tag of a branch: its class, its first symbol or literal, or its number. -/
def branchTag (branch : Expr) (index : Nat) : String :=
  let source := branch.core.markerValue? .classOf <|> branch.tagSource?
  (source.bind Naming.tagName).getD ("Alt" ++ toString (index + 1))

/-- Adds the variant of one branch to a tagged class. -/
def addVariant (c : ClassId) (branch : Expr) (index : Nat) (value : Option Value) :
    Build Unit := do
  let d ← get
  let tag := Naming.uniqueAmong (branchTag branch index)
    ((d.classAt c).variants.map (·.tag))
  let payload ← match value with
    | none => pure none
    | some value =>
      let name ← freeFieldName c ((Naming.fieldName tag).getD "value")
      let cardinality :=
        match value.cardinality with
        | .scalar => Cardinality.optional
        | other => other
      let field ← pushField c name none value.element cardinality branch.span
      match field with
      | some id =>
        updateField id fun f =>
          { f with model := { f.model with nodes := f.model.nodes ++ [branch.id] } }
      | none => pure ()
      pure field
  updateClass c fun cls =>
    { cls with
      model := { cls.model with
        variants := cls.model.variants ++ [⟨tag, branch.id, payload⟩] } }

/-- Adds the variants of branches with their values, numbered from `index`. -/
def addVariants (c : ClassId) (index : Nat) : List (Expr × Option Value) → Build Unit
  | [] => pure ()
  | (branch, value) :: rest => do
    addVariant c branch index value
    addVariants c (index + 1) rest

end Build
end AnnotatedGrammar
