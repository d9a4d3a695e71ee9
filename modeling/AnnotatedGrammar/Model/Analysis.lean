import AnnotatedGrammar.Model.Draft

/-!
# What rule bodies yield

Walks through the rule bodies and finds the value of every expression, the fields it fills and the
classes it builds. The value of a reference is the value of its rule, which is analyzed on the way
when it is needed; `visit` stands for that step. A rule whose own value is needed while it is being
computed has none.
-/

namespace AnnotatedGrammar

/-- Analyzing one rule needs the roles of all of them. -/
structure RuleScope extends Scope where
  roles : Array RuleRole
  /-- The name of the rule being analyzed. -/
  ruleName : String

namespace RuleScope

/-- The class of the rule with `@class` that an expression refers to. -/
def referencedClass? (sc : RuleScope) : Expr → Option ClassId
  | .reference _ name =>
    (sc.symbols.ruleId? name).bind fun id =>
      if ((sc.rules[id]?).bind fun rule => rule.marker? .classOf).isSome then
        (sc.roles.getD id .passthrough).class?
      else none
  | _ => none

/-- The name of a class made for an expression that has none. -/
def derivedClassName (sc : RuleScope) (node : NodeId) : String :=
  match sc.paths.get? node with
  | some path => if path.isEmpty then sc.ruleName ++ "_alt" else sc.ruleName ++ "_" ++ path
  | none => sc.ruleName ++ "_alt"

/-- Whether an expression comes down to a reference that stands for nothing. -/
def isUnresolved (sc : RuleScope) : Expr → Bool
  | .reference _ name => !sc.symbols.contains name
  | .group _ body | .optional _ body | .repeated _ body _ => sc.isUnresolved body
  | _ => false

end RuleScope

namespace Expr

/-- What a derived field is named after: the symbol that the element comes down to, else the type
of its value. -/
def fieldSubject? : Expr → Option String
  | reference info name =>
    if (reference info name).hasMarker .classOf then none else some name
  | terminal info (.pattern p) =>
    if (terminal info (.pattern p)).hasMarker .classOf then none else some p.builtinName
  | group info body => if (group info body).hasMarker .classOf then none else fieldSubject? body
  | optional info body =>
    if (optional info body).hasMarker .classOf then none else fieldSubject? body
  | repeated info body kind =>
    if (repeated info body kind).hasMarker .classOf then none else fieldSubject? body
  | _ => none

end Expr

namespace Build

/-- Reports the given markers on an expression as misplaced. -/
def faultMarkers (e : Expr) (keys : List MarkerKey) (place : MarkerPlace) : Build Unit :=
  keys.forM fun key =>
    match e.marker? key with
    | some marker => fault (.misplacedMarker key.word place) marker.span
    | none => pure ()

/-- Records the value of an element, and checks the markers on it against the value.
`fieldAllowed` tells whether the element may fill a field. -/
def finishElement (sc : RuleScope) (e : Expr) (value : Option Value) (fieldAllowed : Bool) :
    Build (Option Value) := do
  let misplaced := !fieldAllowed && Expr.fieldMarkers.any e.hasMarker
  if !fieldAllowed then
    faultMarkers e Expr.fieldMarkers .outsideClass
  let claim := if e.namesAlternatives then none else e.marker? .typeOf
  match value with
  | none =>
    if !e.hasMarker .skip && !sc.isUnresolved e then
      faultMarkers e
        ((if misplaced then [] else Expr.fieldMarkers) ++
          (if claim.isSome then [.typeOf] else []))
        .withoutValue
  | some v =>
    match v.cardinality, e.marker? .optional with
    | .list, some marker => fault (.conflictingMarkers .optionalList) marker.span
    | _, _ => pure ()
    match claim with
    | some marker =>
      modify fun d =>
        { d with
          typeClaims := d.typeClaims.push ⟨e.id, marker.value.getD "", v, marker.span⟩ }
    | none => pure ()
  recordValue e.id value
  return value

/-- Makes an expression with a value fill a field of a class. `outer` is the cardinality of what
lies between the class and the expression, and `ownMarkers` tells whether the markers on the
expression speak of this field. -/
def addField (c : ClassId) (e : Expr) (value : Option Value) (outer : Cardinality)
    (branch : Nat) (ownMarkers : Bool) : Build Unit := do
  match value with
  | none => return ()
  | some v =>
    let cardinality :=
      if ownMarkers && e.hasMarker .list then Cardinality.list
      else if ownMarkers && e.hasMarker .optional then outer.wrap .optional
      else outer.wrap v.cardinality
    let name? := if ownMarkers then e.markerValue? .field else none
    let field ← match name? with
      | some raw => namedField c raw v.element cardinality branch e.span
      | none => do
        let d ← get
        let subject :=
          match e.fieldSubject? with
          | some subject => subject
          | none =>
            match v.element with
            | .instance cls => (d.classAt cls).sourceName
            | .primitive p => p.word
        derivedField c subject v.element cardinality branch e.span
    match field with
    | some id => recordField e.id id branch
    | none => return ()

/-- The one value among those of a sequence's items. -/
def singleValue (sc : RuleScope) (sequence : NodeInfo) (values : List (Option Value)) :
    Build (Option Value) :=
  match values.filterMap fun v => v with
  | [] => pure none
  | [v] => pure (some v)
  | present => do
    fault (.classRequired sc.ruleName present.length) sequence.span
    return none

/-! Every function below calls the others on smaller expressions, or on the same expression with a
smaller rank. -/

mutual

/-- The value of an expression as one element, with its own markers taken into account. -/
def elementValue (visit : RuleId → Build (Option Value)) (sc : RuleScope) (e : Expr)
    (fieldAllowed : Bool) : Build (Option Value) := do
  let value ←
    if e.hasMarker .skip then pure none
    else if e.hasMarker .classOf then (some ∘ Value.ofClass) <$> bearerClass visit sc e
    else structuralValue visit sc e
  finishElement sc e value fieldAllowed
termination_by 16 * e.weight + 6

/-- The values of several expressions. -/
def elementValues (visit : RuleId → Build (Option Value)) (sc : RuleScope) :
    List Expr → Build (List (Option Value))
  | [] => pure []
  | e :: rest => do
    let value ← elementValue visit sc e false
    let values ← elementValues visit sc rest
    return value :: values
termination_by es => 16 * Expr.weightAll es
decreasing_by all_goals simp only [Expr.weightAll]; omega

/-- The value of an expression from its shape, without regard to a class of its own. -/
def structuralValue (visit : RuleId → Build (Option Value)) (sc : RuleScope) (e : Expr) :
    Build (Option Value) := do
  match e with
  | .terminal info (.literal text) =>
    return if (Expr.terminal info (.literal text)).hasMarker .field then
      some (Value.ofPrimitive .keyword)
    else none
  | .terminal _ (.pattern p) => return some (Value.ofPrimitive (Primitive.ofPattern p))
  | .reference _ name =>
    match sc.symbols.resolve? name with
    | some (.builtin p) => return some (Value.ofPrimitive (Primitive.ofPattern p))
    | some (.rule id) => visit id
    | none => return none
  | .group info body =>
    groupValue visit sc body ((Expr.group info body).markerValue? .typeOf)
  | .sequence info items =>
    let values ← elementValues visit sc items
    singleValue sc info values
  | .alternation info branches => alternationValue visit sc info branches none
  | .optional _ body =>
    let value ← elementValue visit sc body false
    return value.map fun v => v.wrapped .optional
  | .repeated _ body _ =>
    let value ← elementValue visit sc body false
    return value.map fun v => v.wrapped .list
termination_by 16 * e.weight + 1
decreasing_by all_goals (try simp only [Expr.weight]); omega

/-- The value of parentheses around an expression; `hint` is a type named further out, which names
the class of alternatives. -/
def groupValue (visit : RuleId → Build (Option Value)) (sc : RuleScope) (body : Expr)
    (hint : Option String) : Build (Option Value) := do
  match body with
  | .alternation info branches =>
    let value ← alternationValue visit sc info branches hint
    recordValue info.id value
    return value
  | .group info inner =>
    if (Expr.group info inner).keepsGroup then
      elementValue visit sc (.group info inner) false
    else
      let value ← groupValue visit sc inner
        (hint <|> (Expr.group info inner).markerValue? .typeOf)
      recordValue info.id value
      return value
  | other => elementValue visit sc other false
termination_by 16 * body.weight + 7
decreasing_by all_goals (try simp only [Expr.weight]); omega

/-- The value of alternatives inside a rule body: none, an instance of a tagged class, or an
instance of a base. -/
def alternationValue (visit : RuleId → Build (Option Value)) (sc : RuleScope) (info : NodeInfo)
    (branches : List Expr) (hint : Option String) : Build (Option Value) := do
  let name := hint.getD (sc.derivedClassName info.id)
  if sc.isPolymorphic (.alternation info branches) then
    let base ← newClass sc.toScope name hint.isSome .abstract (.node info.id) info.span
    recordClass info.id base
    polymorphicBranches visit sc base 0 branches
    return some (Value.ofClass base)
  else
    let values ← elementValues visit sc branches
    if values.all Option.isNone then return none
    else
      let c ← newClass sc.toScope name hint.isSome .tagged (.node info.id) info.span
      recordClass info.id c
      addVariants c 0 (branches.zip values)
      return some (Value.ofClass c)
termination_by 16 * Expr.weightAll branches + 1
decreasing_by all_goals omega

/-- Makes the classes of the alternatives under a base, numbered from `index`. -/
def polymorphicBranches (visit : RuleId → Build (Option Value)) (sc : RuleScope) (base : ClassId)
    (index : Nat) : List Expr → Build Unit
  | [] => pure ()
  | branch :: rest => do
    if branch.core.hasMarker .classOf then
      let derived ← bearerClass visit sc branch.core
      setBase derived base branch.core.span
      let value ← finishElement sc branch.core (some (Value.ofClass derived)) false
      if branch.core.id ≠ branch.id then recordValue branch.id value
    else
      match sc.referencedClass? branch.core with
      | some derived =>
        setBase derived base branch.span
        discard (elementValue visit sc branch false)
      | none =>
        let raw := ((← get).classAt base).sourceName ++ branchTag branch index
        let derived ←
          newClass sc.toScope raw false .concrete (.synthesized branch.id) branch.span
        setBase derived base branch.span
        recordClass branch.id derived
        recordValue branch.id (some (Value.ofClass derived))
        collectFields visit sc branch derived .scalar 0 false
    polymorphicBranches visit sc base (index + 1) rest
termination_by branches => 16 * Expr.weightAll branches
decreasing_by
  all_goals
    have := branch.weight_core_le
    simp only [Expr.weightAll, if_false]; omega

/-- The class of an expression that carries `@class`; it is made once. -/
def bearerClass (visit : RuleId → Build (Option Value)) (sc : RuleScope) (bearer : Expr) :
    Build ClassId := do
  match (← get).nodeClasses.get? bearer.id with
  | some c => return c
  | none =>
    let name := (bearer.markerValue? .classOf).getD ""
    match _h : bearer.classContent with
    | (content, isBearer) =>
      match _hcore : content.core with
      | .alternation info branches =>
        if sc.isPolymorphic (.alternation info branches) then
          let base ← newClass sc.toScope name true .abstract (.node bearer.id) bearer.span
          recordClass bearer.id base
          recordClass info.id base
          polymorphicBranches visit sc base 0 branches
          return base
        else
          let c ← newClass sc.toScope name true .concrete (.node bearer.id) bearer.span
          recordClass bearer.id c
          fillClass visit sc c content isBearer
          return c
      | _ =>
        let c ← newClass sc.toScope name true .concrete (.node bearer.id) bearer.span
        recordClass bearer.id c
        fillClass visit sc c content isBearer
        return c
termination_by 16 * bearer.weight + 5
decreasing_by
  all_goals
    have hcontent := bearer.weight_classContent
    have hcoreLe := content.weight_core_le
    simp only [_h] at hcontent
    try (rw [_hcore] at hcoreLe; simp only [Expr.weight] at hcoreLe)
    cases isBearer <;> simp_all <;> omega

/-- Collects the fields of a class from its content. `isBearer` tells whether the content carries
`@class` itself. -/
def fillClass (visit : RuleId → Build (Option Value)) (sc : RuleScope) (c : ClassId)
    (content : Expr) (isBearer : Bool) : Build Unit := do
  match _h : content.classAlternatives? with
  | some branches =>
    collectBranches visit sc c 0 branches
    relaxPartial c branches.length
  | none => collectFields visit sc content c .scalar 0 isBearer
termination_by 16 * content.weight + (if isBearer then 4 else 9)
decreasing_by
  · have := content.weight_classAlternatives _h
    split <;> omega
  · cases isBearer <;> simp

/-- Collects the fields of a class from its alternatives, numbered from `index`. -/
def collectBranches (visit : RuleId → Build (Option Value)) (sc : RuleScope) (c : ClassId)
    (index : Nat) : List Expr → Build Unit
  | [] => pure ()
  | branch :: rest => do
    collectFields visit sc branch c .scalar index false
    collectBranches visit sc c (index + 1) rest
termination_by branches => 16 * Expr.weightAll branches
decreasing_by all_goals simp only [Expr.weightAll, if_false]; omega

/-- Collects the fields of a class from an expression. `outer` is the cardinality of what lies
between the class and the expression, `branch` the alternative of the class. -/
def collectFields (visit : RuleId → Build (Option Value)) (sc : RuleScope) (e : Expr) (c : ClassId)
    (outer : Cardinality) (branch : Nat) (isBearer : Bool) : Build Unit := do
  if !isBearer && e.hasMarker .skip then recordValue e.id none
  else if !isBearer && e.isFieldElement then
    let value ← elementValue visit sc e true
    addField c e value outer branch true
  else
    match e with
    | .sequence _ items => collectItems visit sc items c outer branch
    | .group _ body => collectFields visit sc body c outer branch false
    | .optional info body =>
      if (Expr.optional info body).isSimpleChain then
        let value ← ownValue visit sc (.optional info body) isBearer
        addField c (.optional info body) value outer branch !isBearer
      else collectFields visit sc body c (outer.wrap .optional) branch false
    | .repeated info body kind =>
      if (Expr.repeated info body kind).isSimpleChain then
        let value ← ownValue visit sc (.repeated info body kind) isBearer
        addField c (.repeated info body kind) value outer branch !isBearer
      else collectFields visit sc body c (outer.wrap .list) branch false
    | other =>
      let value ← ownValue visit sc other isBearer
      addField c other value outer branch !isBearer
termination_by 16 * e.weight + (if isBearer then 3 else 8)
decreasing_by
  all_goals
    try simp only [Expr.weight]
    cases isBearer <;> simp_all <;> omega

/-- The value of an expression whose class, if it carries one, is the class being filled. -/
def ownValue (visit : RuleId → Build (Option Value)) (sc : RuleScope) (e : Expr)
    (isBearer : Bool) : Build (Option Value) :=
  if isBearer then structuralValue visit sc e else elementValue visit sc e true
termination_by 16 * e.weight + (if isBearer then 2 else 7)
decreasing_by all_goals cases isBearer <;> simp_all

/-- Collects the fields of a class from the items of a sequence. -/
def collectItems (visit : RuleId → Build (Option Value)) (sc : RuleScope) (items : List Expr)
    (c : ClassId) (outer : Cardinality) (branch : Nat) : Build Unit := do
  match items with
  | [] => pure ()
  | e :: rest =>
    collectFields visit sc e c outer branch false
    collectItems visit sc rest c outer branch
termination_by 16 * Expr.weightAll items
decreasing_by all_goals simp only [Expr.weightAll, if_false]; omega

end

end Build
end AnnotatedGrammar
