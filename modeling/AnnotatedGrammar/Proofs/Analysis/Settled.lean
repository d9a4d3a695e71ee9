import Mathlib.Data.Option.Basic
import AnnotatedGrammar.Production.Lower
import AnnotatedGrammar.Proofs.Lowering.Fits
import AnnotatedGrammar.Proofs.Syntax.Inside

/-!
# What the analysis settles about expressions

Each predicate says what the tables of a model hold about an expression once one of the walks
through rule bodies has passed it: as an element with a value, as the content of a class, as the
carrier of a class, or as the alternatives of a base. The values are those that were computed; the
tables may hold others that agree with them.
-/

namespace AnnotatedGrammar

/-- The value of the element that a name is. -/
def GrammarModel.nameValue? (m : GrammarModel) (name : String) : Option Value :=
  match m.symbols.resolve? name with
  | some (.builtin p) => some (Value.ofPrimitive (Primitive.ofPattern p))
  | some (.rule id) => (m.rule? id).bind (·.value)
  | none => none

/-- A field may hold a value. -/
structure FieldModel.Takes (strict : Prop) (f : FieldModel) (v : Value) : Prop where
  rank_le : v.cardinality.rank ≤ f.cardinality.rank
  element_eq : strict → f.element = v.element

namespace Expr

/-- No marker on the expression describes a field. -/
def NoFieldMarkers (e : Expr) : Prop := ∀ key ∈ fieldMarkers, e.hasMarker key = false

/-- Inside the content of a class, the expression stands for one value and not for its parts. -/
def IsUnit : Expr → Prop
  | sequence _ _ | group _ _ => False
  | optional info body => (optional info body).isSimpleChain = true
  | repeated info body kind => (repeated info body kind).isSimpleChain = true
  | _ => True

/-- What the lowering relies on at every expression: names stand for something, alternatives carry
no markers, and there are some. In the strict sense, a literal that carries a class fills no field
with instances of that class. -/
structure IsRegular (strict : Prop) (m : GrammarModel) (e : Expr) : Prop where
  resolves : ∀ info name, e = reference info name → (m.symbols.resolve? name).isSome = true
  hasBranches : ∀ info branches, e = alternation info branches → branches ≠ []
  isUnmarked : ∀ info branches, e = alternation info branches → info.markers = []
  fillsText : strict → ∀ info text, e.quantifiedAtom = terminal info (.literal text) →
    e.quantifiedAtom.hasMarker .classOf = true →
      ∀ c f, m.fieldFor? c e.id = some f → f.element = .primitive .keyword

/-- An expression with which the lowering can deal throughout. -/
def Regular (strict : Prop) (m : GrammarModel) (e : Expr) : Prop :=
  e.Throughout (IsRegular strict m)

theorem Regular.alternatives_ne_nil {strict : Prop} {m : GrammarModel} {e : Expr}
    {branches : List Expr} (h : e.Regular strict m)
    (hbranches : e.classAlternatives? = some branches) : branches ≠ [] := by
  have hcore := h.core.self
  unfold classAlternatives? at hbranches
  split at hbranches
  · rename_i info found heq
    obtain rfl := Option.some.inj hbranches
    exact hcore.hasBranches info _ heq
  · cases hbranches

end Expr

namespace Settled

variable (strict : Prop) (m : GrammarModel)

/-- The value recorded for an expression agrees with the computed one. -/
def Recorded (e : Expr) (v : Option Value) : Prop :=
  ∃ w, m.nodeValues.get? e.id = some w ∧ Option.Rel (Value.Agrees strict) v w

/-- If an expression fills a field of a class, it does so with its value. -/
def FillsWith (c : ClassId) (e : Expr) (v : Option Value) : Prop :=
  ∀ f, m.fieldFor? c e.id = some f → ∃ u, v = some u ∧ f.Takes strict u

/-- The variant of a branch with a value. -/
structure VariantOf (variant : Variant) (branch : Expr) (v : Option Value) : Prop where
  node_eq : variant.node = branch.id
  withPayload : ∀ field, variant.payload = some field →
    ∃ f u, m.field? field = some f ∧ v = some u ∧ f.Takes strict u

/-- The variants of branches with their values. -/
inductive VariantsOf : List Variant → List Expr → List (Option Value) → Prop
  | nil : VariantsOf [] [] []
  | cons {variant : Variant} {branch : Expr} {v : Option Value} {variants : List Variant}
      {branches : List Expr} {vs : List (Option Value)}
      (hfirst : VariantOf strict m variant branch v)
      (hrest : VariantsOf variants branches vs) :
      VariantsOf (variant :: variants) (branch :: branches) (v :: vs)

mutual

/-- An expression with the value it has as one element. Field markers are settled elsewhere if they
are allowed. -/
inductive Element : Bool → Expr → Option Value → Prop
  | skipped {allowed : Bool} {e : Expr} (hskip : e.hasMarker .skip = true)
      (hallowed : allowed = false → e.NoFieldMarkers) (hrecorded : Recorded strict m e none) :
      Element allowed e none
  | bearing {allowed : Bool} {e : Expr} {c : ClassId} (hskip : ¬e.hasMarker .skip = true)
      (hmarker : e.hasMarker .classOf = true) (hallowed : allowed = false → e.NoFieldMarkers)
      (hrecorded : Recorded strict m e (some (.ofClass c))) (hbearer : Bearer e c) :
      Element allowed e (some (.ofClass c))
  | shaped {allowed : Bool} {e : Expr} {v : Option Value} (hskip : ¬e.hasMarker .skip = true)
      (hmarker : ¬e.hasMarker .classOf = true) (hallowed : allowed = false → e.NoFieldMarkers)
      (hrecorded : Recorded strict m e v) (hshape : Shape e v) : Element allowed e v

/-- Several expressions with their values as elements. -/
inductive Elements : List Expr → List (Option Value) → Prop
  | nil : Elements [] []
  | cons {e : Expr} {rest : List Expr} {v : Option Value} {vs : List (Option Value)}
      (hfirst : Element false e v) (hrest : Elements rest vs) : Elements (e :: rest) (v :: vs)

/-- An expression with the value it has by its shape. -/
inductive Shape : Expr → Option Value → Prop
  | fieldLiteral {info : NodeInfo} {text : String}
      (hmarker : (Expr.terminal info (.literal text)).hasMarker .field = true) :
      Shape (.terminal info (.literal text)) (some (.ofPrimitive .keyword))
  | literal {info : NodeInfo} {text : String}
      (hmarker : ¬(Expr.terminal info (.literal text)).hasMarker .field = true) :
      Shape (.terminal info (.literal text)) none
  | pattern {info : NodeInfo} {p : Pattern} :
      Shape (.terminal info (.pattern p)) (some (.ofPrimitive (Primitive.ofPattern p)))
  | reference {info : NodeInfo} {name : String} :
      Shape (.reference info name) (m.nameValue? name)
  | group {info : NodeInfo} {body : Expr} {v : Option Value} (hbody : Element false body v) :
      Shape (.group info body) v
  | sequence {info : NodeInfo} {items : List Expr} {vs : List (Option Value)} {v : Option Value}
      (hitems : Elements items vs) (hvalue : vs.filterMap (fun v => v) = v.toList) :
      Shape (.sequence info items) v
  | optional {info : NodeInfo} {body : Expr} {v : Option Value} (hbody : Element false body v) :
      Shape (.optional info body) (v.map (·.wrapped .optional))
  | repeated {info : NodeInfo} {body : Expr} {kind : Repetition} {v : Option Value}
      (hbody : Element false body v) :
      Shape (.repeated info body kind) (v.map (·.wrapped .list))
  | alternation {info : NodeInfo} {branches : List Expr} {vs : List (Option Value)}
      (hbranches : Elements branches vs) (hnone : ∀ v ∈ vs, v = none)
      (hclass : m.nodeClasses.get? info.id = none) : Shape (.alternation info branches) none
  | choice {info : NodeInfo} {branches : List Expr} {c : ClassId}
      (hclass : m.nodeClasses.get? info.id = some c) (hchoice : Choice c branches) :
      Shape (.alternation info branches) (some (.ofClass c))

/-- Alternatives that a class stands for. -/
inductive Choice : ClassId → List Expr → Prop
  | base {c : ClassId} {branches : List Expr} (hkind : HasKind m c .abstract)
      (hbranches : BaseBranches c branches) : Choice c branches
  | tagged {c : ClassId} {branches : List Expr} {model : ClassModel} {vs : List (Option Value)}
      (hmodel : m.class? c = some model) (hkind : model.kind = .tagged)
      (helements : Elements branches vs)
      (hvariants : VariantsOf strict m model.variants branches vs) : Choice c branches

/-- The alternatives under a base. -/
inductive BaseBranches : ClassId → List Expr → Prop
  | nil {base : ClassId} : BaseBranches base []
  | bearing {base c : ClassId} {branch : Expr} {rest : List Expr}
      (hmarker : branch.core.hasMarker .classOf = true) (hbearer : Bearer branch.core c)
      (hbase : m.HasBase c base) (hrest : BaseBranches base rest) :
      BaseBranches base (branch :: rest)
  | referring {base c : ClassId} {branch : Expr} {info : NodeInfo} {name : String} {id : RuleId}
      {rest : List Expr} (hmarker : ¬branch.core.hasMarker .classOf = true)
      (hcore : branch.core = .reference info name)
      (hname : m.symbols.resolve? name = some (.rule id))
      (hvalue : (m.rule? id).bind (·.value) = some (.ofClass c))
      (hclass : m.nodeClasses.get? branch.id = none) (hbase : m.HasBase c base)
      (hrest : BaseBranches base rest) : BaseBranches base (branch :: rest)
  | synthesized {base c : ClassId} {branch : Expr} {rest : List Expr}
      (hmarker : ¬branch.core.hasMarker .classOf = true)
      (hclass : m.nodeClasses.get? branch.id = some c) (hkind : HasKind m c .concrete)
      (hcontent : Content c branch false) (hrest : BaseBranches base rest) :
      BaseBranches base (branch :: rest)

/-- An expression that carries the class it builds. -/
inductive Bearer : Expr → ClassId → Prop
  | base {e : Expr} {c : ClassId} {info : NodeInfo} {branches : List Expr}
      (hclass : m.nodeClasses.get? e.id = some c) (hkind : HasKind m c .abstract)
      (hcore : e.classContent.1.core = .alternation info branches)
      (hbranches : BaseBranches c branches) : Bearer e c
  | concrete {e : Expr} {c : ClassId} (hclass : m.nodeClasses.get? e.id = some c)
      (hkind : HasKind m c .concrete) (hbody : Body c e.classContent.1 e.classContent.2) :
      Bearer e c

/-- The whole content of a class. -/
inductive Body : ClassId → Expr → Bool → Prop
  | single {c : ClassId} {content : Expr} {isBearer : Bool}
      (halternatives : content.classAlternatives? = none) (hcontent : Content c content isBearer) :
      Body c content isBearer
  | several {c : ClassId} {content : Expr} {isBearer : Bool} {branches : List Expr}
      (halternatives : content.classAlternatives? = some branches)
      (hcontents : Contents c branches) : Body c content isBearer

/-- An expression inside the content of a class; the flag tells whether it carries the class. -/
inductive Content : ClassId → Expr → Bool → Prop
  | skipped {c : ClassId} {e : Expr} {isBearer : Bool}
      (hskip : (!isBearer && e.hasMarker .skip) = true) : Content c e isBearer
  | field {c : ClassId} {e : Expr} {isBearer : Bool} {v : Option Value}
      (hskip : ¬(!isBearer && e.hasMarker .skip) = true)
      (hfield : (!isBearer && e.isFieldElement) = true) (helement : Element true e v)
      (hfills : FillsWith strict m c e v) : Content c e isBearer
  | parts {c : ClassId} {e : Expr} {isBearer : Bool}
      (hskip : ¬(!isBearer && e.hasMarker .skip) = true)
      (hfield : ¬(!isBearer && e.isFieldElement) = true) (hparts : Parts c e isBearer) :
      Content c e isBearer

/-- An expression without a field of its own inside the content of a class. -/
inductive Parts : ClassId → Expr → Bool → Prop
  | sequence {c : ClassId} {isBearer : Bool} {info : NodeInfo} {items : List Expr}
      (hitems : Contents c items) : Parts c (.sequence info items) isBearer
  | group {c : ClassId} {isBearer : Bool} {info : NodeInfo} {body : Expr}
      (hbody : Content c body false) : Parts c (.group info body) isBearer
  | own {c : ClassId} {e : Expr} {v : Option Value} (hunit : e.IsUnit)
      (helement : Element true e v) (hfills : FillsWith strict m c e v) : Parts c e false
  | bearer {c : ClassId} {e : Expr} {v : Option Value} (hunit : e.IsUnit) (hshape : Shape e v)
      (hfills : FillsWith strict m c e v) : Parts c e true
  | optional {c : ClassId} {isBearer : Bool} {info : NodeInfo} {body : Expr}
      (hsimple : ¬(Expr.optional info body).isSimpleChain = true) (hbody : Content c body false) :
      Parts c (.optional info body) isBearer
  | repeated {c : ClassId} {isBearer : Bool} {info : NodeInfo} {body : Expr} {kind : Repetition}
      (hsimple : ¬(Expr.repeated info body kind).isSimpleChain = true)
      (hbody : Content c body false) : Parts c (.repeated info body kind) isBearer

/-- Several expressions inside the content of a class. -/
inductive Contents : ClassId → List Expr → Prop
  | nil {c : ClassId} : Contents c []
  | cons {c : ClassId} {e : Expr} {rest : List Expr} (hfirst : Content c e false)
      (hrest : Contents c rest) : Contents c (e :: rest)

end

end Settled
end AnnotatedGrammar
