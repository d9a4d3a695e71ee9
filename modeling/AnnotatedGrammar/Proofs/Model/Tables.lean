import Mathlib.Logic.Relation
import AnnotatedGrammar.Model.Draft
import AnnotatedGrammar.Proofs.Model.Names
import AnnotatedGrammar.Proofs.Syntax.Inside

/-!
# The tables of a model

What remains of a draft in the model is its tables. While rules are analyzed the tables change in a
few ways only: each is a step here, with everything that is known when it is taken. What every step
preserves therefore holds of the tables of every model.
-/

namespace AnnotatedGrammar

/-- The part of a draft that becomes the model. -/
structure Tables where
  progress : Array RuleProgress
  classes : Array ClassModel
  fields : Array FieldModel
  nodeValues : NodeTable (Option Value)
  nodeFields : NodeTable FieldId
  nodeClasses : NodeTable ClassId
  typeClaims : Array TypeClaim

/-- The part of a draft that becomes the model. -/
def Draft.tables (d : Draft) : Tables where
  progress := d.progress
  classes := d.classes.map (·.model)
  fields := d.fields.map (·.model)
  nodeValues := d.nodeValues
  nodeFields := d.nodeFields
  nodeClasses := d.nodeClasses
  typeClaims := d.typeClaims

namespace Scope

/-- An expression occurs in a rule body. -/
def Occurs (sc : Scope) (e : Expr) : Prop := ∃ rule ∈ sc.rules, e ∈ rule.body.preorder

/-- A number is that of an expression in a rule body. -/
def HasNode (sc : Scope) (id : NodeId) : Prop := ∃ e, sc.Occurs e ∧ e.id = id

/-- What a class was made for is in the grammar. -/
def HasOrigin (sc : Scope) : ClassOrigin → Prop
  | .rule r => r < sc.rules.size
  | .node id | .synthesized id => sc.HasNode id

theorem Occurs.hasNode {sc : Scope} {e : Expr} (h : sc.Occurs e) : sc.HasNode e.id := ⟨e, h, rfl⟩

end Scope

theorem getElem?_modify_eq_some {α : Type} {xs : Array α} {i j : Nat} {f : α → α} {b : α} :
    (xs.modify i f)[j]? = some b ↔ ∃ a, xs[j]? = some a ∧ b = if i = j then f a else a := by
  rw [Array.getElem?_modify]
  split <;> simp [eq_comm]

theorem getElem?_push_eq_some {α : Type} {xs : Array α} {a b : α} {j : Nat} :
    (xs.push a)[j]? = some b ↔ j = xs.size ∧ b = a ∨ xs[j]? = some b := by
  rw [Array.getElem?_push]
  split
  · rename_i h
    subst h
    simp [eq_comm]
  · rename_i h
    simp [h]

/-- What holds of every entry of an array, and of the changed entry, holds after the change. -/
theorem forall_modify {α : Type} {xs : Array α} {i : Nat} {f : α → α} {P : Nat → α → Prop}
    (h : ∀ (j : Nat) a, xs[j]? = some a → P j a)
    (hf : ∀ a, xs[i]? = some a → P i (f a)) (j : Nat) (b : α)
    (hb : (xs.modify i f)[j]? = some b) : P j b := by
  obtain ⟨a, ha, rfl⟩ := getElem?_modify_eq_some.mp hb
  split
  · rename_i hij
    subst hij
    exact hf a ha
  · exact h j a ha

theorem forall_push {α : Type} {xs : Array α} {a : α} {P : Nat → α → Prop}
    (h : ∀ (j : Nat) b, xs[j]? = some b → P j b) (ha : P xs.size a) (j : Nat) (b : α)
    (hb : (xs.push a)[j]? = some b) : P j b := by
  rcases getElem?_push_eq_some.mp hb with ⟨rfl, rfl⟩ | hb
  · exact ha
  · exact h j b hb

namespace Tables

/-! ## Changes -/

/-- Adds a class. -/
def addClass (t : Tables) (cls : ClassModel) : Tables := { t with classes := t.classes.push cls }

/-- Gives a class another name. -/
def rename (t : Tables) (c : ClassId) (name : String) : Tables :=
  { t with classes := t.classes.modify c fun cls => { cls with name } }

/-- Makes a class derive from a base. -/
def setBase (t : Tables) (c base : ClassId) : Tables :=
  { t with classes := t.classes.modify c fun cls => { cls with base := some base } }

/-- Adds a field to the table and to its owner. -/
def addField (t : Tables) (fld : FieldModel) : Tables :=
  { t with
    fields := t.fields.push fld
    classes := t.classes.modify fld.owner fun cls =>
      { cls with fields := cls.fields ++ [t.fields.size] } }

/-- Records that an expression fills a field. -/
def fill (t : Tables) (f : FieldId) (node : NodeId) : Tables :=
  { t with
    fields := t.fields.modify f fun fld => { fld with nodes := fld.nodes ++ [node] }
    nodeFields := t.nodeFields.insert node f }

/-- Changes the cardinality of a field. -/
def widen (t : Tables) (f : FieldId) (k : Cardinality → Cardinality) : Tables :=
  { t with
    fields := t.fields.modify f fun fld => { fld with cardinality := k fld.cardinality } }

/-- Gives a class its key. -/
def setKey (t : Tables) (c : ClassId) (f : FieldId) : Tables :=
  { t with classes := t.classes.modify c fun cls => { cls with key := some f } }

/-- Changes the type of a field. -/
def retype (t : Tables) (f : FieldId) (element : ElementType) : Tables :=
  { t with fields := t.fields.modify f fun fld => { fld with element } }

/-- Adds a variant to a class. -/
def addVariant (t : Tables) (c : ClassId) (v : Variant) : Tables :=
  { t with
    classes := t.classes.modify c fun cls => { cls with variants := cls.variants ++ [v] } }

/-! ## Steps -/

/-- A class of some kind is in the table. -/
def HasKind (t : Tables) (c : ClassId) (kind : ClassKind) : Prop :=
  ∃ cls, t.classes[c]? = some cls ∧ cls.kind = kind

/-- The class of a type, if it is one, is in the table. -/
def Knows (t : Tables) : ElementType → Prop
  | .primitive _ => True
  | .instance c => c < t.classes.size

/-- The type of a value, if there is one, is known. -/
def Holds (t : Tables) (v : Option Value) : Prop := ∀ w, v = some w → t.Knows w.element

/-- What is known about a class when it is made, apart from whether its name is taken. -/
structure NewClass (sc : Scope) (t : Tables) (cls : ClassModel) : Prop where
  id_eq : cls.id = t.classes.size
  name : Naming.IsClassName cls.name
  base_eq : cls.base = none
  fields_eq : cls.fields = []
  variants_eq : cls.variants = []
  key_eq : cls.key = none
  origin : sc.HasOrigin cls.origin

/-- What is known about a field when it is made for an expression. -/
structure NewField (sc : Scope) (t : Tables) (fld : FieldModel) (node : NodeId) : Prop where
  id_eq : fld.id = t.fields.size
  nodes_eq : fld.nodes = [node]
  node : sc.HasNode node
  element : t.Knows fld.element
  name : Naming.IsFieldName fld.name
  fresh : ∀ cls, t.classes[fld.owner]? = some cls → ∀ f ∈ cls.fields, ∀ other,
    t.fields[f]? = some other → other.name ≠ fld.name

/-- What is known about the tag of a variant when it is chosen. -/
structure NewTag (t : Tables) (c : ClassId) (tag : String) : Prop where
  name : Naming.IsTag tag
  fresh : ∀ cls, t.classes[c]? = some cls → ∀ v ∈ cls.variants, v.tag ≠ tag

/-- A tagged class gets the variant of a branch. -/
inductive VariantStep (sc : Scope) (c : ClassId) (node : NodeId) (t : Tables) : Tables → Prop
  | plain {tag : String} (htag : t.NewTag c tag) (hnode : sc.HasNode node) :
    VariantStep sc c node t (t.addVariant c ⟨tag, node, none⟩)
  | payload {tag : String} {fld : FieldModel} (htag : t.NewTag c tag)
    (hfield : t.NewField sc fld node) (howner : fld.owner = c)
    (hcardinality : fld.cardinality ≠ .scalar) :
    VariantStep sc c node t ((t.addField fld).addVariant c ⟨tag, node, some t.fields.size⟩)

/-- A tagged class gets the variants of branches, one after another. -/
inductive VariantSteps (sc : Scope) (c : ClassId) : List NodeId → Tables → Tables → Prop
  | nil (t : Tables) : VariantSteps sc c [] t t
  | cons {node : NodeId} {rest : List NodeId} {t t₁ t' : Tables}
    (hstep : VariantStep sc c node t t₁)
    (hrest : VariantSteps sc c rest t₁ t') : VariantSteps sc c (node :: rest) t t'

/-- A step of the analysis. -/
inductive Step (sc : Scope) (t : Tables) : Tables → Prop
  | claims {claims : Array TypeClaim} (h : ∀ claim ∈ claims, claim ∈ t.typeClaims ∨
      sc.HasNode claim.node ∧ t.Knows claim.value.element) :
    Step sc t { t with typeClaims := claims }
  | value {id : NodeId} {v : Option Value} (hnode : sc.HasNode id) (hv : t.Holds v) :
    Step sc t { t with nodeValues := t.nodeValues.insert id v }
  | nodeClass {id : NodeId} {c : ClassId} (hnode : sc.HasNode id) (hc : c < t.classes.size) :
    Step sc t { t with nodeClasses := t.nodeClasses.insert id c }
  | progress {r : RuleId} {p : RuleProgress} (h : ∀ v, p = .done v → t.Holds v) :
    Step sc t { t with progress := t.progress.setIfInBounds r p }
  | newClass {cls : ClassModel} (h : t.NewClass sc cls)
    (hfresh : ∀ other ∈ t.classes, other.name ≠ cls.name) : Step sc t (t.addClass cls)
  /-- The new class takes the name of another one. -/
  | displace {c : ClassId} {other cls : ClassModel} {free : String} (h : t.NewClass sc cls)
    (hother : t.classes[c]? = some other) (hname : other.name = cls.name)
    (hfree : Naming.IsClassName free) (hfresh : ∀ other ∈ t.classes, other.name ≠ free) :
    Step sc t ((t.rename c free).addClass cls)
  | base {c base : ClassId} (hbase : t.HasKind base .abstract) : Step sc t (t.setBase c base)
  | newField {fld : FieldModel} {node : NodeId} (howner : t.HasKind fld.owner .concrete)
    (h : t.NewField sc fld node) :
    Step sc t { t.addField fld with nodeFields := t.nodeFields.insert node t.fields.size }
  | fill {f : FieldId} {node : NodeId} (hf : f < t.fields.size) (hnode : sc.HasNode node) :
    Step sc t (t.fill f node)
  | widen {f : FieldId} {k : Cardinality → Cardinality} (h : ∀ fld, t.fields[f]? = some fld →
      fld.cardinality.rank ≤ (k fld.cardinality).rank) : Step sc t (t.widen f k)
  | variants {c : ClassId} {info : NodeInfo} {branches : List Expr} {t' : Tables}
    (hoccurs : sc.Occurs (.alternation info branches)) (htagged : t.HasKind c .tagged)
    (hempty : ∀ cls, t.classes[c]? = some cls → cls.variants = [])
    (h : VariantSteps sc c (branches.map (·.id)) t t') : Step sc t t'

/-- A step of the checks that come after the analysis. -/
inductive Check (sc : Scope) (t : Tables) : Tables → Prop
  | key {c : ClassId} {f : FieldId} {fld : FieldModel}
    (hf : ∀ cls, t.classes[c]? = some cls → f ∈ cls.fields) (hfld : t.fields[f]? = some fld)
    (hscalar : fld.cardinality = .scalar) : Check sc t (t.setKey c f)
  | value {id : NodeId} {v : Option Value} (hnode : sc.HasNode id) (hv : t.Holds v) :
    Check sc t { t with nodeValues := t.nodeValues.insert id v }
  | retype {f : FieldId} {element : ElementType} (h : t.Knows element) :
    Check sc t (t.retype f element)

/-- Steps one after another. -/
def Steps (sc : Scope) : Tables → Tables → Prop := Relation.ReflTransGen (Step sc)

namespace Steps

variable {sc : Scope} {t t' t'' : Tables}

theorem refl (sc : Scope) (t : Tables) : Steps sc t t := Relation.ReflTransGen.refl

theorem one (h : Step sc t t') : Steps sc t t' := .single h

theorem trans (h : Steps sc t t') (h' : Steps sc t' t'') : Steps sc t t'' :=
  Relation.ReflTransGen.trans h h'

/-- What every step preserves holds after any number of them. -/
theorem preserves {P : Tables → Prop} (hstep : ∀ t t', Step sc t t' → P t → P t')
    (h : Steps sc t t') (ht : P t) : P t' := by
  induction h with
  | refl => exact ht
  | tail _ hlast ih => exact hstep _ _ hlast ih

end Steps

/-- Steps of the checks one after another. -/
def Checks (sc : Scope) : Tables → Tables → Prop := Relation.ReflTransGen (Check sc)

namespace Checks

variable {sc : Scope} {t t' t'' : Tables}

theorem refl (sc : Scope) (t : Tables) : Checks sc t t := Relation.ReflTransGen.refl

theorem one (h : Check sc t t') : Checks sc t t' := .single h

theorem trans (h : Checks sc t t') (h' : Checks sc t' t'') : Checks sc t t'' :=
  Relation.ReflTransGen.trans h h'

/-- What every check preserves holds after any number of them. -/
theorem preserves {P : Tables → Prop} (hcheck : ∀ t t', Check sc t t' → P t → P t')
    (h : Checks sc t t') (ht : P t) : P t' := by
  induction h with
  | refl => exact ht
  | tail _ hlast ih => exact hcheck _ _ hlast ih

end Checks

/-! ## Growth -/

/-- Classes keep their kind, and fields stay. -/
structure Grows (t t' : Tables) : Prop where
  kind : ∀ c kind, t.HasKind c kind → t'.HasKind c kind
  fields : t.fields.size ≤ t'.fields.size

theorem lt_iff_hasKind {t : Tables} {c : ClassId} :
    c < t.classes.size ↔ ∃ kind, t.HasKind c kind := by
  constructor
  · intro hc
    exact ⟨_, _, Array.getElem?_eq_getElem hc, rfl⟩
  · rintro ⟨kind, cls, hcls, -⟩
    exact (Array.getElem?_eq_some_iff.mp hcls).1

theorem HasKind.lt {t : Tables} {c : ClassId} {kind : ClassKind} (h : t.HasKind c kind) :
    c < t.classes.size :=
  lt_iff_hasKind.mpr ⟨kind, h⟩

theorem HasKind.eq {t : Tables} {c : ClassId} {kind kind' : ClassKind} (h : t.HasKind c kind)
    (h' : t.HasKind c kind') : kind = kind' := by
  obtain ⟨cls, hcls, rfl⟩ := h
  obtain ⟨cls', hcls', rfl⟩ := h'
  rw [Option.some.inj (hcls.symm.trans hcls')]

theorem HasKind.eq_kind {t : Tables} {c : ClassId} {kind : ClassKind} (h : t.HasKind c kind)
    {cls : ClassModel} (hcls : t.classes[c]? = some cls) : cls.kind = kind :=
  HasKind.eq ⟨cls, hcls, rfl⟩ h

namespace Grows

variable {t t' t'' : Tables}

theorem refl (t : Tables) : Grows t t := ⟨fun _ _ h => h, Nat.le_refl _⟩

theorem trans (h : Grows t t') (h' : Grows t' t'') : Grows t t'' :=
  ⟨fun c kind hc => h'.kind c kind (h.kind c kind hc), Nat.le_trans h.fields h'.fields⟩

theorem lt (h : Grows t t') {c : ClassId} (hc : c < t.classes.size) : c < t'.classes.size := by
  obtain ⟨kind, hkind⟩ := lt_iff_hasKind.mp hc
  exact (h.kind c kind hkind).lt

theorem knows (h : Grows t t') {element : ElementType} (helement : t.Knows element) :
    t'.Knows element := by
  cases element with
  | primitive => trivial
  | «instance» c => exact h.lt helement

theorem holds (h : Grows t t') {v : Option Value} (hv : t.Holds v) : t'.Holds v :=
  fun w hw => h.knows (hv w hw)

/-- A change of the tables that leaves the kinds of classes and the number of fields alone. -/
theorem of_modify {c : ClassId} {f : ClassModel → ClassModel}
    (hclasses : t'.classes = t.classes.modify c f) (hf : ∀ cls, (f cls).kind = cls.kind)
    (hfields : t.fields.size ≤ t'.fields.size) :
    Grows t t' := by
  refine ⟨?_, hfields⟩
  rintro c' kind ⟨cls, hcls, rfl⟩
  unfold HasKind
  rw [hclasses]
  refine ⟨_, getElem?_modify_eq_some.mpr ⟨cls, hcls, rfl⟩, ?_⟩
  split
  · exact hf cls
  · rfl

theorem of_classes_eq (hclasses : t'.classes = t.classes)
    (hfields : t.fields.size ≤ t'.fields.size) :
    Grows t t' := by
  refine ⟨fun c kind hc => ?_, hfields⟩
  unfold HasKind at hc ⊢
  rwa [hclasses]

theorem addClass (t : Tables) (cls : ClassModel) : Grows t (t.addClass cls) := by
  refine ⟨?_, Nat.le_refl _⟩
  rintro c kind ⟨cls, hcls, rfl⟩
  exact ⟨cls, getElem?_push_eq_some.mpr (.inr hcls), rfl⟩

theorem rename (t : Tables) (c : ClassId) (name : String) : Grows t (t.rename c name) :=
  .of_modify (f := fun cls => { cls with name }) rfl (fun _ => rfl) (Nat.le_refl _)

theorem setBase (t : Tables) (c base : ClassId) : Grows t (t.setBase c base) :=
  .of_modify (f := fun cls => { cls with base := some base }) rfl (fun _ => rfl) (Nat.le_refl _)

theorem addField (t : Tables) (fld : FieldModel) : Grows t (t.addField fld) :=
  .of_modify (f := fun cls => { cls with fields := cls.fields ++ [t.fields.size] }) rfl
    (fun _ => rfl) (by simp [Tables.addField])

theorem addVariant (t : Tables) (c : ClassId) (v : Variant) : Grows t (t.addVariant c v) :=
  .of_modify (f := fun cls => { cls with variants := cls.variants ++ [v] }) rfl (fun _ => rfl)
    (Nat.le_refl _)

theorem setKey (t : Tables) (c : ClassId) (f : FieldId) : Grows t (t.setKey c f) :=
  .of_modify (f := fun cls => { cls with key := some f }) rfl (fun _ => rfl) (Nat.le_refl _)

end Grows

theorem VariantStep.grows {sc : Scope} {c : ClassId} {node : NodeId} {t t' : Tables}
    (h : VariantStep sc c node t t') : Grows t t' := by
  cases h with
  | plain => exact .addVariant t c _
  | payload => exact (Grows.addField t _).trans (.addVariant _ c _)

theorem VariantSteps.grows {sc : Scope} {c : ClassId} {nodes : List NodeId} {t t' : Tables}
    (h : VariantSteps sc c nodes t t') : Grows t t' := by
  induction h with
  | nil t => exact .refl t
  | cons hstep _ ih => exact hstep.grows.trans ih

theorem Step.grows {sc : Scope} {t t' : Tables} (h : Step sc t t') : Grows t t' := by
  cases h with
  | claims | value | nodeClass | progress => exact .of_classes_eq rfl (Nat.le_refl _)
  | newClass => exact .addClass t _
  | displace => exact (Grows.rename t _ _).trans (.addClass _ _)
  | @base c base => exact .setBase t c base
  | newField => exact (Grows.addField t _).trans (.of_classes_eq rfl (Nat.le_refl _))
  | fill | widen => exact .of_classes_eq rfl (by simp [Tables.fill, Tables.widen])
  | variants _ _ _ h => exact h.grows

theorem Steps.grows {sc : Scope} {t t' : Tables} (h : Steps sc t t') : Grows t t' := by
  induction h with
  | refl => exact .refl t
  | tail _ hlast ih => exact ih.trans hlast.grows

end Tables
end AnnotatedGrammar
