import AnnotatedGrammar.Proofs.Analysis.Operations
import AnnotatedGrammar.Proofs.Unplaced.Checks

/-!
# Building without places

A draft keeps places only to show them. Every operation on a draft without places does what it does
on the draft, apart from the places.
-/

namespace AnnotatedGrammar

/-- The class without its place. -/
def ClassModel.unplaced (c : ClassModel) : ClassModel := { c with span := default }

/-- The class being built, without its place. -/
def ClassDraft.unplaced (c : ClassDraft) : ClassDraft := { c with model := c.model.unplaced }

/-- The declared type without its place. -/
def TypeClaim.unplaced (claim : TypeClaim) : TypeClaim := { claim with span := default }

namespace Draft

/-- The draft without places. -/
def unplaced (d : Draft) : Draft :=
  { d with
    errors := d.errors.map SemanticError.unplaced
    classes := d.classes.map ClassDraft.unplaced
    typeClaims := d.typeClaims.map TypeClaim.unplaced }

theorem unplaced_empty (ruleCount nodeCount : Nat) (errors : List SemanticError) :
    (empty ruleCount nodeCount errors).unplaced =
      empty ruleCount nodeCount (errors.map SemanticError.unplaced) := by
  simp only [unplaced, empty, List.map_toArray, List.map_nil]

variable (d : Draft)

@[simp] theorem progress_unplaced : d.unplaced.progress = d.progress := rfl

@[simp] theorem classes_unplaced : d.unplaced.classes = d.classes.map ClassDraft.unplaced := rfl

@[simp] theorem fields_unplaced : d.unplaced.fields = d.fields := rfl

@[simp] theorem nodeFields_unplaced : d.unplaced.nodeFields = d.nodeFields := rfl

@[simp] theorem nodeClasses_unplaced : d.unplaced.nodeClasses = d.nodeClasses := rfl

theorem getD_classes_unplaced (c : ClassId) :
    d.unplaced.classes.getD c default = (d.classes.getD c default).unplaced := by
  simp only [classes_unplaced, Array.getD_eq_getD_getElem?, Array.getElem?_map]
  cases d.classes[c]? <;> rfl

@[simp] theorem classAt_unplaced (c : ClassId) : d.unplaced.classAt c = (d.classAt c).unplaced := by
  rw [classAt, getD_classes_unplaced, classAt]
  rfl

@[simp] theorem fieldAt_unplaced (f : FieldId) : d.unplaced.fieldAt f = d.fieldAt f := rfl

@[simp] theorem branchesOf_unplaced (f : FieldId) : d.unplaced.branchesOf f = d.branchesOf f := rfl

@[simp] theorem fieldsOf_unplaced (c : ClassId) : d.unplaced.fieldsOf c = d.fieldsOf c := by
  rw [fieldsOf, classAt_unplaced, fieldsOf]
  rfl

@[simp] theorem elementName_unplaced (element : ElementType) :
    d.unplaced.elementName element = d.elementName element := by
  cases element with
  | primitive p => rfl
  | «instance» c =>
    rw [elementName, classAt_unplaced, elementName]
    rfl

theorem reaches_unplaced (ancestor : ClassId) (steps : Nat) (c : ClassId) :
    d.unplaced.reaches ancestor steps c = d.reaches ancestor steps c := by
  induction steps generalizing c with
  | zero => rfl
  | succ steps ih =>
    have hbase : (d.classAt c).unplaced.base = (d.classAt c).base := rfl
    simp only [reaches, classAt_unplaced, hbase, ih]

@[simp] theorem isAncestor_unplaced (ancestor c : ClassId) :
    d.unplaced.isAncestor ancestor c = d.isAncestor ancestor c := by
  rw [isAncestor, reaches_unplaced, classes_unplaced, Array.size_map, isAncestor]

end Draft

namespace Build

/-- On a draft without places `m'` does what `m` does on the draft, apart from the places. -/
def IgnoresPlaces {α : Type} (m m' : Build α) : Prop :=
  ∀ d, m' d.unplaced = ((m d).1, (m d).2.unplaced)

namespace IgnoresPlaces

variable {α β : Type} {m m' : Build α} {f f' : α → Build β}

theorem pure (a : α) : IgnoresPlaces (Pure.pure a) (Pure.pure a) := fun _ => rfl

theorem bind (hm : IgnoresPlaces m m') (hf : ∀ a, IgnoresPlaces (f a) (f' a)) :
    IgnoresPlaces (m >>= f) (m' >>= f') := by
  intro d
  change f' (m' d.unplaced).1 (m' d.unplaced).2 = _
  rw [hm d]
  exact hf (m d).1 (m d).2

/-- What is read from the draft may be read without places. -/
theorem get_bind {f f' : Draft → Build β} (hf : ∀ d, IgnoresPlaces (f d) (f' d.unplaced)) :
    IgnoresPlaces (get >>= f) (get >>= f') := fun d => hf d d

theorem map (hm : IgnoresPlaces m m') (g : α → β) : IgnoresPlaces (g <$> m) (g <$> m') := by
  intro d
  change (g (m' d.unplaced).1, (m' d.unplaced).2) = _
  rw [hm d]
  rfl

theorem discard (hm : IgnoresPlaces m m') : IgnoresPlaces (discard m) (discard m') :=
  hm.map (Function.const α PUnit.unit)

theorem modify {g g' : Draft → Draft} (h : ∀ d, g' d.unplaced = (g d).unplaced) :
    IgnoresPlaces (modify g) (modify g') := by
  intro d
  exact congrArg (Prod.mk ()) (h d)

theorem ite {p : Prop} [Decidable p] {n n' : Build α} (hm : p → IgnoresPlaces m m')
    (hn : ¬p → IgnoresPlaces n n') :
    IgnoresPlaces (if p then m else n) (if p then m' else n') := by
  split
  · exact hm ‹_›
  · exact hn ‹_›

/-- A step that is taken on a condition, before the rest. -/
theorem guarded {p : Prop} [Decidable p] {step step' : Build PUnit}
    (hstep : IgnoresPlaces step step') (hm : IgnoresPlaces m m') :
    IgnoresPlaces (if p then step >>= fun _ => m else m)
      (if p then step' >>= fun _ => m' else m') :=
  .ite (fun _ => hstep.bind fun _ => hm) fun _ => hm

theorem forM {γ : Type} {g g' : γ → Build PUnit} (h : ∀ a, IgnoresPlaces (g a) (g' a))
    (as : List γ) : IgnoresPlaces (as.forM g) (as.forM g') := by
  induction as with
  | nil => exact pure _
  | cons a rest ih => exact (h a).bind fun _ => ih

theorem forIn {γ σ : Type} {g g' : γ → σ → Build (ForInStep σ)}
    (h : ∀ a s, IgnoresPlaces (g a s) (g' a s)) (as : List γ) (s : σ) :
    IgnoresPlaces (forIn as s g) (forIn as s g') := by
  induction as generalizing s with
  | nil => exact pure s
  | cons a rest ih =>
    simp only [List.forIn_cons]
    refine (h a s).bind fun step => ?_
    cases step with
    | done s => exact pure s
    | yield s => exact ih s

end IgnoresPlaces

/-! ## Operations -/

theorem fault_ignoresPlaces {what : SemanticFault} (h : what.unplaced = what) (span : Span) :
    IgnoresPlaces (fault what span) (fault what default) := by
  refine .modify fun d => ?_
  simp only [Draft.unplaced, Array.map_push, SemanticError.unplaced, h]

theorem updateClass_ignoresPlaces (c : ClassId) {f : ClassDraft → ClassDraft}
    (h : ∀ cls, f cls.unplaced = (f cls).unplaced) :
    IgnoresPlaces (updateClass c f) (updateClass c f) := by
  refine .modify fun d => ?_
  have hclasses : (d.classes.map ClassDraft.unplaced).modify c f =
      (d.classes.modify c f).map ClassDraft.unplaced := by
    refine Array.ext_getElem? fun i => ?_
    simp only [Array.getElem?_modify, Array.getElem?_map]
    split
    · cases d.classes[i]? with
      | none => rfl
      | some cls => exact congrArg some (h cls)
    · rfl
  simp only [Draft.unplaced, hclasses]

theorem updateField_ignoresPlaces (id : FieldId) (f : FieldDraft → FieldDraft) :
    IgnoresPlaces (updateField id f) (updateField id f) :=
  .modify fun _ => rfl

theorem recordValue_ignoresPlaces (node : NodeId) (value : Option Value) :
    IgnoresPlaces (recordValue node value) (recordValue node value) :=
  .modify fun _ => rfl

theorem recordClass_ignoresPlaces (node : NodeId) (c : ClassId) :
    IgnoresPlaces (recordClass node c) (recordClass node c) :=
  .modify fun _ => rfl

/-- A name is taken or free whatever the places are. -/
theorem claimClassName_ignoresPlaces (sc sc' : Scope) (hbegins : sc'.classPrefix = sc.classPrefix)
    (raw : String) (isNamed : Bool) (span : Span) :
    IgnoresPlaces (claimClassName sc raw isNamed span)
      (claimClassName sc' raw isNamed default) := by
  unfold claimClassName
  rw [hbegins]
  refine .get_bind fun d => ?_
  have hfind (wanted : String) : d.unplaced.classes.findIdx? (fun c => c.model.name == wanted) =
      d.classes.findIdx? fun c => c.model.name == wanted := by
    rw [Draft.classes_unplaced, Array.findIdx?_map]
    rfl
  have hany (name : String) : d.unplaced.classes.any (fun c => c.model.name == name) =
      d.classes.any fun c => c.model.name == name := by
    rw [Draft.classes_unplaced, Array.any_map]
    rfl
  have hsize : d.unplaced.classes.size = d.classes.size := Array.size_map
  simp only [hfind, hany, Draft.getD_classes_unplaced]
  rw [hsize]
  split
  · exact .pure _
  · next other _ =>
    refine .ite (fun _ => .ite (fun _ => ?_) fun _ => ?_) fun _ => .pure _
    · exact (fault_ignoresPlaces rfl span).bind fun _ => .pure _
    · exact .bind (updateClass_ignoresPlaces other fun _ => by rfl) fun _ => .pure _

theorem newClass_ignoresPlaces {sc sc' : Scope} (hbegins : sc'.classPrefix = sc.classPrefix)
    (hsummaries : sc'.summaries = sc.summaries) (raw : String) (isNamed : Bool) (kind : ClassKind)
    (origin : ClassOrigin) (span : Span) :
    IgnoresPlaces (newClass sc raw isNamed kind origin span)
      (newClass sc' raw isNamed kind origin default) := by
  have hname := claimClassName_ignoresPlaces sc sc' hbegins raw isNamed span
  unfold newClass
  refine .get_bind fun d => ?_
  have hsize : d.unplaced.classes.size = d.classes.size := Array.size_map
  dsimp only
  simp only [hsize, hsummaries]
  refine .guarded (fault_ignoresPlaces rfl span) (hname.bind fun name => ?_)
  refine IgnoresPlaces.bind (.modify fun d => ?_) fun _ => .pure _
  simp only [Draft.unplaced, Array.map_push]
  rfl

theorem setBase_ignoresPlaces (c base : ClassId) (span : Span) :
    IgnoresPlaces (setBase c base span) (setBase c base default) := by
  unfold setBase
  refine .get_bind fun d => ?_
  have hname (c : ClassId) : (d.unplaced.classAt c).name = (d.classAt c).name := by
    rw [Draft.classAt_unplaced]
    rfl
  have hbase : (d.unplaced.classAt c).base = (d.classAt c).base := by
    rw [Draft.classAt_unplaced]
    rfl
  simp only [hname, hbase]
  refine .ite (fun _ => fault_ignoresPlaces rfl span) fun _ => ?_
  split
  · exact updateClass_ignoresPlaces c fun _ => rfl
  · exact .ite (fun _ => .pure ()) fun _ => fault_ignoresPlaces rfl span

theorem pushField_ignoresPlaces (c : ClassId) (name : String) (sourceName : Option String)
    (element : ElementType) (cardinality : Cardinality) (span : Span) :
    IgnoresPlaces (pushField c name sourceName element cardinality span)
      (pushField c name sourceName element cardinality default) := by
  unfold pushField
  refine .get_bind fun d => ?_
  simp only [Draft.getD_classes_unplaced, Draft.fields_unplaced]
  refine .ite (fun _ => ?_) fun _ => ?_
  · refine .ite (fun _ => ?_) fun _ => .pure none
    refine .bind (updateClass_ignoresPlaces c fun _ => by rfl) fun _ => ?_
    exact (fault_ignoresPlaces rfl span).bind fun _ => .pure none
  · refine .bind (.modify fun d => by rfl) fun _ => ?_
    exact .bind (updateClass_ignoresPlaces c fun _ => by rfl) fun _ => .pure _

theorem freeFieldName_ignoresPlaces (c : ClassId) (base : String) :
    IgnoresPlaces (freeFieldName c base) (freeFieldName c base) := by
  unfold freeFieldName
  refine .get_bind fun d => ?_
  rw [Draft.fieldsOf_unplaced]
  exact .pure _

theorem namedField_ignoresPlaces (c : ClassId) (raw : String) (element : ElementType)
    (cardinality : Cardinality) (branch : Nat) (span : Span) :
    IgnoresPlaces (namedField c raw element cardinality branch span)
      (namedField c raw element cardinality branch default) := by
  unfold namedField
  refine .get_bind fun d => ?_
  have hname : (d.unplaced.classAt c).name = (d.classAt c).name := by
    rw [Draft.classAt_unplaced]
    rfl
  simp only [Draft.fieldsOf_unplaced, Draft.elementName_unplaced, Draft.branchesOf_unplaced, hname]
  split
  · exact .pure none
  split
  · exact pushField_ignoresPlaces c _ _ element cardinality span
  · next other _ =>
    refine .ite (fun _ => ?_) fun _ => .ite (fun _ => ?_) fun _ => .ite (fun _ => ?_) fun _ => ?_
    · exact (fault_ignoresPlaces rfl span).bind fun _ => .pure none
    · exact (fault_ignoresPlaces rfl span).bind fun _ => .pure none
    · refine .ite (fun _ => ?_) fun _ => ?_
      · exact (fault_ignoresPlaces rfl span).bind fun _ => .pure none
      · exact (updateField_ignoresPlaces other.id _).bind fun _ => .pure _
    · exact (updateField_ignoresPlaces other.id _).bind fun _ => .pure _

theorem countOccurrence_ignoresPlaces (c : ClassId) (branch : Nat) (base : String) :
    IgnoresPlaces (countOccurrence c branch base) (countOccurrence c branch base) := by
  unfold countOccurrence
  refine .get_bind fun d => ?_
  simp only [Draft.getD_classes_unplaced]
  exact .bind (updateClass_ignoresPlaces c fun _ => by rfl) fun _ => .pure _

theorem derivedField_ignoresPlaces (c : ClassId) (subject : String) (element : ElementType)
    (cardinality : Cardinality) (branch : Nat) (span : Span) :
    IgnoresPlaces (derivedField c subject element cardinality branch span)
      (derivedField c subject element cardinality branch default) := by
  unfold derivedField
  refine (countOccurrence_ignoresPlaces c branch _).bind fun count => .get_bind fun d => ?_
  simp only [Draft.fieldsOf_unplaced, Draft.branchesOf_unplaced]
  split
  · next field _ => exact (updateField_ignoresPlaces field.id _).bind fun _ => .pure _
  · exact (freeFieldName_ignoresPlaces c _).bind fun name =>
      pushField_ignoresPlaces c name none element cardinality span

theorem recordField_ignoresPlaces (node : NodeId) (field : FieldId) (branch : Nat) :
    IgnoresPlaces (recordField node field branch) (recordField node field branch) :=
  (updateField_ignoresPlaces field _).bind fun _ => .modify fun _ => rfl

theorem relaxPartial_ignoresPlaces (c : ClassId) (alternatives : Nat) :
    IgnoresPlaces (relaxPartial c alternatives) (relaxPartial c alternatives) := by
  unfold relaxPartial
  refine .get_bind fun d => ?_
  have hfields : (d.unplaced.classAt c).fields = (d.classAt c).fields := by
    rw [Draft.classAt_unplaced]
    rfl
  simp only [hfields, Draft.branchesOf_unplaced, Draft.fieldAt_unplaced]
  refine IgnoresPlaces.bind (.forIn (fun field _ => ?_) _ _) fun _ => .pure ()
  refine .ite (fun _ => ?_) fun _ => .pure _
  exact (updateField_ignoresPlaces field _).bind fun _ => .pure _

@[simp] theorem branchTag_unplaced (branch : Expr) (index : Nat) :
    branchTag branch.unplaced index = branchTag branch index := by
  simp only [branchTag, Expr.core_unplaced, Expr.markerValue?_unplaced, Expr.tagSource?_unplaced]

theorem addVariant_ignoresPlaces (c : ClassId) (branch : Expr) (index : Nat)
    (value : Option Value) :
    IgnoresPlaces (addVariant c branch index value) (addVariant c branch.unplaced index value) := by
  unfold addVariant
  refine .get_bind fun d => ?_
  have hvariants : (d.unplaced.classAt c).variants = (d.classAt c).variants := by
    rw [Draft.classAt_unplaced]
    rfl
  simp only [hvariants, branchTag_unplaced, Expr.id_unplaced, Expr.span_unplaced]
  split
  · exact .bind (.pure none) fun payload => updateClass_ignoresPlaces c fun _ => by rfl
  · next value =>
    refine (freeFieldName_ignoresPlaces c _).bind fun name => ?_
    refine (pushField_ignoresPlaces c name none value.element _ branch.span).bind fun field => ?_
    cases field with
    | none => exact .bind (.pure none) fun payload => updateClass_ignoresPlaces c fun _ => by rfl
    | some id =>
      refine (updateField_ignoresPlaces id _).bind fun _ => ?_
      exact .bind (.pure (some id)) fun payload => updateClass_ignoresPlaces c fun _ => by rfl

theorem addVariants_ignoresPlaces (c : ClassId) (index : Nat)
    (branches : List (Expr × Option Value)) :
    IgnoresPlaces (addVariants c index branches)
      (addVariants c index (branches.map fun branch => (branch.1.unplaced, branch.2))) := by
  induction branches generalizing index with
  | nil => exact .pure ()
  | cons branch rest ih =>
    exact (addVariant_ignoresPlaces c branch.1 index branch.2).bind fun _ => ih (index + 1)

end Build
end AnnotatedGrammar
