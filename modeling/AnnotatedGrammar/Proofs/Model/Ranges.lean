import AnnotatedGrammar.Proofs.Model.Tables

/-!
# Every reference is in range

Whatever the tables refer to is there: classes and fields carry their index, and every index that
stands anywhere belongs to an entry. Steps only add entries, so that what is in range stays so.
-/

namespace AnnotatedGrammar

namespace Tables

/-- Whatever a class refers to is there. -/
structure ClassInRange (sc : Scope) (t : Tables) (c : ClassId) (cls : ClassModel) : Prop where
  id_eq : cls.id = c
  base : ∀ b, cls.base = some b → t.HasKind b .abstract
  fields : ∀ f ∈ cls.fields, f < t.fields.size
  nodes : ∀ v ∈ cls.variants, sc.HasNode v.node
  payloads : ∀ v ∈ cls.variants, ∀ f, v.payload = some f → f < t.fields.size
  origin : sc.HasOrigin cls.origin

/-- Whatever a field refers to is there. -/
structure FieldInRange (sc : Scope) (t : Tables) (f : FieldId) (fld : FieldModel) : Prop where
  id_eq : fld.id = f
  owner : fld.owner < t.classes.size
  element : t.Knows fld.element
  nodes : ∀ id ∈ fld.nodes, sc.HasNode id

/-- Whatever the tables refer to is there. -/
structure InRange (sc : Scope) (t : Tables) : Prop where
  classes : ∀ (c : ClassId) cls, t.classes[c]? = some cls → ClassInRange sc t c cls
  fields : ∀ (f : FieldId) fld, t.fields[f]? = some fld → FieldInRange sc t f fld
  values : ∀ id v, t.nodeValues.get? id = some v → sc.HasNode id ∧ t.Holds v
  nodeFields : ∀ id f, t.nodeFields.get? id = some f → sc.HasNode id ∧ f < t.fields.size
  nodeClasses : ∀ id c, t.nodeClasses.get? id = some c → sc.HasNode id ∧ c < t.classes.size
  progress : ∀ (r : RuleId) v, t.progress[r]? = some (.done v) → t.Holds v
  claims : ∀ claim ∈ t.typeClaims, sc.HasNode claim.node ∧ t.Knows claim.value.element

variable {sc : Scope} {t t' : Tables} {c : ClassId} {f : FieldId} {node : NodeId}

theorem ClassInRange.mono {cls : ClassModel} (h : ClassInRange sc t c cls) (hgrows : Grows t t') :
    ClassInRange sc t' c cls where
  id_eq := h.id_eq
  base b hb := hgrows.kind b _ (h.base b hb)
  fields f hf := Nat.lt_of_lt_of_le (h.fields f hf) hgrows.fields
  nodes := h.nodes
  payloads v hv f hf := Nat.lt_of_lt_of_le (h.payloads v hv f hf) hgrows.fields
  origin := h.origin

theorem FieldInRange.mono {fld : FieldModel} (h : FieldInRange sc t f fld) (hgrows : Grows t t') :
    FieldInRange sc t' f fld where
  id_eq := h.id_eq
  owner := hgrows.lt h.owner
  element := hgrows.knows h.element
  nodes := h.nodes

namespace InRange

/-- After a change of what is known about expressions and rules, only that is in question. -/
theorem of_kept (h : t.InRange sc) (hclasses : t'.classes = t.classes)
    (hfields : t'.fields = t.fields)
    (hvalues : ∀ id v, t'.nodeValues.get? id = some v → sc.HasNode id ∧ t.Holds v)
    (hnodeFields : ∀ id f, t'.nodeFields.get? id = some f → sc.HasNode id ∧ f < t.fields.size)
    (hnodeClasses : ∀ id c, t'.nodeClasses.get? id = some c →
      sc.HasNode id ∧ c < t.classes.size)
    (hprogress : ∀ (r : RuleId) v, t'.progress[r]? = some (.done v) → t.Holds v)
    (hclaims : ∀ claim ∈ t'.typeClaims, sc.HasNode claim.node ∧ t.Knows claim.value.element) :
    t'.InRange sc := by
  have hgrows : Grows t t' := .of_classes_eq hclasses (Nat.le_of_eq (by rw [hfields]))
  exact {
    classes := fun c cls hcls => (h.classes c cls (hclasses ▸ hcls)).mono hgrows
    fields := fun f fld hfld => (h.fields f fld (hfields ▸ hfld)).mono hgrows
    values := fun id v hv => ⟨(hvalues id v hv).1, hgrows.holds (hvalues id v hv).2⟩
    nodeFields := fun id f hf =>
      ⟨(hnodeFields id f hf).1, Nat.lt_of_lt_of_le (hnodeFields id f hf).2 hgrows.fields⟩
    nodeClasses := fun id c hc => ⟨(hnodeClasses id c hc).1, hgrows.lt (hnodeClasses id c hc).2⟩
    progress := fun r v hv => hgrows.holds (hprogress r v hv)
    claims := fun claim hclaim =>
      ⟨(hclaims claim hclaim).1, hgrows.knows (hclaims claim hclaim).2⟩ }

/-- After a change of classes and fields, only the changed entries are in question. -/
theorem update (h : t.InRange sc) (hgrows : Grows t t')
    (hclasses : ∀ (c : ClassId) cls, t'.classes[c]? = some cls → ClassInRange sc t' c cls)
    (hfields : ∀ (f : FieldId) fld, t'.fields[f]? = some fld → FieldInRange sc t' f fld)
    (hvalues : t'.nodeValues = t.nodeValues) (hnodeFields : t'.nodeFields = t.nodeFields)
    (hnodeClasses : t'.nodeClasses = t.nodeClasses) (hprogress : t'.progress = t.progress)
    (hclaims : t'.typeClaims = t.typeClaims) : t'.InRange sc where
  classes := hclasses
  fields := hfields
  values id v hv := by
    rw [hvalues] at hv
    exact ⟨(h.values id v hv).1, hgrows.holds (h.values id v hv).2⟩
  nodeFields id f hf := by
    rw [hnodeFields] at hf
    exact ⟨(h.nodeFields id f hf).1, Nat.lt_of_lt_of_le (h.nodeFields id f hf).2 hgrows.fields⟩
  nodeClasses id c hc := by
    rw [hnodeClasses] at hc
    exact ⟨(h.nodeClasses id c hc).1, hgrows.lt (h.nodeClasses id c hc).2⟩
  progress r v hv := by
    rw [hprogress] at hv
    exact hgrows.holds (h.progress r v hv)
  claims claim hclaim := by
    rw [hclaims] at hclaim
    exact ⟨(h.claims claim hclaim).1, hgrows.knows (h.claims claim hclaim).2⟩

/-- A change of one class. -/
theorem modifyClass (h : t.InRange sc) {g : ClassModel → ClassModel}
    (hgrows : Grows t { t with classes := t.classes.modify c g })
    (hg : ∀ cls, ClassInRange sc t c cls → ClassInRange sc t c (g cls)) :
    InRange sc { t with classes := t.classes.modify c g } :=
  h.update hgrows
    (forall_modify (fun c cls hcls => (h.classes c cls hcls).mono hgrows)
      fun cls hcls => (hg cls (h.classes c cls hcls)).mono hgrows)
    (fun f fld hfld => (h.fields f fld hfld).mono hgrows) rfl rfl rfl rfl rfl

/-- A change of one field. -/
theorem modifyField (h : t.InRange sc) {g : FieldModel → FieldModel}
    (hg : ∀ fld, FieldInRange sc t f fld → FieldInRange sc t f (g fld)) :
    InRange sc { t with fields := t.fields.modify f g } :=
  have hgrows : Grows t { t with fields := t.fields.modify f g } :=
    .of_classes_eq rfl (by simp)
  h.update hgrows (fun c cls hcls => (h.classes c cls hcls).mono hgrows)
    (forall_modify (fun f fld hfld => (h.fields f fld hfld).mono hgrows)
      fun fld hfld => (hg fld (h.fields f fld hfld)).mono hgrows)
    rfl rfl rfl rfl rfl

theorem addClass (h : t.InRange sc) {cls : ClassModel} (hnew : t.NewClass sc cls) :
    (t.addClass cls).InRange sc := by
  have hgrows := Grows.addClass t cls
  refine h.update hgrows (forall_push (fun c cls hcls => (h.classes c cls hcls).mono hgrows) ?_)
    (fun f fld hfld => (h.fields f fld hfld).mono hgrows) rfl rfl rfl rfl rfl
  exact ⟨hnew.id_eq, by simp [hnew.base_eq], by simp [hnew.fields_eq], by simp [hnew.variants_eq],
    by simp [hnew.variants_eq], hnew.origin⟩

theorem rename (h : t.InRange sc) (c : ClassId) (name : String) : (t.rename c name).InRange sc :=
  h.modifyClass (.rename t c name) fun _ hcls =>
    ⟨hcls.id_eq, hcls.base, hcls.fields, hcls.nodes, hcls.payloads, hcls.origin⟩

theorem setBase (h : t.InRange sc) (c : ClassId) {base : ClassId}
    (hbase : t.HasKind base .abstract) : (t.setBase c base).InRange sc := by
  refine h.modifyClass (.setBase t c base) fun _ hcls =>
    ⟨hcls.id_eq, fun b hb => ?_, hcls.fields, hcls.nodes, hcls.payloads, hcls.origin⟩
  rw [← Option.some.inj hb]
  exact hbase

theorem addField (h : t.InRange sc) {fld : FieldModel} (howner : fld.owner < t.classes.size)
    (hnew : t.NewField sc fld node) : (t.addField fld).InRange sc := by
  have hgrows := Grows.addField t fld
  have hsize : t.fields.size < (t.addField fld).fields.size := by
    simp [Tables.addField]
  refine h.update hgrows
    (forall_modify (fun c cls hcls => (h.classes c cls hcls).mono hgrows) fun cls hcls => ?_)
    (forall_push (fun f fld hfld => (h.fields f fld hfld).mono hgrows) ?_)
    rfl rfl rfl rfl rfl
  · have hold := (h.classes _ cls hcls).mono hgrows
    refine ⟨hold.id_eq, hold.base, fun f hf => ?_, hold.nodes, hold.payloads, hold.origin⟩
    rcases List.mem_append.mp hf with hf | hf
    · exact hold.fields f hf
    · rw [List.mem_singleton.mp hf]
      exact hsize
  · refine ⟨hnew.id_eq, hgrows.lt howner, hgrows.knows hnew.element, fun id hid => ?_⟩
    rw [hnew.nodes_eq, List.mem_singleton] at hid
    rw [hid]
    exact hnew.node

theorem addVariant (h : t.InRange sc) {v : Variant} (hnode : sc.HasNode v.node)
    (hpayload : ∀ f, v.payload = some f → f < t.fields.size) : (t.addVariant c v).InRange sc := by
  refine h.modifyClass (.addVariant t c v) fun cls hcls =>
    ⟨hcls.id_eq, hcls.base, hcls.fields, fun v' hv' => ?_, fun v' hv' => ?_, hcls.origin⟩
  · rcases List.mem_append.mp hv' with hv' | hv'
    · exact hcls.nodes v' hv'
    · rw [List.mem_singleton.mp hv']
      exact hnode
  · rcases List.mem_append.mp hv' with hv' | hv'
    · exact hcls.payloads v' hv'
    · rw [List.mem_singleton.mp hv']
      exact hpayload

theorem insertValue (h : t.InRange sc) {v : Option Value} (hnode : sc.HasNode node)
    (hv : t.Holds v) : InRange sc { t with nodeValues := t.nodeValues.insert node v } := by
  refine h.of_kept rfl rfl (fun id v' hv' => ?_) h.nodeFields h.nodeClasses h.progress h.claims
  rw [NodeTable.get?_insert] at hv'
  split at hv'
  · rename_i heq
    rw [← heq, ← Option.some.inj hv']
    exact ⟨hnode, hv⟩
  · exact h.values id v' hv'

theorem insertField (h : t.InRange sc) (hnode : sc.HasNode node) (hf : f < t.fields.size) :
    InRange sc { t with nodeFields := t.nodeFields.insert node f } := by
  refine h.of_kept rfl rfl h.values (fun id f' hf' => ?_) h.nodeClasses h.progress h.claims
  rw [NodeTable.get?_insert] at hf'
  split at hf'
  · rename_i heq
    rw [← heq, ← Option.some.inj hf']
    exact ⟨hnode, hf⟩
  · exact h.nodeFields id f' hf'

theorem insertClass (h : t.InRange sc) (hnode : sc.HasNode node) (hc : c < t.classes.size) :
    InRange sc { t with nodeClasses := t.nodeClasses.insert node c } := by
  refine h.of_kept rfl rfl h.values h.nodeFields (fun id c' hc' => ?_) h.progress h.claims
  rw [NodeTable.get?_insert] at hc'
  split at hc'
  · rename_i heq
    rw [← heq, ← Option.some.inj hc']
    exact ⟨hnode, hc⟩
  · exact h.nodeClasses id c' hc'

theorem variantStep (h : t.InRange sc) (hc : c < t.classes.size)
    (hstep : VariantStep sc c node t t') : t'.InRange sc := by
  cases hstep with
  | plain _ hnode => exact h.addVariant hnode (by simp)
  | payload _ hfield howner _ =>
    subst howner
    refine (h.addField hc hfield).addVariant hfield.node fun f hf => ?_
    rw [← Option.some.inj hf]
    simp [Tables.addField]

theorem variantSteps {nodes : List NodeId} (h : t.InRange sc) (hc : c < t.classes.size)
    (hsteps : VariantSteps sc c nodes t t') : t'.InRange sc := by
  induction hsteps with
  | nil => exact h
  | cons hstep _ ih => exact ih (h.variantStep hc hstep) (hstep.grows.lt hc)

theorem step (h : t.InRange sc) (hstep : Step sc t t') : t'.InRange sc := by
  cases hstep with
  | claims hclaims =>
    refine h.of_kept rfl rfl h.values h.nodeFields h.nodeClasses h.progress fun claim hclaim => ?_
    rcases hclaims claim hclaim with hclaim | hclaim
    · exact h.claims claim hclaim
    · exact hclaim
  | value hnode hv => exact h.insertValue hnode hv
  | nodeClass hnode hc => exact h.insertClass hnode hc
  | progress hp =>
    refine h.of_kept rfl rfl h.values h.nodeFields h.nodeClasses (fun r v hv => ?_) h.claims
    rw [Array.getElem?_setIfInBounds] at hv
    split at hv
    · split at hv
      · exact hp v (Option.some.inj hv)
      · cases hv
    · exact h.progress r v hv
  | newClass hnew => exact h.addClass hnew
  | displace hnew =>
    refine (h.rename _ _).addClass
      ⟨?_, hnew.name, hnew.base_eq, hnew.fields_eq, hnew.variants_eq, hnew.key_eq, hnew.origin⟩
    rw [hnew.id_eq]
    simp [Tables.rename]
  | base hbase => exact h.setBase _ hbase
  | newField howner hnew =>
    refine (h.addField howner.lt hnew).insertField hnew.node ?_
    simp [Tables.addField]
  | @fill f node hf hnode =>
    have hfilled : InRange sc { t with
        fields := t.fields.modify f fun fld => { fld with nodes := fld.nodes ++ [node] } } := by
      refine h.modifyField fun fld hfld => ⟨hfld.id_eq, hfld.owner, hfld.element, fun id hid => ?_⟩
      rcases List.mem_append.mp hid with hid | hid
      · exact hfld.nodes id hid
      · rw [List.mem_singleton.mp hid]
        exact hnode
    exact hfilled.insertField hnode (by simpa using hf)
  | widen => exact h.modifyField fun fld hfld => ⟨hfld.id_eq, hfld.owner, hfld.element, hfld.nodes⟩
  | variants _ htagged _ hsteps => exact h.variantSteps htagged.lt hsteps

/-- What is in range stays so. -/
theorem steps (h : t.InRange sc) (hsteps : Steps sc t t') : t'.InRange sc :=
  hsteps.preserves (fun _ _ hstep ht => ht.step hstep) h

theorem check (h : t.InRange sc) (hcheck : Check sc t t') : t'.InRange sc := by
  cases hcheck with
  | key =>
    exact h.modifyClass (.setKey t _ _) fun _ hcls =>
      ⟨hcls.id_eq, hcls.base, hcls.fields, hcls.nodes, hcls.payloads, hcls.origin⟩
  | value hnode hv => exact h.insertValue hnode hv
  | retype helement =>
    exact h.modifyField fun fld hfld => ⟨hfld.id_eq, hfld.owner, helement, hfld.nodes⟩

end InRange

end Tables
end AnnotatedGrammar
