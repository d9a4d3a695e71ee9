import AnnotatedGrammar.Proofs.Analysis.Walk

/-!
# What a walk makes

Seen from afar, a walk through rule bodies makes classes and lets expressions fill fields of
classes. Everything else that it does is calm: no class is made, and no expression fills a field of
a class that has instances.
-/

namespace AnnotatedGrammar

namespace Draft

/-- An expression fills a field of a class that has instances. -/
structure Fills (d : Draft) (f : FieldId) (c : ClassId) (node : NodeId) : Prop where
  field_lt : f < d.fields.size
  class_lt : c < d.classes.size
  kind_eq : (d.classAt c).kind = .concrete
  owner_eq : (d.fieldAt f).owner = c
  mem : node ∈ (d.fieldAt f).nodes

/-- Without an error, no class was found to have too many fields. -/
def Unlimited (d : Draft) : Prop :=
  d.errors = #[] → ∀ c, (d.classes.getD c default).fieldLimitReported = false

/-- A run that leaves the fields of expressions alone; fields may get further expressions. -/
structure Retains (d d' : Draft) : Prop where
  unlimited : d.Unlimited → d'.Unlimited
  nodeFields_eq : d'.nodeFields = d.nodeFields
  nodes_sub : ∀ f < d.fields.size, (d.fieldAt f).nodes ⊆ (d'.fieldAt f).nodes
  fields_le : d.fields.size ≤ d'.fields.size

/-- A draft that comes later: what is there stays. -/
structure Onward (d d' : Draft) : Prop where
  errors_eq : d'.errors = #[] → d.errors = #[]
  wellFormed : d.WellFormed → d'.WellFormed
  unlimited : d.Unlimited → d'.Unlimited
  classes_le : d.classes.size ≤ d'.classes.size
  fields_le : d.fields.size ≤ d'.fields.size
  kind_eq : ∀ c < d.classes.size, (d'.classAt c).kind = (d.classAt c).kind
  origin_eq : ∀ c < d.classes.size, (d'.classAt c).origin = (d.classAt c).origin
  owner_eq : ∀ f < d.fields.size, (d'.fieldAt f).owner = (d.fieldAt f).owner
  nodes_sub : ∀ f < d.fields.size, (d.fieldAt f).nodes ⊆ (d'.fieldAt f).nodes

namespace Retains

variable {d d' d'' : Draft}

theorem refl (d : Draft) : d.Retains d :=
  ⟨fun h => h, rfl, fun _ _ => List.Subset.refl _, Nat.le_refl _⟩

theorem trans (h : d.Retains d') (h' : d'.Retains d'') : d.Retains d'' where
  unlimited hlimit := h'.unlimited (h.unlimited hlimit)
  nodeFields_eq := h'.nodeFields_eq.trans h.nodeFields_eq
  nodes_sub f hf :=
    List.Subset.trans (h.nodes_sub f hf) (h'.nodes_sub f (Nat.lt_of_lt_of_le hf h.fields_le))
  fields_le := Nat.le_trans h.fields_le h'.fields_le

theorem of_same (hclasses : d'.classes = d.classes) (hfields : d'.fields = d.fields)
    (hnodeFields : d'.nodeFields = d.nodeFields) (herrors : d'.errors = #[] → d.errors = #[]) :
    d.Retains d' := by
  refine ⟨fun hlimit hnone => ?_, hnodeFields, fun f _ => ?_, Nat.le_of_eq (by rw [hfields])⟩
  · rw [hclasses]
    exact hlimit (herrors hnone)
  · rw [fieldAt, fieldAt, hfields]
    exact List.Subset.refl _

end Retains

namespace Onward

variable {d d' d'' : Draft} {S : Cell → Prop}

theorem refl (d : Draft) : d.Onward d where
  errors_eq h := h
  wellFormed h := h
  unlimited h := h
  classes_le := Nat.le_refl _
  fields_le := Nat.le_refl _
  kind_eq _ _ := rfl
  origin_eq _ _ := rfl
  owner_eq _ _ := rfl
  nodes_sub _ _ := List.Subset.refl _

theorem trans (h : d.Onward d') (h' : d'.Onward d'') : d.Onward d'' where
  errors_eq herrors := h.errors_eq (h'.errors_eq herrors)
  wellFormed hwf := h'.wellFormed (h.wellFormed hwf)
  unlimited hlimit := h'.unlimited (h.unlimited hlimit)
  classes_le := Nat.le_trans h.classes_le h'.classes_le
  fields_le := Nat.le_trans h.fields_le h'.fields_le
  kind_eq c hc := (h'.kind_eq c (Nat.lt_of_lt_of_le hc h.classes_le)).trans (h.kind_eq c hc)
  origin_eq c hc := (h'.origin_eq c (Nat.lt_of_lt_of_le hc h.classes_le)).trans (h.origin_eq c hc)
  owner_eq f hf := (h'.owner_eq f (Nat.lt_of_lt_of_le hf h.fields_le)).trans (h.owner_eq f hf)
  nodes_sub f hf :=
    List.Subset.trans (h.nodes_sub f hf) (h'.nodes_sub f (Nat.lt_of_lt_of_le hf h.fields_le))

theorem of_quiet (hquiet : Quiet S d d') (hretains : d.Retains d') : d.Onward d' where
  errors_eq := hquiet.plain.errors_eq
  wellFormed := hquiet.plain.wellFormed
  unlimited := hretains.unlimited
  classes_le := hquiet.plain.classes_le
  fields_le := hretains.fields_le
  kind_eq := hquiet.plain.kind_eq
  origin_eq := hquiet.plain.origin_eq
  owner_eq := hquiet.plain.owner_eq
  nodes_sub := hretains.nodes_sub

end Onward

/-- Nothing is made that matters here. -/
structure Calm (d d' : Draft) : Prop extends d.Onward d' where
  progress_eq : d'.progress = d.progress
  classes_size : d'.classes.size = d.classes.size
  nodeFields_eq : d'.nodeFields = d.nodeFields
  fills_of : ∀ {f c node}, d'.Fills f c node → d.Fills f c node

/-- A class is made. -/
structure Opens (kind : ClassKind) (origin : ClassOrigin) (c : ClassId) (d d' : Draft) : Prop
    extends d.Onward d' where
  progress_eq : d'.progress = d.progress
  id_eq : c = d.classes.size
  classes_size : d'.classes.size = d.classes.size + 1
  kind_new : (d'.classAt c).kind = kind
  origin_new : (d'.classAt c).origin = origin
  nodeFields_eq : d'.nodeFields = d.nodeFields
  fills_of : ∀ {f c' node}, d'.Fills f c' node → d.Fills f c' node

/-- An expression comes to fill a field of a class. -/
structure Adds (f : FieldId) (c : ClassId) (node : NodeId) (d d' : Draft) : Prop
    extends d.Onward d' where
  progress_eq : d'.progress = d.progress
  classes_size : d'.classes.size = d.classes.size
  nodeFields_eq : d'.nodeFields = d.nodeFields.insert node f
  field_lt : f < d'.fields.size
  owner_new : (d'.fieldAt f).owner = c
  mem_new : node ∈ (d'.fieldAt f).nodes
  fills_of : ∀ {f' c' node'}, d'.Fills f' c' node' →
    d.Fills f' c' node' ∨ f' = f ∧ c' = c ∧ node' = node

namespace Calm

variable {d d' d'' : Draft} {S : Cell → Prop}

theorem refl (d : Draft) : d.Calm d :=
  ⟨.refl d, rfl, rfl, rfl, fun h => h⟩

theorem trans (h : d.Calm d') (h' : d'.Calm d'') : d.Calm d'' :=
  ⟨h.toOnward.trans h'.toOnward, h'.progress_eq.trans h.progress_eq,
    h'.classes_size.trans h.classes_size, h'.nodeFields_eq.trans h.nodeFields_eq,
    fun hfills => h.fills_of (h'.fills_of hfills)⟩

/-- What fills a field after a quiet run filled it before, unless the run was to touch that. -/
theorem fills_of_quiet (hquiet : Quiet S d d') (hsize : d'.classes.size = d.classes.size)
    {f : FieldId} {c : ClassId} {node : NodeId} (hS : ¬S (.filling c node))
    (h : d'.Fills f c node) : d.Fills f c node := by
  have hclass : c < d.classes.size := hsize ▸ h.class_lt
  have hsame : (Cell.filling c node).Same d d' := hquiet.same hclass hS
  obtain ⟨hf, hmem⟩ := hsame f h.field_lt h.owner_eq h.mem
  exact ⟨hf, hclass, (hquiet.plain.kind_eq c hclass).symm.trans h.kind_eq,
    (hquiet.plain.owner_eq f hf).symm.trans h.owner_eq, hmem⟩

theorem of_quiet (hquiet : Quiet S d d') (hretains : d.Retains d')
    (hsize : d'.classes.size = d.classes.size)
    (hS : ∀ c node, S (.filling c node) → (d.classAt c).kind ≠ .concrete) : d.Calm d' where
  toOnward := .of_quiet hquiet hretains
  progress_eq := hquiet.progress_eq
  classes_size := hsize
  nodeFields_eq := hretains.nodeFields_eq
  fills_of {f c node} h := by
    refine fills_of_quiet hquiet hsize (fun hcell => hS c node hcell ?_) h
    exact (hquiet.plain.kind_eq c (hsize ▸ h.class_lt)).symm.trans h.kind_eq

end Calm

end Draft

namespace Build

variable {d d' : Draft} {u : Unit} {c : ClassId} {span : Span}

/-! ## Operations that leave the fields of expressions alone -/

/-- Every run leaves the fields of expressions alone. -/
def Retaining {α : Type} (x : Build α) : Prop := ∀ d a d', x d = (a, d') → d.Retains d'

namespace Retaining

variable {α β : Type}

theorem pure {a : α} : Retaining (Pure.pure a : Build α) := by
  intro d b d' h
  obtain ⟨-, rfl⟩ := pure_eq.mp h
  exact .refl d

theorem bind {x : Build α} {f : α → Build β} (hx : Retaining x) (hf : ∀ a, Retaining (f a)) :
    Retaining (x >>= f) := by
  intro d b d' h
  obtain ⟨a, d₁, hfirst, hrest⟩ := bind_eq.mp h
  exact (hx d a d₁ hfirst).trans (hf a d₁ b d' hrest)

theorem get : Retaining (MonadState.get : Build Draft) := by
  intro d a d' h
  obtain ⟨rfl, rfl⟩ := get_eq.mp h
  exact .refl d

theorem fault {what : SemanticFault} : Retaining (fault what span) := by
  intro d u d' h
  have herrors := fault_errors h
  rw [fault_eq h] at herrors ⊢
  exact .of_same rfl rfl rfl fun hnone => absurd hnone herrors

theorem updateClass {f : ClassDraft → ClassDraft}
    (hf : ∀ cls, (f cls).fieldLimitReported = cls.fieldLimitReported) :
    Retaining (updateClass c f) := by
  intro d u d' h
  rw [updateClass_eq h]
  refine ⟨fun hlimit hnone c' => ?_, rfl, fun _ _ => List.Subset.refl _, Nat.le_refl _⟩
  rw [getD_modify]
  split
  · rw [hf]
    exact hlimit hnone c
  · exact hlimit hnone c'

theorem updateField {field : FieldId} {f : FieldDraft → FieldDraft}
    (hf : ∀ fld, fld.model.nodes ⊆ (f fld).model.nodes) : Retaining (updateField field f) := by
  intro d u d' h
  have hat := updateField_fieldAt h
  rw [updateField_eq h] at hat ⊢
  refine ⟨fun hlimit => hlimit, rfl, fun g _ => ?_, Nat.le_of_eq Array.size_modify.symm⟩
  rw [hat]
  split
  · rename_i heq
    rw [← heq.1]
    exact hf _
  · exact List.Subset.refl _

variable {element : ElementType} {cardinality : Cardinality} {branch : Nat}

theorem pushField {name : String} {sourceName : Option String} :
    Retaining (pushField c name sourceName element cardinality span) := by
  intro d r d' h
  unfold Build.pushField at h
  obtain ⟨_, _, hget, h⟩ := bind_eq.mp h
  obtain ⟨rfl, rfl⟩ := get_eq.mp hget
  dsimp only at h
  generalize d.classes.getD c default = holder at h
  split at h
  · split at h
    · simp only [bind_eq, pure_eq] at h
      obtain ⟨_, d₁, hupdate, _, d₂, hfault, rfl, rfl⟩ := h
      have herrors := fault_errors hfault
      rw [fault_eq hfault] at herrors ⊢
      rw [updateClass_eq hupdate] at herrors ⊢
      exact ⟨fun _ hnone => absurd hnone herrors, rfl, fun _ _ => List.Subset.refl _, Nat.le_refl _⟩
    · obtain ⟨rfl, rfl⟩ := pure_eq.mp h
      exact .refl d
  · simp only [bind_eq, modify_eq, pure_eq] at h
    obtain ⟨_, d₁, rfl, _, d₂, hupdate, rfl, rfl⟩ := h
    refine Draft.Retains.trans ?_
      (Retaining.updateClass (f := fun cls =>
        { cls with model := { cls.model with fields := cls.model.fields ++ [d.fields.size] } })
        (fun _ => rfl) _ _ _ hupdate)
    refine ⟨fun hlimit => hlimit, rfl, fun f hf => ?_, ?_⟩
    · simp only [Draft.fieldAt, getD_push]
      rw [if_neg (Nat.ne_of_lt hf)]
      exact List.Subset.refl _
    · rw [Array.size_push]
      exact Nat.le_succ _

theorem freeFieldName {base : String} : Retaining (freeFieldName c base) :=
  .bind .get fun _ => .pure

theorem namedField {raw : String} :
    Retaining (namedField c raw element cardinality branch span) := by
  have hfault {what : SemanticFault} : Retaining (do
      Build.fault what span
      return none : Build (Option FieldId)) := .bind .fault fun _ => .pure
  unfold Build.namedField
  refine .bind .get fun d => ?_
  dsimp only
  split
  · exact .pure
  · split
    · exact .pushField
    · split
      · exact hfault
      · split
        · exact hfault
        · split
          · split
            · exact hfault
            · exact .bind (.updateField fun _ => List.Subset.refl _) fun _ => .pure
          · exact .bind (.updateField fun _ => List.Subset.refl _) fun _ => .pure

theorem derivedField {subject : String} :
    Retaining (derivedField c subject element cardinality branch span) := by
  unfold Build.derivedField
  refine .bind (.bind .get fun _ => .bind (.updateClass fun _ => rfl) fun _ =>
    .pure) fun count => ?_
  refine .bind .get fun d => ?_
  dsimp only
  split
  · exact .bind (.updateField fun _ => List.Subset.refl _) fun _ => .pure
  · exact .bind .freeFieldName fun _ => .pushField

theorem relaxPartial {alternatives : Nat} : Retaining (relaxPartial c alternatives) := by
  unfold Build.relaxPartial
  refine .bind .get fun d => .bind ?_ fun _ => .pure
  generalize (d.classAt c).fields = fields
  induction fields with
  | nil => exact .pure
  | cons field rest ih =>
    rw [List.forIn_cons]
    refine .bind ?_ fun step => ?_
    · split
      · exact .bind (.updateField fun _ => List.Subset.refl _) fun _ => .pure
      · exact .pure
    · split
      · exact .pure
      · exact ih

theorem addVariants {index : Nat} {entries : List (Expr × Option Value)} :
    Retaining (addVariants c index entries) := by
  induction entries generalizing index with
  | nil => exact .pure
  | cons entry rest ih =>
    refine .bind ?_ fun _ => ih
    refine .bind .get fun d => ?_
    dsimp only
    split
    · exact .bind .pure fun _ => .updateClass fun _ => rfl
    · refine .bind .freeFieldName fun name => .bind .pushField fun field => ?_
      split
      · exact .bind (.updateField fun _ => List.subset_append_left _ _) fun _ =>
          .bind .pure fun _ => .updateClass fun _ => rfl
      · exact .bind .pure fun _ => .updateClass fun _ => rfl

theorem setBase {base : ClassId} : Retaining (setBase c base span) := by
  unfold Build.setBase
  refine .bind .get fun d => ?_
  dsimp only
  split
  · exact .fault
  · split
    · exact .updateClass fun _ => rfl
    · split
      · exact .pure
      · exact .fault

theorem claimClassName {sc : Scope} {raw : String} {isNamed : Bool} :
    Retaining (claimClassName sc raw isNamed span) := by
  unfold Build.claimClassName
  refine .bind .get fun d => ?_
  dsimp only
  split
  · exact .pure
  · split
    · split
      · exact .bind .fault fun _ => .pure
      · exact .bind (.updateClass fun _ => rfl) fun _ => .pure
    · exact .pure

theorem newClass {sc : Scope} {raw : String} {isNamed : Bool} {kind : ClassKind}
    {origin : ClassOrigin} : Retaining (newClass sc raw isNamed kind origin span) := by
  have hpush {entries : Draft → Array Log.Entry} {model : ClassModel} : Retaining (modify fun d =>
      { d with entries := entries d, classes := d.classes.push ⟨model, isNamed, [], false⟩ } :
        Build Unit) := by
    intro d u d' h
    obtain rfl := modify_eq.mp h
    refine ⟨fun hlimit hnone c => ?_, rfl, fun _ _ => List.Subset.refl _, Nat.le_refl _⟩
    rw [getD_push]
    split
    · rfl
    · exact hlimit hnone c
  have hrest (id : ClassId) : Retaining (do
      let name ← Build.claimClassName sc raw isNamed span
      let model : ClassModel :=
        { id, name, sourceName := raw, kind, base := none, fields := [], variants := [],
          key := none, origin, span }
      modify fun d =>
        { d with
          entries :=
            if sc.summaries then
              d.entries.push (Log.Entry.debug "Materialized class"
                [("class", name), ("kind", kind.word), ("source", raw)])
            else d.entries
          classes := d.classes.push ⟨model, isNamed, [], false⟩ }
      return id : Build ClassId) :=
    .bind .claimClassName fun name => .bind hpush fun _ => .pure
  unfold Build.newClass
  refine .bind .get fun d => ?_
  dsimp only
  split
  · exact .bind .fault fun _ => hrest _
  · exact hrest _

end Retaining

/-! ## Calm operations -/

theorem calm_of_tables {S : Cell → Prop} (hquiet : Quiet S d d') (hclasses : d'.classes = d.classes)
    (hfields : d'.fields = d.fields) (hnodeFields : d'.nodeFields = d.nodeFields) : d.Calm d' where
  toOnward := .of_quiet hquiet (.of_same hclasses hfields hnodeFields hquiet.plain.errors_eq)
  progress_eq := hquiet.progress_eq
  classes_size := by rw [hclasses]
  nodeFields_eq := hnodeFields
  fills_of h := by
    have hclassAt : d'.classAt = d.classAt := by
      funext c
      rw [Draft.classAt, Draft.classAt, hclasses]
    have hfieldAt : d'.fieldAt = d.fieldAt := by
      funext f
      rw [Draft.fieldAt, Draft.fieldAt, hfields]
    exact ⟨hfields ▸ h.field_lt, hclasses ▸ h.class_lt, hclassAt ▸ h.kind_eq,
      hfieldAt ▸ h.owner_eq, hfieldAt ▸ h.mem⟩

theorem Faults.calm (h : Faults d d') : d.Calm d' := by
  have hquiet : Quiet (fun _ => False) d d' := h.quiet
  obtain ⟨errors, rfl, -⟩ := h
  exact calm_of_tables hquiet rfl rfl rfl

theorem Finished.calm {e : Expr} {value : Option Value} (h : Finished e value d d') :
    d.Calm d' := by
  have hquiet : Quiet (fun _ => True) d d' := h.quiet trivial
  obtain ⟨errors, claims, rfl, -⟩ := h
  exact calm_of_tables hquiet rfl rfl rfl

theorem recordValue_calm {node : NodeId} {v : Option Value} (h : recordValue node v d = (u, d')) :
    d.Calm d' := by
  have hquiet : Quiet (fun _ => True) d d' := recordValue_quiet h trivial
  rw [recordValue_eq h] at hquiet ⊢
  exact calm_of_tables hquiet rfl rfl rfl

theorem recordClass_calm {node : NodeId} (h : recordClass node c d = (u, d')) : d.Calm d' := by
  have hquiet : Quiet (fun _ => True) d d' := recordClass_quiet h trivial
  rw [recordClass_eq h] at hquiet ⊢
  exact calm_of_tables hquiet rfl rfl rfl

theorem setBase_calm {base : ClassId} (h : setBase c base span d = (u, d')) : d.Calm d' := by
  obtain ⟨hquiet, ⟨hsize, -⟩, -⟩ := setBase_spec (S := fun _ => False) h
  exact .of_quiet hquiet (Retaining.setBase _ _ _ h) hsize fun _ _ h => h.elim

theorem relaxPartial_calm {alternatives : Nat} (h : relaxPartial c alternatives d = (u, d')) :
    d.Calm d' :=
  .of_quiet (relaxPartial_quiet (S := fun _ => False) h) (Retaining.relaxPartial _ _ _ h)
    (MakesNoClass.relaxPartial _ _ _ h) fun _ _ h => h.elim

/-- The payloads of variants are fields of a class that has no instances of its own. -/
theorem addVariants_calm {index : Nat} {entries : List (Expr × Option Value)}
    (h : addVariants c index entries d = (u, d')) (hc : c < d.classes.size)
    (hkind : (d.classAt c).kind = .tagged) : d.Calm d' := by
  obtain ⟨hquiet, -⟩ := addVariants_spec
    (S := fun cell => cell = .variants c ∨ ∃ id, cell = .filling c id) h hc (.inl rfl)
    fun entry _ => .inr ⟨_, rfl⟩
  refine .of_quiet hquiet (Retaining.addVariants _ _ _ h) (MakesNoClass.addVariants _ _ _ h) ?_
  rintro c' node (hcell | ⟨id, hcell⟩)
  · cases hcell
  · cases hcell
    rw [hkind]
    simp

/-! ## Classes and fields -/

theorem Creates.opens {sc : Scope} {kind : ClassKind} {origin : ClassOrigin}
    (h : Creates sc kind origin c d d') (hwf : d.WellFormed) : Draft.Opens kind origin c d d' := by
  obtain ⟨raw, isNamed, span, h⟩ := h
  obtain ⟨hquiet, hmade⟩ := newClass_quiet (S := fun _ => False) h
  have hretains := Retaining.newClass _ _ _ h
  refine ⟨.of_quiet hquiet hretains, hquiet.progress_eq, hmade.id_eq, hmade.size_eq, hmade.kind_eq,
    hmade.origin_eq, hretains.nodeFields_eq, fun {f c' node} hfills => ?_⟩
  have hf : f < d.fields.size := hmade.fields_eq ▸ hfills.field_lt
  have howner : (d.fieldAt f).owner = c' :=
    (hquiet.plain.owner_eq f hf).symm.trans hfills.owner_eq
  have hc' : c' < d.classes.size := howner ▸ hwf.owner_lt f hf
  have hsame : (Cell.filling c' node).Same d d' := hquiet.same hc' fun h => h
  exact ⟨hf, hc', (hquiet.plain.kind_eq c' hc').symm.trans hfills.kind_eq, howner,
    (hsame f hfills.field_lt hfills.owner_eq hfills.mem).2⟩

section

variable {e : Expr} {element : ElementType} {cardinality : Cardinality} {branch : Nat} {own : Bool}
  {r : Option FieldId}

theorem FindsField.retains (h : FindsField c e element cardinality branch own r d d') :
    d.Retains d' := by
  cases h with
  | named _ _ hfield => exact Retaining.namedField _ _ _ hfield
  | derived hfield => exact Retaining.derivedField _ _ _ hfield

theorem FindsField.classes_size (h : FindsField c e element cardinality branch own r d d') :
    d'.classes.size = d.classes.size := by
  cases h with
  | named _ _ hfield => exact MakesNoClass.namedField _ _ _ hfield
  | derived hfield => exact MakesNoClass.derivedField _ _ _ hfield

theorem recordField_adds {f : FieldId} {node : NodeId} (h : recordField node f branch d = (u, d'))
    (hf : f < d.fields.size) : Draft.Adds f (d.fieldAt f).owner node d d' := by
  obtain ⟨hquiet, hsize⟩ :=
    recordField_quiet (S := fun cell => cell = .filling (d.fieldAt f).owner node) h rfl
  have hat := recordField_fieldAt h
  have hclasses := MakesNoClass.recordField _ _ _ h
  have hnodes : ∀ g < d.fields.size, (d.fieldAt g).nodes ⊆ (d'.fieldAt g).nodes := by
    intro g _
    rw [hat]
    split
    · rename_i heq
      rw [← heq.1]
      exact List.subset_append_left _ _
    · exact List.Subset.refl _
  have htables : d'.nodeFields = d.nodeFields.insert node f ∧ (d.Unlimited → d'.Unlimited) := by
    unfold recordField at h
    simp only [bind_eq, modify_eq] at h
    obtain ⟨_, d₁, hupdate, rfl⟩ := h
    rw [updateField_eq hupdate]
    exact ⟨rfl, fun hlimit => hlimit⟩
  refine ⟨⟨hquiet.plain.errors_eq, hquiet.plain.wellFormed, htables.2, hquiet.plain.classes_le,
    Nat.le_of_eq hsize.symm, hquiet.plain.kind_eq, hquiet.plain.origin_eq, hquiet.plain.owner_eq,
    hnodes⟩, hquiet.progress_eq, hclasses, htables.1, hsize ▸ hf, hquiet.plain.owner_eq f hf, ?_,
    fun {g c' node'} hfills => ?_⟩
  · rw [hat, if_pos ⟨rfl, hf⟩]
    exact List.mem_append_right _ (List.mem_singleton.mpr rfl)
  · have hg : g < d.fields.size := hsize ▸ hfills.field_lt
    have hc' : c' < d.classes.size := hclasses ▸ hfills.class_lt
    have howner : (d.fieldAt g).owner = c' :=
      (hquiet.plain.owner_eq g hg).symm.trans hfills.owner_eq
    have hold (hmem : node' ∈ (d.fieldAt g).nodes) : d.Fills g c' node' :=
      ⟨hg, hc', (hquiet.plain.kind_eq c' hc').symm.trans hfills.kind_eq, howner, hmem⟩
    have hmem := hfills.mem
    rw [hat] at hmem
    split at hmem
    · rename_i heq
      obtain ⟨rfl, -⟩ := heq
      rcases List.mem_append.mp hmem with hmem | hmem
      · exact .inl (hold hmem)
      · exact .inr ⟨rfl, howner.symm, List.mem_singleton.mp hmem⟩
    · exact .inl (hold hmem)

/-- A field is refused only with an error. -/
theorem pushField_refused {name : String} {sourceName : Option String}
    (h : pushField c name sourceName element cardinality span d = (none, d'))
    (hlimit : d.Unlimited) :
    d'.errors ≠ #[] := by
  unfold pushField at h
  obtain ⟨_, _, hget, h⟩ := bind_eq.mp h
  obtain ⟨rfl, rfl⟩ := get_eq.mp hget
  dsimp only at h
  split at h
  · split at h
    · simp only [bind_eq, pure_eq] at h
      obtain ⟨_, d₁, -, _, d₂, hfault, -, rfl⟩ := h
      exact fault_errors hfault
    · rename_i hreported
      obtain ⟨-, rfl⟩ := pure_eq.mp h
      intro hnone
      rw [hlimit hnone c] at hreported
      exact hreported rfl
  · simp at h

/-- A field that the grammar names is refused only with an error. -/
theorem namedField_refused {raw : String}
    (h : namedField c raw element cardinality branch span d = (none, d')) (hlimit : d.Unlimited)
    (hname : (Naming.fieldName raw).isSome = true) : d'.errors ≠ #[] := by
  have hfault {what : SemanticFault} (h : (do
      fault what span
      return none : Build (Option FieldId)) d = (none, d')) : d'.errors ≠ #[] := by
    simp only [bind_eq, pure_eq] at h
    obtain ⟨_, d₁, hfault, -, rfl⟩ := h
    exact fault_errors hfault
  unfold namedField at h
  obtain ⟨_, _, hget, h⟩ := bind_eq.mp h
  obtain ⟨rfl, rfl⟩ := get_eq.mp hget
  dsimp only at h
  cases hraw : Naming.fieldName raw with
  | none =>
    rw [hraw] at hname
    cases hname
  | some name =>
    rw [hraw] at h
    dsimp only at h
    cases hfound : (d.fieldsOf c).find? fun f => f.name == name with
    | none =>
      rw [hfound] at h
      exact pushField_refused h hlimit
    | some other =>
      rw [hfound] at h
      dsimp only at h
      split at h
      · exact hfault h
      · split at h
        · exact hfault h
        · split at h
          · split at h
            · exact hfault h
            · simp at h
          · simp at h

theorem derivedField_refused {subject : String}
    (h : derivedField c subject element cardinality branch span d = (none, d'))
    (hlimit : d.Unlimited) : d'.errors ≠ #[] := by
  unfold derivedField at h
  obtain ⟨count, d₁, hcount, h⟩ := bind_eq.mp h
  obtain ⟨_, _, hget, h⟩ := bind_eq.mp h
  obtain ⟨rfl, rfl⟩ := get_eq.mp hget
  have hcounted : Retaining (countOccurrence c branch ((Naming.fieldName subject).getD "value")) :=
    .bind .get fun _ => .bind (.updateClass fun _ => rfl) fun _ => .pure
  dsimp only at h
  cases hfound : (d₁.fieldsOf c).find? _ with
  | some other =>
    rw [hfound] at h
    simp at h
  | none =>
    rw [hfound] at h
    obtain ⟨name, d₂, hname, hpush⟩ := bind_eq.mp h
    exact pushField_refused hpush
      ((Retaining.freeFieldName _ _ _ hname).unlimited ((hcounted _ _ _ hcount).unlimited hlimit))

end

/-- What comes of making an expression with a value fill a field of a class. -/
inductive Placed (c : ClassId) (e : Expr) (d d' : Draft) : Option Value → Prop
  | nothing (h : d' = d) : Placed c e d d' none
  | filled {v : Value} (f : FieldId) (h : Draft.Adds f c e.id d d') : Placed c e d d' (some v)
  /-- No field was found for the value. -/
  | refused {v : Value} (h : d.Calm d') (herrors : d.Unlimited →
      (∀ raw, e.markerValue? .field = some raw → (Naming.fieldName raw).isSome = true) →
        d'.errors ≠ #[]) : Placed c e d d' (some v)

theorem addField_placed {e : Expr} {value : Option Value} {outer : Cardinality} {branch : Nat}
    {own : Bool} (h : addField c e value outer branch own d = (u, d')) (hwf : d.WellFormed)
    (hc : c < d.classes.size) : Placed c e d d' value := by
  cases value with
  | none =>
    unfold addField at h
    obtain ⟨-, rfl⟩ := pure_eq.mp h
    exact .nothing rfl
  | some v =>
    obtain ⟨cardinality, field, d₁, hfinds, -, hrecord⟩ := addField_some h
    obtain ⟨hquiet, hoffers⟩ := hfinds.spec (S := fun _ => False) hwf hc
    have hcalm : d.Calm d₁ :=
      .of_quiet hquiet hfinds.retains hfinds.classes_size fun _ _ h => h.elim
    rcases hrecord with ⟨rfl, rfl⟩ | ⟨f, rfl, hrecord⟩
    · refine .refused hcalm fun hlimit hname => ?_
      cases hfinds with
      | named _ hraw hfield => exact namedField_refused hfield hlimit (hname _ hraw)
      | derived hfield => exact derivedField_refused hfield hlimit
    · obtain ⟨hf, howner, -⟩ := hoffers f rfl
      have hadds := recordField_adds hrecord hf
      rw [howner] at hadds
      refine .filled f ⟨hcalm.toOnward.trans hadds.toOnward,
        hadds.progress_eq.trans hcalm.progress_eq,
        hadds.classes_size.trans hcalm.classes_size, ?_, hadds.field_lt, hadds.owner_new,
        hadds.mem_new, fun hfills => (hadds.fills_of hfills).imp_left hcalm.fills_of⟩
      rw [hadds.nodeFields_eq, hcalm.nodeFields_eq]

end Build
end AnnotatedGrammar
