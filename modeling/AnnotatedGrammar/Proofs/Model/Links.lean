import AnnotatedGrammar.Proofs.Model.Ranges

/-!
# How classes, fields and variants belong together

Every field stands once in the list of its owner and in no other list, and an expression that fills
a field is among the field's expressions. What a class may have depends on its kind: a base has
neither fields nor variants, and the fields of a tagged class are the payloads of its variants.
-/

namespace AnnotatedGrammar

namespace Tables

variable {sc : Scope} {t t' : Tables} {c : ClassId} {node : NodeId}

/-! ## Fields and their owners -/

/-- Fields and classes agree on which field belongs to which class. -/
structure FieldsLinked (t : Tables) : Prop where
  listed : ∀ (f : FieldId) fld, t.fields[f]? = some fld →
    ∃ cls, t.classes[fld.owner]? = some cls ∧ f ∈ cls.fields
  owned : ∀ (c : ClassId) cls, t.classes[c]? = some cls → ∀ f ∈ cls.fields,
    ∃ fld, t.fields[f]? = some fld ∧ fld.owner = c
  nodup : ∀ (c : ClassId) cls, t.classes[c]? = some cls → cls.fields.Nodup
  filled : ∀ (f : FieldId) fld, t.fields[f]? = some fld → fld.nodes ≠ []
  recorded : ∀ id f, t.nodeFields.get? id = some f →
    ∃ fld, t.fields[f]? = some fld ∧ id ∈ fld.nodes

namespace FieldsLinked

/-- A change of a class that leaves its fields alone. -/
theorem modifyClass (h : t.FieldsLinked) {g : ClassModel → ClassModel}
    (hg : ∀ cls, (g cls).fields = cls.fields) :
    FieldsLinked { t with classes := t.classes.modify c g } where
  listed f fld hfld := by
    obtain ⟨cls, hcls, hmem⟩ := h.listed f fld hfld
    refine ⟨_, getElem?_modify_eq_some.mpr ⟨cls, hcls, rfl⟩, ?_⟩
    split
    · rwa [hg]
    · exact hmem
  owned := forall_modify h.owned fun cls hcls => by
    rw [hg]
    exact h.owned c cls hcls
  nodup := forall_modify h.nodup fun cls hcls => by
    rw [hg]
    exact h.nodup c cls hcls
  filled := h.filled
  recorded := h.recorded

/-- A change of a field that leaves its owner alone and drops none of its expressions. -/
theorem modifyField (h : t.FieldsLinked) {f : FieldId} {g : FieldModel → FieldModel}
    (howner : ∀ fld, (g fld).owner = fld.owner) (hnodes : ∀ fld, fld.nodes ⊆ (g fld).nodes) :
    FieldsLinked { t with fields := t.fields.modify f g } where
  listed := forall_modify h.listed fun fld hfld => by
    rw [howner]
    exact h.listed f fld hfld
  owned c cls hcls f' hf' := by
    obtain ⟨fld, hfld, rfl⟩ := h.owned c cls hcls f' hf'
    refine ⟨_, getElem?_modify_eq_some.mpr ⟨fld, hfld, rfl⟩, ?_⟩
    split
    · exact howner fld
    · rfl
  nodup := h.nodup
  filled := forall_modify h.filled fun fld hfld hnil =>
    h.filled f fld hfld (List.eq_nil_of_subset_nil (hnil ▸ hnodes fld))
  recorded id f' hf' := by
    obtain ⟨fld, hfld, hmem⟩ := h.recorded id f' hf'
    refine ⟨_, getElem?_modify_eq_some.mpr ⟨fld, hfld, rfl⟩, ?_⟩
    split
    · exact hnodes fld hmem
    · exact hmem

/-- An expression that is among those of a field is recorded to fill it. -/
theorem insertField (h : t.FieldsLinked) {f : FieldId} {fld : FieldModel}
    (hfld : t.fields[f]? = some fld) (hmem : node ∈ fld.nodes) :
    FieldsLinked { t with nodeFields := t.nodeFields.insert node f } where
  listed := h.listed
  owned := h.owned
  nodup := h.nodup
  filled := h.filled
  recorded id f' hf' := by
    rw [NodeTable.get?_insert] at hf'
    split at hf'
    · rename_i heq
      rw [← heq, ← Option.some.inj hf']
      exact ⟨fld, hfld, hmem⟩
    · exact h.recorded id f' hf'

theorem addClass (h : t.FieldsLinked) {cls : ClassModel} (hfields : cls.fields = []) :
    (t.addClass cls).FieldsLinked where
  listed f fld hfld := by
    obtain ⟨cls', hcls, hmem⟩ := h.listed f fld hfld
    exact ⟨cls', getElem?_push_eq_some.mpr (.inr hcls), hmem⟩
  owned := forall_push h.owned (by simp [hfields])
  nodup := forall_push h.nodup (by simp [hfields])
  filled := h.filled
  recorded := h.recorded

theorem addField (h : t.FieldsLinked) {fld : FieldModel} (howner : fld.owner < t.classes.size)
    (hnodes : fld.nodes ≠ []) : (t.addField fld).FieldsLinked where
  listed := by
    refine forall_push (fun f fld' hfld' => ?_) ?_
    · obtain ⟨cls, hcls, hmem⟩ := h.listed f fld' hfld'
      refine ⟨_, getElem?_modify_eq_some.mpr ⟨cls, hcls, rfl⟩, ?_⟩
      split
      · exact List.mem_append_left _ hmem
      · exact hmem
    · refine ⟨_, getElem?_modify_eq_some.mpr ⟨_, Array.getElem?_eq_getElem howner, rfl⟩, ?_⟩
      rw [if_pos rfl]
      exact List.mem_append_right _ (List.mem_singleton.mpr rfl)
  owned := by
    have hold {c : ClassId} {cls : ClassModel} (hcls : t.classes[c]? = some cls) {f : FieldId}
        (hf : f ∈ cls.fields) : ∃ fld', (t.fields.push fld)[f]? = some fld' ∧ fld'.owner = c := by
      obtain ⟨fld', hfld', rfl⟩ := h.owned c cls hcls f hf
      exact ⟨fld', getElem?_push_eq_some.mpr (.inr hfld'), rfl⟩
    refine forall_modify (fun c cls hcls f hf => hold hcls hf) fun cls hcls f hf => ?_
    rcases List.mem_append.mp hf with hf | hf
    · exact hold hcls hf
    · rw [List.mem_singleton.mp hf]
      exact ⟨fld, getElem?_push_eq_some.mpr (.inl ⟨rfl, rfl⟩), rfl⟩
  nodup := by
    refine forall_modify h.nodup fun cls hcls => ?_
    refine List.nodup_append.mpr ⟨h.nodup _ cls hcls, List.nodup_singleton _, fun f hf f' hf' => ?_⟩
    rintro rfl
    obtain ⟨fld', hfld', -⟩ := h.owned _ cls hcls f hf
    rw [List.mem_singleton.mp hf'] at hfld'
    exact Nat.lt_irrefl _ (Array.getElem?_eq_some_iff.mp hfld').1
  filled := forall_push h.filled hnodes
  recorded id f hf := by
    obtain ⟨fld', hfld', hmem⟩ := h.recorded id f hf
    exact ⟨fld', getElem?_push_eq_some.mpr (.inr hfld'), hmem⟩

theorem newField (h : t.FieldsLinked) {fld : FieldModel} (howner : fld.owner < t.classes.size)
    (hnew : t.NewField sc fld node) : (t.addField fld).FieldsLinked :=
  h.addField howner (by simp [hnew.nodes_eq])

theorem variantStep (h : t.FieldsLinked) (hc : c < t.classes.size)
    (hstep : VariantStep sc c node t t') : t'.FieldsLinked := by
  cases hstep with
  | plain => exact h.modifyClass fun _ => by rfl
  | payload _ hfield howner _ =>
    subst howner
    exact (h.newField hc hfield).modifyClass fun _ => by rfl

theorem variantSteps {nodes : List NodeId} (h : t.FieldsLinked) (hc : c < t.classes.size)
    (hsteps : VariantSteps sc c nodes t t') : t'.FieldsLinked := by
  induction hsteps with
  | nil => exact h
  | cons hstep _ ih => exact ih (h.variantStep hc hstep) (hstep.grows.lt hc)

theorem step (h : t.FieldsLinked) (hstep : Step sc t t') : t'.FieldsLinked := by
  cases hstep with
  | claims | value | nodeClass | progress => exact ⟨h.1, h.2, h.3, h.4, h.5⟩
  | newClass hnew => exact h.addClass hnew.fields_eq
  | displace hnew =>
    exact FieldsLinked.addClass (h.modifyClass fun _ => by rfl) hnew.fields_eq
  | base => exact h.modifyClass fun _ => by rfl
  | @newField fld node howner hnew =>
    have hlast : (t.addField fld).fields[t.fields.size]? = some fld :=
      getElem?_push_eq_some.mpr (.inl ⟨rfl, rfl⟩)
    exact (h.newField howner.lt hnew).insertField hlast (by simp [hnew.nodes_eq])
  | @fill f node hf =>
    have hfilled : FieldsLinked { t with
        fields := t.fields.modify f fun fld => { fld with nodes := fld.nodes ++ [node] } } :=
      h.modifyField (fun _ => rfl) fun fld => List.subset_append_left _ _
    exact hfilled.insertField
      (getElem?_modify_eq_some.mpr ⟨_, Array.getElem?_eq_getElem hf, rfl⟩) (by simp)
  | widen => exact h.modifyField (fun _ => by rfl) fun _ => by exact List.Subset.refl _
  | variants _ htagged _ hsteps => exact h.variantSteps htagged.lt hsteps

end FieldsLinked

/-! ## What a class of each kind may have -/

/-- A class has what its kind allows. -/
structure ClassSuits (cls : ClassModel) : Prop where
  untagged : cls.kind ≠ .tagged → cls.variants = []
  bare : cls.kind = .abstract → cls.fields = []
  payloads : cls.kind = .tagged → cls.fields = cls.variants.filterMap (·.payload)

/-- Every class has what its kind allows. -/
def Suits (t : Tables) : Prop := ∀ (c : ClassId) cls, t.classes[c]? = some cls → ClassSuits cls

namespace Suits

theorem addClass (h : t.Suits) {cls : ClassModel} (hnew : t.NewClass sc cls) :
    (t.addClass cls).Suits :=
  forall_push h
    ⟨fun _ => hnew.variants_eq, fun _ => hnew.fields_eq,
      fun _ => by rw [hnew.fields_eq, hnew.variants_eq]; rfl⟩

theorem rename (h : t.Suits) (c : ClassId) (name : String) : (t.rename c name).Suits :=
  forall_modify h fun cls hcls =>
    have hold := h c cls hcls
    ⟨hold.untagged, hold.bare, hold.payloads⟩

theorem addField (h : t.Suits) {fld : FieldModel} (howner : t.HasKind fld.owner .concrete) :
    (t.addField fld).Suits := by
  refine forall_modify h fun cls hcls => ?_
  have hkind := howner.eq_kind hcls
  refine ⟨(h _ cls hcls).untagged, fun habstract => ?_, fun htagged => ?_⟩
  · exact absurd (hkind.symm.trans habstract) (by decide)
  · exact absurd (hkind.symm.trans htagged) (by decide)

theorem variantStep (h : t.Suits) (hc : t.HasKind c .tagged) (hstep : VariantStep sc c node t t') :
    t'.Suits := by
  cases hstep with
  | plain =>
    refine forall_modify h fun cls hcls => ?_
    have hkind := hc.eq_kind hcls
    refine ⟨fun hne => absurd hkind hne, fun habstract => ?_, fun _ => ?_⟩
    · exact absurd (hkind.symm.trans habstract) (by decide)
    · rw [List.filterMap_append, (h _ cls hcls).payloads hkind]
      exact (List.append_nil _).symm
  | payload _ _ howner _ =>
    subst howner
    intro c' cls' hcls'
    obtain ⟨cls₁, hcls₁, rfl⟩ := getElem?_modify_eq_some.mp hcls'
    obtain ⟨cls, hcls, rfl⟩ := getElem?_modify_eq_some.mp hcls₁
    split
    · rename_i heq
      subst heq
      have hkind := hc.eq_kind hcls
      refine ⟨fun hne => absurd hkind hne, fun habstract => ?_, fun _ => ?_⟩
      · exact absurd (hkind.symm.trans habstract) (by decide)
      · rw [List.filterMap_append, ← (h _ cls hcls).payloads hkind]
        rfl
    · exact h c' cls hcls

theorem variantSteps {nodes : List NodeId} (h : t.Suits) (hc : t.HasKind c .tagged)
    (hsteps : VariantSteps sc c nodes t t') : t'.Suits := by
  induction hsteps with
  | nil => exact h
  | cons hstep _ ih => exact ih (h.variantStep hc hstep) (hstep.grows.kind c _ hc)

theorem step (h : t.Suits) (hstep : Step sc t t') : t'.Suits := by
  cases hstep with
  | claims | value | nodeClass | progress | fill | widen => exact h
  | newClass hnew => exact h.addClass hnew
  | displace hnew =>
    exact forall_push (h.rename _ _)
      ⟨fun _ => hnew.variants_eq, fun _ => hnew.fields_eq,
        fun _ => by rw [hnew.fields_eq, hnew.variants_eq]; rfl⟩
  | base =>
    exact forall_modify h fun cls hcls =>
      have hold := h _ cls hcls
      ⟨hold.untagged, hold.bare, hold.payloads⟩
  | newField howner => exact h.addField howner
  | variants _ htagged _ hsteps => exact h.variantSteps htagged hsteps

end Suits

/-! ## Payloads -/

theorem Grows.kind_iff (h : Grows t t') (hc : c < t.classes.size) {kind : ClassKind} :
    t'.HasKind c kind ↔ t.HasKind c kind := by
  refine ⟨fun hkind => ?_, h.kind c kind⟩
  obtain ⟨kind', hkind'⟩ := lt_iff_hasKind.mp hc
  rwa [hkind.eq (h.kind c kind' hkind')]

/-- The fields of a tagged class may be absent. -/
structure PayloadsVary (t : Tables) : Prop where
  owner : ∀ (f : FieldId) fld, t.fields[f]? = some fld → fld.owner < t.classes.size
  cardinality : ∀ (f : FieldId) fld, t.fields[f]? = some fld → t.HasKind fld.owner .tagged →
    fld.cardinality ≠ .scalar

namespace PayloadsVary

theorem of_grows (h : t.PayloadsVary) (hgrows : Grows t t') (hfields : t'.fields = t.fields) :
    t'.PayloadsVary where
  owner f fld hfld := hgrows.lt (h.owner f fld (hfields ▸ hfld))
  cardinality f fld hfld hkind :=
    h.cardinality f fld (hfields ▸ hfld)
      ((hgrows.kind_iff (h.owner f fld (hfields ▸ hfld))).mp hkind)

theorem addField (h : t.PayloadsVary) {fld : FieldModel} (howner : fld.owner < t.classes.size)
    (hcardinality : t.HasKind fld.owner .tagged → fld.cardinality ≠ .scalar) :
    (t.addField fld).PayloadsVary :=
  have hgrows := Grows.addField t fld
  ⟨forall_push (fun f fld' hfld' => hgrows.lt (h.owner f fld' hfld')) (hgrows.lt howner),
    forall_push
      (fun f fld' hfld' hkind =>
        h.cardinality f fld' hfld' ((hgrows.kind_iff (h.owner f fld' hfld')).mp hkind))
      fun hkind => hcardinality ((hgrows.kind_iff howner).mp hkind)⟩

/-- A change of a field that leaves its owner alone and keeps it from becoming scalar. -/
theorem modifyField (h : t.PayloadsVary) {f : FieldId} {g : FieldModel → FieldModel}
    (howner : ∀ fld, (g fld).owner = fld.owner)
    (hcardinality : ∀ fld, t.fields[f]? = some fld → fld.cardinality ≠ .scalar →
      (g fld).cardinality ≠ .scalar) :
    PayloadsVary { t with fields := t.fields.modify f g } where
  owner := forall_modify h.owner fun fld hfld => by
    rw [howner]
    exact h.owner f fld hfld
  cardinality := by
    have hkinds (c : ClassId) (kind : ClassKind) :
        HasKind { t with fields := t.fields.modify f g } c kind ↔ t.HasKind c kind := Iff.rfl
    simp only [hkinds]
    refine forall_modify h.cardinality fun fld hfld hkind => ?_
    rw [howner] at hkind
    exact hcardinality fld hfld (h.cardinality f fld hfld hkind)

theorem variantStep (h : t.PayloadsVary) (hc : c < t.classes.size)
    (hstep : VariantStep sc c node t t') : t'.PayloadsVary := by
  cases hstep with
  | plain => exact h.of_grows (.addVariant t c _) rfl
  | payload _ _ howner hcardinality =>
    subst howner
    exact (h.addField hc fun _ => hcardinality).of_grows (.addVariant _ _ _) rfl

theorem variantSteps {nodes : List NodeId} (h : t.PayloadsVary) (hc : c < t.classes.size)
    (hsteps : VariantSteps sc c nodes t t') : t'.PayloadsVary := by
  induction hsteps with
  | nil => exact h
  | cons hstep _ ih => exact ih (h.variantStep hc hstep) (hstep.grows.lt hc)

theorem step (h : t.PayloadsVary) (hstep : Step sc t t') : t'.PayloadsVary := by
  have hgrows := hstep.grows
  cases hstep with
  | claims | value | nodeClass | progress | newClass | displace | base =>
    exact h.of_grows hgrows rfl
  | newField howner hnew =>
    have hadded := h.addField howner.lt fun htagged => absurd (howner.eq htagged) (by decide)
    exact ⟨hadded.owner, hadded.cardinality⟩
  | @fill f node =>
    have hfilled : PayloadsVary { t with
        fields := t.fields.modify f fun fld => { fld with nodes := fld.nodes ++ [node] } } :=
      h.modifyField (fun _ => rfl) fun _ _ hne => hne
    exact ⟨hfilled.owner, hfilled.cardinality⟩
  | @widen f k hrank =>
    refine h.modifyField (fun _ => by rfl) fun fld hfld hne hscalar => hne ?_
    have hwidened : k fld.cardinality = .scalar := hscalar
    have hle := hrank fld hfld
    rw [hwidened] at hle
    generalize fld.cardinality = k at hle
    cases k with
    | scalar => rfl
    | optional | list => exact absurd hle (by decide)
  | variants _ htagged _ hsteps => exact h.variantSteps htagged.lt hsteps

end PayloadsVary

/-! ## Variants and branches -/

/-- The variants of a class, if it has any, stand for the branches of an alternation in order. -/
def VariantsOrdered (sc : Scope) (cls : ClassModel) : Prop :=
  cls.variants = [] ∨ ∃ info branches, sc.Occurs (.alternation info branches) ∧
    cls.variants.map (·.node) = branches.map (·.id)

/-- The variants of every class, if it has any, stand for the branches of an alternation. -/
def BranchesKept (sc : Scope) (t : Tables) : Prop :=
  ∀ (c : ClassId) cls, t.classes[c]? = some cls → VariantsOrdered sc cls

/-- A class got variants for the given expressions, and the other classes got none. -/
def VariantsAdded (c : ClassId) (nodes : List NodeId) (t t' : Tables) : Prop :=
  ∀ (c' : ClassId) cls', t'.classes[c']? = some cls' → ∃ cls, t.classes[c']? = some cls ∧
    if c = c' then cls'.variants.map (·.node) = cls.variants.map (·.node) ++ nodes
    else cls'.variants = cls.variants

theorem VariantStep.added (h : VariantStep sc c node t t') : VariantsAdded c [node] t t' := by
  have hadded {t₁ : Tables} {v : Variant} (hclasses : ∀ (c' : ClassId) cls',
      t₁.classes[c']? = some cls' → ∃ cls, t.classes[c']? = some cls ∧
        cls'.variants = cls.variants) :
      VariantsAdded c [v.node] t (t₁.addVariant c v) := by
    intro c' cls' hcls'
    obtain ⟨cls₁, hcls₁, rfl⟩ := getElem?_modify_eq_some.mp hcls'
    obtain ⟨cls, hcls, hvariants⟩ := hclasses c' cls₁ hcls₁
    refine ⟨cls, hcls, ?_⟩
    split
    · simp [hvariants]
    · exact hvariants
  cases h with
  | plain => exact hadded fun c' cls' hcls' => ⟨cls', hcls', rfl⟩
  | payload =>
    refine hadded fun c' cls' hcls' => ?_
    obtain ⟨cls, hcls, rfl⟩ := getElem?_modify_eq_some.mp hcls'
    refine ⟨cls, hcls, ?_⟩
    split <;> rfl

theorem VariantSteps.added {nodes : List NodeId} (h : VariantSteps sc c nodes t t') :
    VariantsAdded c nodes t t' := by
  induction h with
  | nil t =>
    intro c' cls' hcls'
    refine ⟨cls', hcls', ?_⟩
    split
    · exact (List.append_nil _).symm
    · rfl
  | cons hstep _ ih =>
    intro c' cls' hcls'
    obtain ⟨cls₁, hcls₁, hrest⟩ := ih c' cls' hcls'
    obtain ⟨cls, hcls, hfirst⟩ := hstep.added c' cls₁ hcls₁
    refine ⟨cls, hcls, ?_⟩
    split at hrest <;> split at hfirst
    · rename_i heq _
      rw [if_pos heq, hrest, hfirst, List.append_assoc, List.singleton_append]
    · rename_i heq hne
      exact absurd heq hne
    · rename_i hne heq
      exact absurd heq hne
    · rename_i hne _
      rw [if_neg hne, hrest, hfirst]

theorem BranchesKept.step (h : t.BranchesKept sc) (hstep : Step sc t t') : t'.BranchesKept sc := by
  cases hstep with
  | claims | value | nodeClass | progress | fill | widen => exact h
  | newClass hnew => exact forall_push h (.inl hnew.variants_eq)
  | displace hnew =>
    exact forall_push (forall_modify h fun cls hcls => by exact h _ cls hcls)
      (.inl hnew.variants_eq)
  | base => exact forall_modify h fun cls hcls => by exact h _ cls hcls
  | newField => exact forall_modify h fun cls hcls => by exact h _ cls hcls
  | @variants c info branches _ hoccurs _ hempty hsteps =>
    intro c' cls' hcls'
    obtain ⟨cls, hcls, hvariants⟩ := hsteps.added c' cls' hcls'
    split at hvariants
    · rename_i heq
      subst heq
      rw [hempty cls hcls] at hvariants
      exact .inr ⟨info, branches, hoccurs, hvariants⟩
    · unfold VariantsOrdered
      rw [hvariants]
      exact h c' cls hcls

/-! ## Everything together -/

/-- Classes, fields and variants belong together. -/
structure Linked (sc : Scope) (t : Tables) : Prop where
  fields : t.FieldsLinked
  suits : t.Suits
  payloads : t.PayloadsVary
  branches : t.BranchesKept sc

theorem Linked.step (h : t.Linked sc) (hstep : Step sc t t') : t'.Linked sc :=
  ⟨h.fields.step hstep, h.suits.step hstep, h.payloads.step hstep, h.branches.step hstep⟩

theorem Linked.check (h : t.Linked sc) (hcheck : Check sc t t') : t'.Linked sc := by
  cases hcheck with
  | @key c f =>
    exact ⟨h.fields.modifyClass fun _ => by rfl,
      forall_modify h.suits fun cls hcls =>
        have hold := h.suits c cls hcls
        ⟨hold.untagged, hold.bare, hold.payloads⟩,
      h.payloads.of_grows (.setKey t c f) rfl,
      forall_modify h.branches fun cls hcls => by exact h.branches c cls hcls⟩
  | value =>
    exact ⟨⟨h.fields.1, h.fields.2, h.fields.3, h.fields.4, h.fields.5⟩, h.suits,
      ⟨h.payloads.owner, h.payloads.cardinality⟩, h.branches⟩
  | retype =>
    exact ⟨h.fields.modifyField (fun _ => by rfl) fun _ => by exact List.Subset.refl _, h.suits,
      h.payloads.modifyField (fun _ => by rfl) fun _ _ hne => by exact hne, h.branches⟩

/-- What belongs together stays so. -/
theorem Linked.steps (h : t.Linked sc) (hsteps : Steps sc t t') : t'.Linked sc :=
  hsteps.preserves (fun _ _ hstep ht => ht.step hstep) h

/-! ## Keys -/

/-- No class has a key. -/
def Unkeyed (t : Tables) : Prop := ∀ (c : ClassId) cls, t.classes[c]? = some cls → cls.key = none

theorem VariantStep.unkeyed (h : VariantStep sc c node t t') (ht : t.Unkeyed) : t'.Unkeyed := by
  cases h with
  | plain => exact forall_modify ht fun cls hcls => by exact ht _ cls hcls
  | @payload tag fld =>
    have hadded : (t.addField fld).Unkeyed :=
      forall_modify ht fun cls hcls => by exact ht _ cls hcls
    exact forall_modify hadded fun cls hcls => by exact hadded _ cls hcls

theorem VariantSteps.unkeyed {nodes : List NodeId} (h : VariantSteps sc c nodes t t')
    (ht : t.Unkeyed) : t'.Unkeyed := by
  induction h with
  | nil => exact ht
  | cons hstep _ ih => exact ih (hstep.unkeyed ht)

theorem Unkeyed.step (h : t.Unkeyed) (hstep : Step sc t t') : t'.Unkeyed := by
  cases hstep with
  | claims | value | nodeClass | progress | fill | widen => exact h
  | newClass hnew => exact forall_push h hnew.key_eq
  | displace hnew =>
    exact forall_push (forall_modify h fun cls hcls => by exact h _ cls hcls) hnew.key_eq
  | base => exact forall_modify h fun cls hcls => by exact h _ cls hcls
  | newField => exact forall_modify h fun cls hcls => by exact h _ cls hcls
  | variants _ _ _ hsteps => exact hsteps.unkeyed h

/-- A key is a field of its class that always holds one value. -/
def Keyed (t : Tables) : Prop := ∀ (c : ClassId) cls, t.classes[c]? = some cls →
    ∀ f, cls.key = some f →
  f ∈ cls.fields ∧ ∃ fld, t.fields[f]? = some fld ∧ fld.cardinality = .scalar

theorem Unkeyed.keyed (h : t.Unkeyed) : t.Keyed := by
  intro c cls hcls f hf
  rw [h c cls hcls] at hf
  cases hf

theorem Keyed.check (h : t.Keyed) (hcheck : Check sc t t') : t'.Keyed := by
  cases hcheck with
  | @key c f fld hf hfld hscalar =>
    refine forall_modify h fun cls hcls f' hf' => ?_
    obtain rfl := Option.some.inj hf'
    exact ⟨hf cls hcls, fld, hfld, hscalar⟩
  | value => exact h
  | retype =>
    intro c cls hcls f hf
    obtain ⟨hmem, fld, hfld, hscalar⟩ := h c cls hcls f hf
    refine ⟨hmem, _, getElem?_modify_eq_some.mpr ⟨fld, hfld, rfl⟩, ?_⟩
    split <;> exact hscalar

end Tables
end AnnotatedGrammar
