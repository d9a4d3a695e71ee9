import AnnotatedGrammar.Proofs.Analysis.Frame

/-!
# What the operations on a draft do

Every operation has a frame. Most of them only add to what is there: an error, a class, a field, or
an expression that fills a field.
-/

namespace AnnotatedGrammar

theorem getD_modify {α : Type} [Inhabited α] (xs : Array α) (i j : Nat) (f : α → α) :
    (xs.modify i f).getD j default =
      if i = j ∧ i < xs.size then f (xs.getD i default) else xs.getD j default := by
  simp only [Array.getD_eq_getD_getElem?, Array.getElem?_modify]
  by_cases hij : i = j
  · subst hij
    by_cases hlt : i < xs.size
    · simp [hlt]
    · simp [hlt]
  · simp [hij]

theorem getD_push {α : Type} [Inhabited α] (xs : Array α) (a : α) (j : Nat) :
    (xs.push a).getD j default = if j = xs.size then a else xs.getD j default := by
  simp only [Array.getD_eq_getD_getElem?, Array.getElem?_push]
  split <;> simp_all

namespace Quiet

variable {S : Cell → Prop} {d d' : Draft}

/-- A change of errors, of what is known about expressions, and of claims. -/
theorem of_tables (hclasses : d'.classes = d.classes) (hfields : d'.fields = d.fields)
    (hprogress : d'.progress = d.progress) (hentries : d'.entries = d.entries)
    (herrors : d'.errors = #[] → d.errors = #[])
    (hvalues : ∀ id, ¬S (.value id) → d'.nodeValues.get? id = d.nodeValues.get? id)
    (hnodeClasses : ∀ id, ¬S (.nodeClass id) → d'.nodeClasses.get? id = d.nodeClasses.get? id)
    (hclaims : ∀ claim ∈ d'.typeClaims, claim ∈ d.typeClaims ∨ S (.value claim.node)) :
    Quiet S d d' := by
  have hclassAt : d'.classAt = d.classAt := by
    funext c
    rw [Draft.classAt, Draft.classAt, hclasses]
  have hfieldAt : d'.fieldAt = d.fieldAt := by
    funext f
    rw [Draft.fieldAt, Draft.fieldAt, hfields]
  exact ⟨hprogress, fun bodies => {
    errors_eq := herrors
    wellFormed := fun h => by
      refine ⟨?_, ?_, ?_⟩
      · rw [hfields, hfieldAt]
        exact h.field_id
      · rw [hfields, hfieldAt, hclasses]
        exact h.owner_lt
      · rw [hfields, hfieldAt, hclasses, hclassAt]
        exact h.owner_eq
    unreported := fun h herrors' r => by
      rw [hprogress]
      exact h (herrors herrors') r
    onlyDebug := fun h => by rwa [Draft.OnlyDebug, hentries]
    progress_size := by rw [hprogress]
    progress := fun r p p' hp hp' => by
      rw [hprogress, hp] at hp'
      obtain rfl := Option.some.inj hp'
      exact .same p
    classes_le := Nat.le_of_eq (by rw [hclasses])
    fields_le := Nat.le_of_eq (by rw [hfields])
    kind_eq := fun c _ => by rw [hclassAt]
    origin_eq := fun c _ => by rw [hclassAt]
    base_eq := fun c _ b hb => by rwa [hclassAt]
    variants_ne := fun c _ hne => by rwa [hclassAt]
    owner_eq := fun f _ => by rw [hfieldAt]
    element_eq := fun f _ => by rw [hfieldAt]
    rank_le := fun f _ => Nat.le_of_eq (by rw [hfieldAt])
    same := fun cell _ hS _ => by
      cases cell with
      | value id => exact hvalues id hS
      | nodeClass id => exact hnodeClasses id hS
      | filling c id =>
        intro f hf _ hid
        rw [hfields] at hf
        rw [hfieldAt] at hid
        exact ⟨hf, hid⟩
      | variants c => rw [Cell.Same, hclassAt]
    claims := fun claim hclaim => by
      rcases hclaims claim hclaim with h | h
      · exact .inl h
      · exact .inr (.inl h) }⟩

/-- A change of a class that keeps its kind, origin and base, and all of whose new fields are its
own. -/
theorem of_class (c : ClassId) (f : ClassDraft → ClassDraft)
    (hkind : (f (d.classes.getD c default)).model.kind = (d.classAt c).kind)
    (horigin : (f (d.classes.getD c default)).model.origin = (d.classAt c).origin)
    (hbase : ∀ b, (d.classAt c).base = some b →
      (f (d.classes.getD c default)).model.base = some b)
    (hfields : ∀ id ∈ (f (d.classes.getD c default)).model.fields, id ∈ (d.classAt c).fields ∨
      id < d.fields.size ∧ (d.fieldAt id).owner = c)
    (hne : (d.classAt c).variants ≠ [] →
      (f (d.classes.getD c default)).model.variants ≠ [])
    (hvariants : ¬S (.variants c) →
      (f (d.classes.getD c default)).model.variants = (d.classAt c).variants) :
    Quiet S d { d with classes := d.classes.modify c f } := by
  have hclassAt (c' : ClassId) :
      Draft.classAt { d with classes := d.classes.modify c f } c' =
        if c = c' ∧ c < d.classes.size then (f (d.classes.getD c default)).model
        else d.classAt c' := by
    simp only [Draft.classAt, getD_modify]
    split <;> rfl
  exact ⟨rfl, fun bodies => {
    errors_eq := fun h => h
    wellFormed := fun h => by
      refine ⟨h.field_id, fun id hid => ?_, fun c' hc' id hid => ?_⟩
      · rw [Array.size_modify]
        exact h.owner_lt id hid
      · rw [Array.size_modify] at hc'
        rw [hclassAt] at hid
        split at hid
        · rename_i heq
          obtain ⟨rfl, hlt⟩ := heq
          rcases hfields id hid with hid | hid
          · exact h.owner_eq c hlt id hid
          · exact hid
        · exact h.owner_eq c' hc' id hid
    unreported := fun h => h
    onlyDebug := fun h => h
    progress_size := rfl
    progress := fun r p p' hp hp' => by
      obtain rfl := Option.some.inj (hp.symm.trans hp')
      exact .same p
    classes_le := Nat.le_of_eq (by rw [Array.size_modify])
    fields_le := Nat.le_refl _
    kind_eq := fun c' _ => by
      rw [hclassAt]
      split
      · rename_i heq
        rw [← heq.1, hkind]
      · rfl
    origin_eq := fun c' _ => by
      rw [hclassAt]
      split
      · rename_i heq
        rw [← heq.1, horigin]
      · rfl
    base_eq := fun c' _ b hb => by
      rw [hclassAt]
      split
      · rename_i heq
        rw [← heq.1] at hb
        exact hbase b hb
      · exact hb
    variants_ne := fun c' _ h => by
      rw [hclassAt]
      split
      · rename_i heq
        rw [← heq.1] at h
        exact hne h
      · exact h
    owner_eq := fun _ _ => rfl
    element_eq := fun _ _ => rfl
    rank_le := fun _ _ => Nat.le_refl _
    same := fun cell _ hS _ => by
      cases cell with
      | value | nodeClass => rfl
      | filling => exact fun f hf _ hid => ⟨hf, hid⟩
      | variants c' =>
        rw [Cell.Same, hclassAt]
        split
        · rename_i heq
          obtain ⟨rfl, -⟩ := heq
          exact hvariants hS
        · rfl
    claims := fun _ h => .inl h }⟩

/-- A change of a field that keeps what it is a field of and what it holds. -/
theorem of_field (field : FieldId) (f : FieldDraft → FieldDraft)
    (hid : (f (d.fields.getD field default)).model.id = (d.fieldAt field).id)
    (howner : (f (d.fields.getD field default)).model.owner = (d.fieldAt field).owner)
    (helement : (f (d.fields.getD field default)).model.element = (d.fieldAt field).element)
    (hrank : (d.fieldAt field).cardinality.rank ≤
      (f (d.fields.getD field default)).model.cardinality.rank)
    (hnodes : ∀ id ∈ (f (d.fields.getD field default)).model.nodes,
      id ∈ (d.fieldAt field).nodes ∨ S (.filling (d.fieldAt field).owner id)) :
    Quiet S d { d with fields := d.fields.modify field f } := by
  have hfieldAt (g : FieldId) :
      Draft.fieldAt { d with fields := d.fields.modify field f } g =
        if field = g ∧ field < d.fields.size then (f (d.fields.getD field default)).model
        else d.fieldAt g := by
    simp only [Draft.fieldAt, getD_modify]
    split <;> rfl
  have hownerAt (g : FieldId) :
      (Draft.fieldAt { d with fields := d.fields.modify field f } g).owner =
        (d.fieldAt g).owner := by
    rw [hfieldAt]
    split
    · rename_i heq
      rw [← heq.1, howner]
    · rfl
  exact ⟨rfl, fun bodies => {
    errors_eq := fun h => h
    wellFormed := fun h => by
      refine ⟨fun g hg => ?_, fun g hg => ?_, fun c hc g hg => ?_⟩
      · rw [Array.size_modify] at hg
        rw [hfieldAt]
        split
        · rename_i heq
          obtain ⟨rfl, -⟩ := heq
          rw [hid, h.field_id field hg]
        · exact h.field_id g hg
      · rw [Array.size_modify] at hg
        rw [hownerAt]
        exact h.owner_lt g hg
      · rw [Array.size_modify, hownerAt]
        exact h.owner_eq c hc g hg
    unreported := fun h => h
    onlyDebug := fun h => h
    progress_size := rfl
    progress := fun r p p' hp hp' => by
      obtain rfl := Option.some.inj (hp.symm.trans hp')
      exact .same p
    classes_le := Nat.le_refl _
    fields_le := Nat.le_of_eq (by rw [Array.size_modify])
    kind_eq := fun _ _ => rfl
    origin_eq := fun _ _ => rfl
    base_eq := fun _ _ _ h => h
    variants_ne := fun _ _ h => h
    owner_eq := fun g _ => hownerAt g
    element_eq := fun g _ => by
      rw [hfieldAt]
      split
      · rename_i heq
        rw [← heq.1, helement]
      · rfl
    rank_le := fun g _ => by
      rw [hfieldAt]
      split
      · rename_i heq
        rw [← heq.1]
        exact hrank
      · exact Nat.le_refl _
    same := fun cell _ hS _ => by
      cases cell with
      | value | nodeClass | variants => rfl
      | filling c id =>
        intro g hg howner' hmem
        rw [Array.size_modify] at hg
        rw [hownerAt] at howner'
        rw [hfieldAt] at hmem
        split at hmem
        · rename_i heq
          obtain ⟨rfl, -⟩ := heq
          rcases hnodes id hmem with hmem | hfills
          · exact ⟨hg, hmem⟩
          · rw [howner'] at hfills
            exact absurd hfills hS
        · exact ⟨hg, hmem⟩
    claims := fun _ h => .inl h }⟩

/-- A new class without fields. -/
theorem of_push_class (new : ClassDraft) (entries : Array Log.Entry)
    (hfields : new.model.fields = [])
    (hentries : d.OnlyDebug → ∀ e ∈ entries, e.level = .debug) :
    Quiet S d { d with entries, classes := d.classes.push new } := by
  have hclassAt (c : ClassId) (hc : c < d.classes.size) :
      Draft.classAt { d with entries, classes := d.classes.push new } c = d.classAt c := by
    simp only [Draft.classAt, getD_push]
    rw [if_neg (Nat.ne_of_lt hc)]
  exact ⟨rfl, fun bodies => {
    errors_eq := fun h => h
    wellFormed := fun h => by
      refine ⟨h.field_id, fun f hf => ?_, fun c hc f hf => ?_⟩
      · rw [Array.size_push]
        exact Nat.lt_succ_of_lt (h.owner_lt f hf)
      · rw [Array.size_push] at hc
        rcases Nat.lt_succ_iff_lt_or_eq.mp hc with hc | rfl
        · rw [hclassAt c hc] at hf
          exact h.owner_eq c hc f hf
        · simp only [Draft.classAt, getD_push, if_true, hfields] at hf
          cases hf
    unreported := fun h => h
    onlyDebug := hentries
    progress_size := rfl
    progress := fun r p p' hp hp' => by
      obtain rfl := Option.some.inj (hp.symm.trans hp')
      exact .same p
    classes_le := by
      rw [Array.size_push]
      exact Nat.le_succ _
    fields_le := Nat.le_refl _
    kind_eq := fun c hc => by rw [hclassAt c hc]
    origin_eq := fun c hc => by rw [hclassAt c hc]
    base_eq := fun c hc b hb => by rwa [hclassAt c hc]
    variants_ne := fun c hc h => by rwa [hclassAt c hc]
    owner_eq := fun _ _ => rfl
    element_eq := fun _ _ => rfl
    rank_le := fun _ _ => Nat.le_refl _
    same := fun cell hold _ _ => by
      cases cell with
      | value | nodeClass => rfl
      | filling => exact fun f hf _ hid => ⟨hf, hid⟩
      | variants c => rw [Cell.Same, hclassAt c hold]
    claims := fun _ h => .inl h }⟩

/-- A new field that nothing fills. -/
theorem of_push_field (new : FieldDraft) (hid : new.model.id = d.fields.size)
    (howner : new.model.owner < d.classes.size) (hnodes : new.model.nodes = []) :
    Quiet S d { d with fields := d.fields.push new } := by
  have hfieldAt (f : FieldId) (hf : f < d.fields.size) :
      Draft.fieldAt { d with fields := d.fields.push new } f = d.fieldAt f := by
    simp only [Draft.fieldAt, getD_push]
    rw [if_neg (Nat.ne_of_lt hf)]
  have hnew : Draft.fieldAt { d with fields := d.fields.push new } d.fields.size = new.model := by
    simp only [Draft.fieldAt, getD_push, if_true]
  exact ⟨rfl, fun bodies => {
    errors_eq := fun h => h
    wellFormed := fun h => by
      refine ⟨fun f hf => ?_, fun f hf => ?_, fun c hc f hf => ?_⟩
      · rw [Array.size_push] at hf
        rcases Nat.lt_succ_iff_lt_or_eq.mp hf with hf | rfl
        · rw [hfieldAt f hf]
          exact h.field_id f hf
        · rw [hnew, hid]
      · rw [Array.size_push] at hf
        rcases Nat.lt_succ_iff_lt_or_eq.mp hf with hf | rfl
        · rw [hfieldAt f hf]
          exact h.owner_lt f hf
        · rw [hnew]
          exact howner
      · obtain ⟨hlt, hown⟩ := h.owner_eq c hc f hf
        rw [Array.size_push, hfieldAt f hlt]
        exact ⟨Nat.lt_succ_of_lt hlt, hown⟩
    unreported := fun h => h
    onlyDebug := fun h => h
    progress_size := rfl
    progress := fun r p p' hp hp' => by
      obtain rfl := Option.some.inj (hp.symm.trans hp')
      exact .same p
    classes_le := Nat.le_refl _
    fields_le := by
      rw [Array.size_push]
      exact Nat.le_succ _
    kind_eq := fun _ _ => rfl
    origin_eq := fun _ _ => rfl
    base_eq := fun _ _ _ h => h
    variants_ne := fun _ _ h => h
    owner_eq := fun f hf => by rw [hfieldAt f hf]
    element_eq := fun f hf => by rw [hfieldAt f hf]
    rank_le := fun f hf => Nat.le_of_eq (by rw [hfieldAt f hf])
    same := fun cell _ _ _ => by
      cases cell with
      | value | nodeClass | variants => rfl
      | filling c id =>
        intro f hf _ hmem
        rw [Array.size_push] at hf
        rcases Nat.lt_succ_iff_lt_or_eq.mp hf with hf | rfl
        · rw [hfieldAt f hf] at hmem
          exact ⟨hf, hmem⟩
        · rw [hnew, hnodes] at hmem
          cases hmem
    claims := fun _ h => .inl h }⟩

end Quiet

namespace Build

variable {S : Cell → Prop} {d d' : Draft} {u : Unit}

theorem size_push_ne {α : Type} (xs : Array α) (a : α) : xs.push a ≠ #[] := by
  intro h
  have hsize := congrArg Array.size h
  rw [Array.size_push] at hsize
  cases hsize

/-! ## Errors and what is known about expressions -/

theorem fault_eq {what : SemanticFault} {span : Span} (h : fault what span d = (u, d')) :
    d' = { d with errors := d.errors.push ⟨what, span⟩ } := by
  unfold fault at h
  rw [modify_eq] at h
  exact h.symm

theorem fault_errors {what : SemanticFault} {span : Span} (h : fault what span d = (u, d')) :
    d'.errors ≠ #[] := by
  rw [fault_eq h]
  exact size_push_ne _ _

theorem fault_quiet {what : SemanticFault} {span : Span} (h : fault what span d = (u, d')) :
    Quiet S d d' := by
  have herrors := fault_errors h
  rw [fault_eq h] at herrors ⊢
  exact .of_tables rfl rfl rfl rfl (fun h => absurd h herrors) (fun _ _ => rfl) (fun _ _ => rfl)
    fun _ h => .inl h

theorem recordValue_eq {node : NodeId} {v : Option Value} (h : recordValue node v d = (u, d')) :
    d' = { d with nodeValues := d.nodeValues.insert node v } := by
  unfold recordValue at h
  rw [modify_eq] at h
  exact h.symm

theorem recordValue_quiet {node : NodeId} {v : Option Value}
    (h : recordValue node v d = (u, d')) (hS : S (.value node)) : Quiet S d d' := by
  rw [recordValue_eq h]
  refine .of_tables rfl rfl rfl rfl (fun h => h) (fun id hid => ?_)
    (fun _ _ => rfl) fun _ h => .inl h
  rw [NodeTable.get?_insert, if_neg]
  rintro rfl
  exact hid hS

theorem recordValue_get? {node : NodeId} {v : Option Value} (h : recordValue node v d = (u, d')) :
    d'.nodeValues.get? node = some v := by
  rw [recordValue_eq h, NodeTable.get?_insert, if_pos rfl]

theorem recordClass_eq {node : NodeId} {c : ClassId} (h : recordClass node c d = (u, d')) :
    d' = { d with nodeClasses := d.nodeClasses.insert node c } := by
  unfold recordClass at h
  rw [modify_eq] at h
  exact h.symm

theorem recordClass_quiet {node : NodeId} {c : ClassId} (h : recordClass node c d = (u, d'))
    (hS : S (.nodeClass node)) : Quiet S d d' := by
  rw [recordClass_eq h]
  refine .of_tables rfl rfl rfl rfl (fun h => h) (fun _ _ => rfl)
    (fun id hid => ?_) fun _ h => .inl h
  rw [NodeTable.get?_insert, if_neg]
  rintro rfl
  exact hid hS

theorem recordClass_get? {node : NodeId} {c : ClassId} (h : recordClass node c d = (u, d')) :
    d'.nodeClasses.get? node = some c := by
  rw [recordClass_eq h, NodeTable.get?_insert, if_pos rfl]

/-! ## Classes -/

theorem updateClass_eq {c : ClassId} {f : ClassDraft → ClassDraft}
    (h : updateClass c f d = (u, d')) : d' = { d with classes := d.classes.modify c f } := by
  unfold updateClass at h
  rw [modify_eq] at h
  exact h.symm

theorem updateClass_classAt {c : ClassId} {f : ClassDraft → ClassDraft}
    (h : updateClass c f d = (u, d')) (c' : ClassId) :
    d'.classAt c' = if c = c' ∧ c < d.classes.size then (f (d.classes.getD c default)).model
      else d.classAt c' := by
  unfold updateClass at h
  rw [modify_eq] at h
  subst h
  simp only [Draft.classAt, getD_modify]
  split <;> rfl

theorem updateClass_quiet {c : ClassId} {f : ClassDraft → ClassDraft}
    (h : updateClass c f d = (u, d'))
    (hkind : (f (d.classes.getD c default)).model.kind = (d.classAt c).kind)
    (horigin : (f (d.classes.getD c default)).model.origin = (d.classAt c).origin)
    (hbase : ∀ b, (d.classAt c).base = some b →
      (f (d.classes.getD c default)).model.base = some b)
    (hfields : ∀ id ∈ (f (d.classes.getD c default)).model.fields, id ∈ (d.classAt c).fields ∨
      id < d.fields.size ∧ (d.fieldAt id).owner = c)
    (hvariants : (f (d.classes.getD c default)).model.variants = (d.classAt c).variants) :
    Quiet S d d' := by
  unfold updateClass at h
  rw [modify_eq] at h
  subst h
  exact .of_class c f hkind horigin hbase hfields (fun hne => by rwa [hvariants]) fun _ => hvariants

theorem claimClassName_quiet {sc : Scope} {raw name : String} {isNamed : Bool} {span : Span}
    (h : claimClassName sc raw isNamed span d = (name, d')) :
    Quiet S d d' ∧ d'.classes.size = d.classes.size ∧ d'.fields = d.fields := by
  unfold claimClassName at h
  rw [bind_eq] at h
  obtain ⟨_, _, hget, h⟩ := h
  obtain ⟨rfl, rfl⟩ := get_eq.mp hget
  dsimp only at h
  generalize d.classes.findIdx? _ = holder at h
  cases holder with
  | none =>
    obtain ⟨-, rfl⟩ := pure_eq.mp h
    exact ⟨.refl S d, rfl, rfl⟩
  | some other =>
    dsimp only at h
    split at h
    · split at h
      · obtain ⟨_, d₁, hfault, h⟩ := bind_eq.mp h
        obtain ⟨-, rfl⟩ := pure_eq.mp h
        refine ⟨fault_quiet hfault, ?_⟩
        rw [fault_eq hfault]
        exact ⟨rfl, rfl⟩
      · obtain ⟨_, d₁, hupdate, h⟩ := bind_eq.mp h
        obtain ⟨-, rfl⟩ := pure_eq.mp h
        refine ⟨updateClass_quiet hupdate rfl rfl (fun _ h => h) (fun _ h => .inl h) rfl, ?_, ?_⟩
        · rw [updateClass_eq hupdate, Array.size_modify]
        · rw [updateClass_eq hupdate]
    · obtain ⟨-, rfl⟩ := pure_eq.mp h
      exact ⟨.refl S d, rfl, rfl⟩

/-- A class that was just made. -/
structure Made (kind : ClassKind) (origin : ClassOrigin) (c : ClassId) (d d' : Draft) : Prop where
  id_eq : c = d.classes.size
  size_eq : d'.classes.size = d.classes.size + 1
  kind_eq : (d'.classAt c).kind = kind
  origin_eq : (d'.classAt c).origin = origin
  variants_eq : (d'.classAt c).variants = []
  fields_eq : d'.fields = d.fields

theorem newClass_quiet {sc : Scope} {raw : String} {isNamed : Bool} {kind : ClassKind}
    {origin : ClassOrigin} {span : Span} {c : ClassId}
    (h : newClass sc raw isNamed kind origin span d = (c, d')) :
    Quiet S d d' ∧ Made kind origin c d d' := by
  obtain ⟨d₁, hd₁, name, d₂, hname, entries, hentries, new, hmodel, rfl, rfl⟩ :
      ∃ d₁, (Quiet S d d₁ ∧ d₁.classes.size = d.classes.size ∧ d₁.fields = d.fields) ∧ ∃ name d₂,
        claimClassName sc raw isNamed span d₁ = (name, d₂) ∧ ∃ entries,
          (d₂.OnlyDebug → ∀ e ∈ entries, e.level = .debug) ∧ ∃ new,
          (new.model.kind = kind ∧ new.model.origin = origin ∧ new.model.fields = [] ∧
            new.model.variants = []) ∧
            c = d.classes.size ∧ d' = { d₂ with entries, classes := d₂.classes.push new } := by
    unfold newClass at h
    obtain ⟨_, _, hget, h⟩ := bind_eq.mp h
    obtain ⟨rfl, rfl⟩ := get_eq.mp hget
    dsimp only at h
    split at h
    · obtain ⟨_, d₁, hfault, h⟩ := bind_eq.mp h
      simp only [bind_eq, modify_eq, pure_eq] at h
      obtain ⟨name, d₂, hname, _, d₃, rfl, rfl, rfl⟩ := h
      have hkept : d₁.classes.size = d.classes.size ∧ d₁.fields = d.fields := by
        rw [fault_eq hfault]
        exact ⟨rfl, rfl⟩
      exact ⟨d₁, ⟨fault_quiet hfault, hkept⟩, name, d₂, hname, _,
        fun h => Draft.OnlyDebug.report h _ _ _, _, ⟨rfl, rfl, rfl, rfl⟩, rfl, rfl⟩
    · simp only [bind_eq, modify_eq, pure_eq] at h
      obtain ⟨name, d₂, hname, _, d₃, rfl, rfl, rfl⟩ := h
      exact ⟨d, ⟨.refl S d, rfl, rfl⟩, name, d₂, hname, _,
        fun h => Draft.OnlyDebug.report h _ _ _, _, ⟨rfl, rfl, rfl, rfl⟩, rfl, rfl⟩
  obtain ⟨hquiet, hsize, hfields⟩ := claimClassName_quiet (S := S) hname
  rw [hd₁.2.1] at hsize
  rw [hd₁.2.2] at hfields
  have hlast : Draft.classAt { d₂ with entries, classes := d₂.classes.push new } d.classes.size =
      new.model := by
    simp only [Draft.classAt, getD_push, hsize, if_true]
  refine ⟨(hd₁.1.trans hquiet).trans (.of_push_class _ _ hmodel.2.2.1 hentries), rfl, ?_, ?_, ?_,
    ?_, hfields⟩
  · rw [Array.size_push, hsize]
  · rw [hlast, hmodel.1]
  · rw [hlast, hmodel.2.1]
  · rw [hlast, hmodel.2.2.2]

theorem setBase_spec {c base : ClassId} {span : Span} (h : setBase c base span d = (u, d')) :
    Quiet S d d' ∧ (d'.classes.size = d.classes.size ∧ d'.fields = d.fields) ∧
      (d'.errors = #[] → c < d.classes.size → (d'.classAt c).base = some base) := by
  unfold setBase at h
  obtain ⟨_, _, hget, h⟩ := bind_eq.mp h
  obtain ⟨rfl, rfl⟩ := get_eq.mp hget
  dsimp only at h
  have hfault {what : SemanticFault} (h : fault what span d = (u, d')) :
      Quiet S d d' ∧ (d'.classes.size = d.classes.size ∧ d'.fields = d.fields) ∧
        (d'.errors = #[] → c < d.classes.size → (d'.classAt c).base = some base) := by
    refine ⟨fault_quiet h, ?_, fun herrors => absurd herrors (fault_errors h)⟩
    rw [fault_eq h]
    exact ⟨rfl, rfl⟩
  split at h
  · exact hfault h
  · cases hbase : (d.classAt c).base with
    | none =>
      rw [hbase] at h
      refine ⟨updateClass_quiet h rfl rfl (fun b hb => ?_) (fun _ h => .inl h) rfl, ?_,
        fun _ hlt => ?_⟩
      · rw [hbase] at hb
        cases hb
      · rw [updateClass_eq h]
        exact ⟨Array.size_modify, rfl⟩
      · rw [updateClass_classAt h, if_pos ⟨rfl, hlt⟩]
    | some existing =>
      rw [hbase] at h
      dsimp only at h
      split at h
      · rename_i heq
        obtain ⟨-, rfl⟩ := pure_eq.mp h
        exact ⟨.refl S d, ⟨rfl, rfl⟩, fun _ _ => heq ▸ hbase⟩
      · exact hfault h

end Build
end AnnotatedGrammar
