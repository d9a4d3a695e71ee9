import Mathlib
import AnnotatedGrammar.Proofs.Analysis.Finish
import AnnotatedGrammar.Proofs.Model.Named

/-!
# Operations as steps

What each operation on a draft does to its tables: nothing, or one step or a few.
-/

namespace AnnotatedGrammar

open Tables

theorem map_modify {α β : Type} {xs : Array α} {i : Nat} {f : α → α} {g : β → β} {m : α → β}
    (h : ∀ a, m (f a) = g (m a)) : (xs.modify i f).map m = (xs.map m).modify i g := by
  refine Array.ext_getElem? fun j => ?_
  rw [Array.getElem?_map, Array.getElem?_modify, Array.getElem?_modify, Array.getElem?_map]
  split
  · cases xs[j]? with
    | none => rfl
    | some a => exact congrArg some (h a)
  · rfl

@[simp] theorem Draft.size_tables_classes (d : Draft) : d.tables.classes.size = d.classes.size :=
  Array.size_map

@[simp] theorem Draft.size_tables_fields (d : Draft) : d.tables.fields.size = d.fields.size :=
  Array.size_map

theorem Draft.tables_classes_getElem? {d : Draft} {c : ClassId} (hc : c < d.classes.size) :
    d.tables.classes[c]? = some (d.classAt c) := by
  unfold tables classAt
  rw [Array.getElem?_map, Array.getD_eq_getD_getElem?, Array.getElem?_eq_getElem hc]
  rfl

theorem Draft.tables_fields_getElem? {d : Draft} {f : FieldId} (hf : f < d.fields.size) :
    d.tables.fields[f]? = some (d.fieldAt f) := by
  unfold tables fieldAt
  rw [Array.getElem?_map, Array.getD_eq_getD_getElem?, Array.getElem?_eq_getElem hf]
  rfl

namespace Build

variable {sc : Scope} {d d' : Draft} {u : Unit} {c : ClassId} {span : Span} {node : NodeId}

/-! ## Errors, values and classes of expressions -/

theorem Faults.tables_eq (h : Faults d d') : d'.tables = d.tables := by
  obtain ⟨errors, rfl, -⟩ := h
  rfl

theorem fault_tables {what : SemanticFault} (h : fault what span d = (u, d')) :
    d'.tables = d.tables :=
  (fault_faults h).tables_eq

theorem recordValue_step {v : Option Value} (h : recordValue node v d = (u, d'))
    (hnode : sc.HasNode node) (hv : d.tables.Holds v) : Tables.Step sc d.tables d'.tables := by
  rw [recordValue_eq h]
  exact .value hnode hv

theorem recordClass_step (h : recordClass node c d = (u, d')) (hnode : sc.HasNode node)
    (hc : c < d.tables.classes.size) : Tables.Step sc d.tables d'.tables := by
  rw [recordClass_eq h]
  exact .nodeClass hnode hc

theorem Finished.steps {e : Expr} {value : Option Value} (h : Finished e value d d')
    (hnode : sc.HasNode e.id) (hvalue : d.tables.Holds value) : Steps sc d.tables d'.tables := by
  obtain ⟨errors, claims, rfl, -, hclaims⟩ := h
  have hclaimed : Tables.Step sc d.tables { d.tables with typeClaims := claims } := by
    refine .claims fun claim hclaim => ?_
    rcases hclaims claim hclaim with hclaim | ⟨heq, hvalue'⟩
    · exact .inl hclaim
    · rw [heq]
      exact .inr ⟨hnode, hvalue claim.value hvalue'⟩
  have hvalued : Tables.Step sc { d.tables with typeClaims := claims }
      { d.tables with typeClaims := claims, nodeValues := d.nodeValues.insert e.id value } :=
    .value hnode hvalue
  exact (Steps.one hclaimed).trans (.one hvalued)

/-! ## Changes of one entry -/

theorem updateClass_tables {f : ClassDraft → ClassDraft} {g : ClassModel → ClassModel}
    (h : updateClass c f d = (u, d')) (hf : ∀ cls, (f cls).model = g cls.model) :
    d'.tables = { d.tables with classes := d.tables.classes.modify c g } := by
  rw [updateClass_eq h]
  unfold Draft.tables
  rw [map_modify hf]

theorem updateField_tables {id : FieldId} {f : FieldDraft → FieldDraft}
    {g : FieldModel → FieldModel} (h : updateField id f d = (u, d'))
    (hf : ∀ fld, (f fld).model = g fld.model) :
    d'.tables = { d.tables with fields := d.tables.fields.modify id g } := by
  rw [updateField_eq h]
  unfold Draft.tables
  rw [map_modify hf]

/-- A change of a class that leaves its part of the model alone. -/
theorem updateClass_kept {f : ClassDraft → ClassDraft} (h : updateClass c f d = (u, d'))
    (hf : ∀ cls, (f cls).model = cls.model) : d'.tables = d.tables := by
  rw [updateClass_tables (g := fun cls => cls) h hf]
  have hsame : d.tables.classes.modify c (fun cls => cls) = d.tables.classes := by
    refine Array.ext_getElem? fun j => ?_
    rw [Array.getElem?_modify]
    split <;> simp
  rw [hsame]

/-! ## Classes -/

/-- The name of a new class is free, or its holder gets a free one. -/
theorem claimClassName_spec {raw name : String} {isNamed : Bool}
    (h : claimClassName sc raw isNamed span d = (name, d'))
    (hbegins : Naming.IsBeginning sc.classPrefix) :
    Naming.IsClassName name ∧
      (d'.tables = d.tables ∧ (∀ other ∈ d.tables.classes, other.name ≠ name) ∨
        ∃ (c : ClassId) (other : ClassModel) (free : String),
          d'.tables = d.tables.rename c free ∧ d.tables.classes[c]? = some other ∧
            other.name = name ∧ Naming.IsClassName free ∧
              ∀ other ∈ d.tables.classes, other.name ≠ free) := by
  unfold claimClassName at h
  obtain ⟨_, _, hget, h⟩ := bind_eq.mp h
  obtain ⟨rfl, rfl⟩ := get_eq.mp hget
  dsimp only at h
  have hwanted : Naming.IsClassName
      ((Naming.className raw sc.classPrefix).getD (sc.classPrefix ++ "Class")) := by
    cases hname : Naming.className raw sc.classPrefix with
    | none => exact Naming.isClassName_default hbegins
    | some name => exact Naming.className_isClassName hbegins hname
  generalize (Naming.className raw sc.classPrefix).getD (sc.classPrefix ++ "Class") = wanted
    at h hwanted
  have hmem {other : ClassModel} (hother : other ∈ d.tables.classes) :
      ∃ cls ∈ d.classes, cls.model = other := by
    simpa [Draft.tables] using hother
  cases hholder : d.classes.findIdx? fun c => c.model.name == wanted with
  | none =>
    rw [hholder] at h
    obtain ⟨rfl, rfl⟩ := pure_eq.mp h
    refine ⟨hwanted, .inl ⟨rfl, fun other hother => ?_⟩⟩
    obtain ⟨cls, hcls, rfl⟩ := hmem hother
    rw [Array.findIdx?_eq_none_iff] at hholder
    exact beq_eq_false_iff_ne.mp (hholder cls hcls)
  | some c =>
    rw [hholder] at h
    dsimp only at h
    have hfree : ∀ other ∈ d.tables.classes, other.name ≠
        Naming.uniqueName wanted d.classes.size fun name =>
          d.classes.any fun c => c.model.name == name := by
      have hfresh := @Naming.uniqueName_fresh wanted d.classes.size
        (fun name => d.classes.any fun c => c.model.name == name)
        (d.classes.toList.map (·.model.name))
        (fun name hname => by
          obtain ⟨cls, hcls, heq⟩ := Array.any_eq_true'.mp hname
          exact List.mem_map.mpr ⟨cls, Array.mem_toList_iff.mpr hcls, beq_iff_eq.mp heq⟩)
        (by simp)
      intro other hother heq
      obtain ⟨cls, hcls, rfl⟩ := hmem hother
      rw [Array.any_eq_false'] at hfresh
      exact hfresh cls hcls (beq_iff_eq.mpr heq)
    have hfreeName := @Naming.uniqueName_induction Naming.IsClassName wanted d.classes.size
      (fun name => d.classes.any fun c => c.model.name == name) hwanted hwanted.numbered
    generalize (Naming.uniqueName wanted d.classes.size fun name =>
      d.classes.any fun c => c.model.name == name) = free at h hfree hfreeName
    split at h
    · split at h
      · obtain ⟨_, d₁, hfault, h⟩ := bind_eq.mp h
        obtain ⟨rfl, rfl⟩ := pure_eq.mp h
        exact ⟨hfreeName, .inl ⟨fault_tables hfault, hfree⟩⟩
      · obtain ⟨_, d₁, hupdate, h⟩ := bind_eq.mp h
        obtain ⟨rfl, rfl⟩ := pure_eq.mp h
        obtain ⟨hc, hname, -⟩ := Array.findIdx?_eq_some_iff_getElem.mp hholder
        refine ⟨hwanted, .inr ⟨c, d.classes[c].model, free,
          updateClass_tables hupdate fun _ => rfl, ?_, by simpa using hname, hfreeName, hfree⟩⟩
        unfold Draft.tables
        rw [Array.getElem?_map, Array.getElem?_eq_getElem hc]
        rfl
    · obtain ⟨rfl, rfl⟩ := pure_eq.mp h
      exact ⟨hfreeName, .inl ⟨rfl, hfree⟩⟩

/-- A new class is a step, and is there afterwards. -/
theorem newClass_step {raw : String} {isNamed : Bool} {kind : ClassKind} {origin : ClassOrigin}
    (h : newClass sc raw isNamed kind origin span d = (c, d'))
    (hbegins : Naming.IsBeginning sc.classPrefix) (horigin : sc.HasOrigin origin) :
    Tables.Step sc d.tables d'.tables ∧ d'.tables.HasKind c kind ∧
      ∀ cls, d'.tables.classes[c]? = some cls → cls.variants = [] := by
  obtain ⟨-, hmade⟩ := newClass_quiet (S := fun _ => False) h
  have hc : c < d'.classes.size := by
    rw [hmade.size_eq, hmade.id_eq]
    exact Nat.lt_succ_self _
  have hget := d'.tables_classes_getElem? hc
  refine ⟨?_, ⟨_, hget, hmade.kind_eq⟩, fun cls hcls => ?_⟩
  · obtain ⟨d₁, hfaults, name, d₂, hname, entries, new, hmodel, rfl⟩ : ∃ d₁, Faults d d₁ ∧
        ∃ name d₂, claimClassName sc raw isNamed span d₁ = (name, d₂) ∧
          ∃ entries, ∃ new : ClassDraft,
            new.model = ⟨d.classes.size, name, raw, kind, none, [], [], none, origin, span⟩ ∧
              d' = { d₂ with entries, classes := d₂.classes.push new } := by
      unfold newClass at h
      obtain ⟨_, _, hget, h⟩ := bind_eq.mp h
      obtain ⟨rfl, rfl⟩ := get_eq.mp hget
      dsimp only at h
      split at h
      · obtain ⟨_, d₁, hfault, h⟩ := bind_eq.mp h
        simp only [bind_eq, modify_eq, pure_eq] at h
        obtain ⟨name, d₂, hname, _, d₃, rfl, rfl, rfl⟩ := h
        exact ⟨d₁, fault_faults hfault, name, d₂, hname, _, _, rfl, rfl⟩
      · simp only [bind_eq, modify_eq, pure_eq] at h
        obtain ⟨name, d₂, hname, _, d₃, rfl, rfl, rfl⟩ := h
        exact ⟨d, .refl d, name, d₂, hname, _, _, rfl, rfl⟩
    obtain ⟨hclassName, hclaimed⟩ := claimClassName_spec hname hbegins
    rw [hfaults.tables_eq] at hclaimed
    have hnew : d.tables.NewClass sc new.model := by
      rw [hmodel]
      exact ⟨d.size_tables_classes.symm, hclassName, rfl, rfl, rfl, rfl, horigin⟩
    have hnewName : new.model.name = name := by rw [hmodel]
    rw [← hnewName] at hclaimed
    have htables : Draft.tables { d₂ with entries, classes := d₂.classes.push new } =
        d₂.tables.addClass new.model := by
      simp only [Draft.tables, Tables.addClass, Array.map_push]
    rw [htables]
    rcases hclaimed with ⟨heq, hfresh⟩ | ⟨other, old, free, heq, hother, hsame, hfree, hfresh⟩
    · rw [heq]
      exact .newClass hnew hfresh
    · rw [heq]
      exact .displace hnew hother hsame hfree hfresh
  · rw [← Option.some.inj (hget.symm.trans hcls)]
    exact hmade.variants_eq

theorem setBase_steps {base : ClassId} (h : setBase c base span d = (u, d'))
    (hbase : d.tables.HasKind base .abstract) : Steps sc d.tables d'.tables := by
  have hfault {what : SemanticFault} (h : fault what span d = (u, d')) :
      Steps sc d.tables d'.tables := by
    rw [fault_tables h]
    exact .refl sc d.tables
  unfold setBase at h
  obtain ⟨_, _, hget, h⟩ := bind_eq.mp h
  obtain ⟨rfl, rfl⟩ := get_eq.mp hget
  dsimp only at h
  split at h
  · exact hfault h
  · cases hold : (d.classAt c).base with
    | none =>
      rw [hold] at h
      have htables : d'.tables = d.tables.setBase c base := updateClass_tables h fun _ => rfl
      rw [htables]
      exact .one (.base hbase)
    | some existing =>
      rw [hold] at h
      dsimp only at h
      split at h
      · obtain ⟨-, rfl⟩ := pure_eq.mp h
        exact .refl sc d.tables
      · exact hfault h

/-! ## Fields -/

/-- What choosing the field for an element comes to: none, a new one, or one that is there. -/
inductive FieldChosen (c : ClassId) (element : ElementType) (r : Option FieldId) (t t' : Tables) :
    Prop
  | none (hr : r = none) (htables : t' = t)
  | fresh (fld : FieldModel) (hr : r = some t.fields.size) (htables : t' = t.addField fld)
    (hid : fld.id = t.fields.size) (howner : fld.owner = c) (helement : fld.element = element)
    (hnodes : fld.nodes = []) (hname : Naming.IsFieldName fld.name)
    (hfresh : ∀ cls, t.classes[c]? = some cls → ∀ f ∈ cls.fields, ∀ other,
      t.fields[f]? = some other → other.name ≠ fld.name)
  | shared (f : FieldId) (k : Cardinality → Cardinality) (hr : r = some f)
    (hf : f < t.fields.size) (htables : t' = t.widen f k) (hk : ∀ k', k'.rank ≤ (k k').rank)

variable {element : ElementType} {cardinality : Cardinality} {branch : Nat} {r : Option FieldId}

theorem pushField_cases {name : String} {sourceName : Option String}
    (h : pushField c name sourceName element cardinality span d = (r, d')) :
    r = none ∧ d'.tables = d.tables ∨
      r = some d.tables.fields.size ∧ d'.tables = d.tables.addField
        { id := d.tables.fields.size, owner := c, name, sourceName, cardinality, element,
          nodes := [] } := by
  unfold pushField at h
  obtain ⟨_, _, hget, h⟩ := bind_eq.mp h
  obtain ⟨rfl, rfl⟩ := get_eq.mp hget
  dsimp only at h
  generalize d.classes.getD c default = holder at h
  split at h
  · split at h
    · simp only [bind_eq, pure_eq] at h
      obtain ⟨_, d₁, hupdate, _, d₂, hfault, rfl, rfl⟩ := h
      exact .inl ⟨rfl, (fault_tables hfault).trans (updateClass_kept hupdate fun _ => rfl)⟩
    · obtain ⟨rfl, rfl⟩ := pure_eq.mp h
      exact .inl ⟨rfl, rfl⟩
  · simp only [bind_eq, modify_eq, pure_eq] at h
    obtain ⟨_, d₁, rfl, _, d₂, hupdate, rfl, rfl⟩ := h
    refine .inr ⟨by rw [Draft.size_tables_fields], ?_⟩
    rw [updateClass_tables (g := fun cls => { cls with fields := cls.fields ++ [d.fields.size] })
      hupdate fun _ => rfl]
    simp only [Draft.tables, Tables.addField, Array.map_push, Array.size_map]

theorem mem_fieldsOf {cls : ClassModel} {f : FieldId} {other : FieldModel}
    (hcls : d.tables.classes[c]? = some cls) (hf : f ∈ cls.fields)
    (hother : d.tables.fields[f]? = some other) : other ∈ d.fieldsOf c := by
  have hc : c < d.classes.size := by
    rw [← d.size_tables_classes]
    exact (Array.getElem?_eq_some_iff.mp hcls).1
  have hlt : f < d.fields.size := by
    rw [← d.size_tables_fields]
    exact (Array.getElem?_eq_some_iff.mp hother).1
  rw [Draft.tables_classes_getElem? hc] at hcls
  rw [Draft.tables_fields_getElem? hlt] at hother
  obtain rfl := Option.some.inj hcls
  obtain rfl := Option.some.inj hother
  exact List.mem_map.mpr ⟨f, hf, rfl⟩

theorem lt_of_mem_fieldsOf (hrange : d.tables.InRange sc) {fld : FieldModel}
    (h : fld ∈ d.fieldsOf c) : fld.id < d.tables.fields.size := by
  obtain ⟨f, hf, rfl⟩ := List.mem_map.mp h
  by_cases hc : c < d.classes.size
  · have hlt := (hrange.classes c _ (Draft.tables_classes_getElem? hc)).fields f hf
    rw [Draft.size_tables_fields] at hlt
    rw [(hrange.fields f _ (Draft.tables_fields_getElem? hlt)).id_eq, Draft.size_tables_fields]
    exact hlt
  · unfold Draft.classAt at hf
    rw [Array.getD_eq_getD_getElem?, Array.getElem?_eq_none (Nat.not_lt.mp hc)] at hf
    cases hf

theorem FieldChosen.of_push {name : String} {sourceName : Option String}
    (h : pushField c name sourceName element cardinality span d = (r, d'))
    (hname : Naming.IsFieldName name) (hfresh : ∀ other ∈ d.fieldsOf c, other.name ≠ name) :
    FieldChosen c element r d.tables d'.tables := by
  rcases pushField_cases h with ⟨rfl, htables⟩ | ⟨rfl, htables⟩
  · exact .none rfl htables
  · exact .fresh _ rfl htables rfl rfl rfl rfl hname fun cls hcls f hf other hother =>
      hfresh other (mem_fieldsOf hcls hf hother)

theorem FieldChosen.of_update {other : FieldModel} {f : FieldDraft → FieldDraft}
    (k : Cardinality → Cardinality) (h : updateField other.id f d = (u, d'))
    (hrange : d.tables.InRange sc) (hother : other ∈ d.fieldsOf c)
    (hf : ∀ fld, (f fld).model = { fld.model with cardinality := k fld.model.cardinality })
    (hk : ∀ k', k'.rank ≤ (k k').rank) : FieldChosen c element (some other.id) d.tables d'.tables :=
  .shared other.id k rfl (lt_of_mem_fieldsOf hrange hother) (updateField_tables h hf) hk

theorem namedField_chosen {raw : String}
    (h : namedField c raw element cardinality branch span d = (r, d'))
    (hrange : d.tables.InRange sc) : FieldChosen c element r d.tables d'.tables := by
  unfold namedField at h
  obtain ⟨_, _, hget, h⟩ := bind_eq.mp h
  obtain ⟨rfl, rfl⟩ := get_eq.mp hget
  dsimp only at h
  cases hname : Naming.fieldName raw with
  | none =>
    rw [hname] at h
    obtain ⟨rfl, rfl⟩ := pure_eq.mp h
    exact .none rfl rfl
  | some name =>
    rw [hname] at h
    dsimp only at h
    cases hfound : (d.fieldsOf c).find? fun f => f.name == name with
    | none =>
      rw [hfound] at h
      refine .of_push h (Naming.fieldName_isFieldName hname) fun other hother => ?_
      simpa using List.find?_eq_none.mp hfound other hother
    | some other =>
      rw [hfound] at h
      dsimp only at h
      have hother := List.mem_of_find?_eq_some hfound
      split at h
      · simp only [bind_eq, pure_eq] at h
        obtain ⟨_, d₁, hfault, rfl, rfl⟩ := h
        exact .none rfl (fault_tables hfault)
      · split at h
        · simp only [bind_eq, pure_eq] at h
          obtain ⟨_, d₁, hfault, rfl, rfl⟩ := h
          exact .none rfl (fault_tables hfault)
        · split at h
          · split at h
            · simp only [bind_eq, pure_eq] at h
              obtain ⟨_, d₁, hfault, rfl, rfl⟩ := h
              exact .none rfl (fault_tables hfault)
            · simp only [bind_eq, pure_eq] at h
              obtain ⟨_, d₁, hupdate, rfl, rfl⟩ := h
              exact .of_update (fun _ => .list) hupdate hrange hother (fun _ => rfl)
                Cardinality.rank_le_list
          · simp only [bind_eq, pure_eq] at h
            obtain ⟨_, d₁, hupdate, rfl, rfl⟩ := h
            exact .of_update (fun k => k.max cardinality) hupdate hrange hother (fun _ => rfl)
              fun k => (Cardinality.rank_le_max k cardinality).1

theorem freeFieldName_spec {base name : String} (h : freeFieldName c base d = (name, d'))
    (hbase : Naming.IsFieldName base) : d' = d ∧ Naming.IsFieldName name ∧
      ∀ other ∈ d.fieldsOf c, other.name ≠ name := by
  unfold freeFieldName at h
  simp only [bind_eq, get_eq, pure_eq] at h
  obtain ⟨_, _, ⟨rfl, rfl⟩, rfl, rfl⟩ := h
  refine ⟨rfl, Naming.uniqueName_induction _ _ hbase hbase.numbered, fun other hother heq => ?_⟩
  refine Naming.uniqueAmong_fresh base ((d.fieldsOf c).map (·.name)) ?_
  rw [← heq]
  exact List.mem_map.mpr ⟨other, hother, rfl⟩

theorem isFieldName_subject (subject : String) :
    Naming.IsFieldName ((Naming.fieldName subject).getD "value") := by
  cases hname : Naming.fieldName subject with
  | none => exact Naming.isFieldName_default
  | some name => exact Naming.fieldName_isFieldName hname

theorem derivedField_chosen {subject : String}
    (h : derivedField c subject element cardinality branch span d = (r, d'))
    (hrange : d.tables.InRange sc) : FieldChosen c element r d.tables d'.tables := by
  unfold derivedField at h
  simp only [bind_eq] at h
  obtain ⟨count, d₁, hcount, _, _, hget, h⟩ := h
  obtain ⟨rfl, rfl⟩ := get_eq.mp hget
  have hkept : d₁.tables = d.tables := by
    unfold countOccurrence at hcount
    simp only [bind_eq, get_eq, pure_eq] at hcount
    obtain ⟨_, _, ⟨rfl, rfl⟩, _, d₂, hupdate, -, rfl⟩ := hcount
    exact updateClass_kept hupdate fun _ => rfl
  rw [← hkept] at hrange ⊢
  have hbase := isFieldName_subject subject
  have hcandidate : Naming.IsFieldName (if count = 1 then (Naming.fieldName subject).getD "value"
      else Naming.numbered ((Naming.fieldName subject).getD "value") count) := by
    split
    · exact hbase
    · exact hbase.numbered count
  generalize (if count = 1 then (Naming.fieldName subject).getD "value"
    else Naming.numbered ((Naming.fieldName subject).getD "value") count) = candidate
    at h hcandidate
  cases hfound : (d₁.fieldsOf c).find? _ with
  | none =>
    rw [hfound] at h
    obtain ⟨name, _, hname, hpush⟩ := bind_eq.mp h
    obtain ⟨rfl, hname, hfresh⟩ := freeFieldName_spec hname hcandidate
    exact .of_push hpush hname hfresh
  | some other =>
    rw [hfound] at h
    simp only [bind_eq, pure_eq] at h
    obtain ⟨_, d₂, hupdate, rfl, rfl⟩ := h
    exact .of_update (fun k => k.max cardinality) hupdate hrange
      (List.mem_of_find?_eq_some hfound) (fun _ => rfl)
      fun k => (Cardinality.rank_le_max k cardinality).1

theorem push_modify {α : Type} (xs : Array α) (a : α) (f : α → α) :
    (xs.push a).modify xs.size f = xs.push (f a) := by
  refine Array.ext_getElem? fun j => ?_
  rw [Array.getElem?_modify, Array.getElem?_push, Array.getElem?_push]
  by_cases hj : j = xs.size
  · rw [if_pos hj.symm, if_pos hj, if_pos hj]
    rfl
  · rw [if_neg (Ne.symm hj), if_neg hj, if_neg hj]

theorem recordField_tables {f : FieldId} (h : recordField node f branch d = (u, d')) :
    d'.tables = d.tables.fill f node := by
  unfold recordField at h
  simp only [bind_eq, modify_eq] at h
  obtain ⟨_, d₁, hupdate, rfl⟩ := h
  have htables := updateField_tables
    (g := fun fld => { fld with nodes := fld.nodes ++ [node] }) hupdate fun _ => rfl
  unfold Draft.tables at htables
  simp only [Tables.mk.injEq] at htables
  unfold Draft.tables Tables.fill
  simp only [htables]

/-- A field is chosen for an expression, and the expression fills it. -/
theorem FieldChosen.filled {t t' : Tables} {id : FieldId}
    (h : FieldChosen c element (some id) t t') (hc : t.HasKind c .concrete)
    (hnode : sc.HasNode node) (helement : t.Knows element) : Steps sc t (t'.fill id node) := by
  cases h with
  | none hr => cases hr
  | fresh fld hr htables hid howner helement' hnodes hname hfresh =>
    obtain rfl := Option.some.inj hr
    subst htables howner helement'
    have hnew : t.NewField sc { fld with nodes := [node] } node :=
      ⟨hid, rfl, hnode, helement, hname, hfresh⟩
    have heq : (t.addField fld).fill t.fields.size node =
        { t.addField { fld with nodes := [node] } with
          nodeFields := t.nodeFields.insert node t.fields.size } := by
      simp only [Tables.addField, Tables.fill, push_modify, hnodes, List.nil_append]
    rw [heq]
    exact .one (.newField hc hnew)
  | shared f k hr hf htables hk =>
    obtain rfl := Option.some.inj hr
    subst htables
    have hwiden : Tables.Step sc t (t.widen id k) := .widen fun fld _ => hk fld.cardinality
    refine (Steps.one hwiden).trans (.one (.fill ?_ hnode))
    simpa [Tables.widen] using hf

/-- Making an expression fill a field of a class is a few steps. -/
theorem addField_steps {e : Expr} {value : Option Value} {outer : Cardinality} {own : Bool}
    (h : addField c e value outer branch own d = (u, d')) (hrange : d.tables.InRange sc)
    (hc : d.tables.HasKind c .concrete) (hnode : sc.HasNode e.id) (hvalue : d.tables.Holds value) :
    Steps sc d.tables d'.tables := by
  cases value with
  | none =>
    unfold addField at h
    obtain ⟨-, rfl⟩ := pure_eq.mp h
    exact .refl sc d.tables
  | some v =>
    obtain ⟨cardinality, field, d₁, hfinds, -, hrecord⟩ := addField_some h
    have hchosen : FieldChosen c v.element field d.tables d₁.tables := by
      cases hfinds with
      | named _ _ hfield => exact namedField_chosen hfield hrange
      | derived hfield => exact derivedField_chosen hfield hrange
    obtain ⟨rfl, rfl⟩ | ⟨id, rfl, hrecord⟩ := hrecord
    · cases hchosen with
      | none _ htables =>
        rw [htables]
        exact .refl sc d.tables
      | fresh _ hr => cases hr
      | shared _ _ hr => cases hr
    · rw [recordField_tables hrecord]
      exact hchosen.filled hc hnode (hvalue v rfl)

/-- Making fields optional is a few steps. -/
theorem relaxAll_steps {start : Draft} {alternatives : Nat} {fields : List FieldId} {w : PUnit}
    (hstart : ∀ f fld, (start.fieldAt f).cardinality = .scalar → d.tables.fields[f]? = some fld →
      fld.cardinality.rank ≤ Cardinality.optional.rank)
    (h : (forIn fields PUnit.unit fun field _ =>
      if (start.branchesOf field).length < alternatives ∧
          (start.fieldAt field).cardinality = .scalar then do
        updateField field fun f => { f with model := { f.model with cardinality := .optional } }
        pure (ForInStep.yield PUnit.unit)
      else pure (ForInStep.yield PUnit.unit) : Build PUnit) d = (w, d')) :
    Steps sc d.tables d'.tables := by
  induction fields generalizing d with
  | nil =>
    obtain ⟨-, rfl⟩ := pure_eq.mp h
    exact .refl sc d.tables
  | cons field rest ih =>
    rw [List.forIn_cons] at h
    obtain ⟨step, d₁, hstep, h⟩ := bind_eq.mp h
    split at hstep
    · rename_i hscalar
      simp only [bind_eq, pure_eq] at hstep
      obtain ⟨_, d₂, hupdate, rfl, hd⟩ := hstep
      subst hd
      have htables : d₂.tables = d.tables.widen field fun _ => .optional :=
        updateField_tables hupdate fun _ => rfl
      have hwiden : Tables.Step sc d.tables d₂.tables := by
        rw [htables]
        exact .widen fun fld hfld => hstart field fld hscalar.2 hfld
      refine (Steps.one hwiden).trans (ih (fun f fld hf hfld => ?_) h)
      rw [htables] at hfld
      obtain ⟨old, hold, rfl⟩ := getElem?_modify_eq_some.mp hfld
      split
      · exact Nat.le_refl _
      · exact hstart f old hf hold
    · obtain ⟨rfl, rfl⟩ := pure_eq.mp hstep
      exact ih hstart h

theorem relaxPartial_steps {alternatives : Nat}
    (h : relaxPartial c alternatives d = (u, d')) : Steps sc d.tables d'.tables := by
  unfold relaxPartial at h
  simp only [bind_eq, get_eq, pure_eq] at h
  obtain ⟨_, _, ⟨rfl, rfl⟩, _, d₁, hloop, -, rfl⟩ := h
  refine relaxAll_steps (fun f fld hf hfld => ?_) hloop
  have hlt : f < d.fields.size := by
    rw [← d.size_tables_fields]
    exact (Array.getElem?_eq_some_iff.mp hfld).1
  rw [Draft.tables_fields_getElem? hlt] at hfld
  rw [← Option.some.inj hfld, hf]
  decide

/-! ## Variants -/

theorem isTag_branchTag (e : Expr) (index : Nat) : Naming.IsTag (branchTag e index) := by
  unfold branchTag
  dsimp only
  cases htag : (e.core.markerValue? .classOf <|> e.tagSource?).bind Naming.tagName with
  | none => exact Naming.isTag_default (index + 1)
  | some tag =>
    obtain ⟨text, -, htext⟩ := Option.bind_eq_some_iff.mp htag
    exact Naming.tagName_isTag htext

theorem newTag_uniqueAmong {base : String} (hc : c < d.tables.classes.size)
    (hbase : Naming.IsTag base) :
    d.tables.NewTag c (Naming.uniqueAmong base ((d.classAt c).variants.map (·.tag))) := by
  refine ⟨Naming.uniqueName_induction _ _ hbase hbase.numbered, fun cls hcls v hv heq => ?_⟩
  rw [Draft.size_tables_classes] at hc
  rw [Draft.tables_classes_getElem? hc] at hcls
  obtain rfl := Option.some.inj hcls
  refine Naming.uniqueAmong_fresh base ((d.classAt c).variants.map (·.tag)) ?_
  rw [← heq]
  exact List.mem_map.mpr ⟨v, hv, rfl⟩

theorem addVariant_step {e : Expr} {index : Nat} {value : Option Value}
    (h : addVariant c e index value d = (u, d')) (hc : c < d.tables.classes.size)
    (hnode : sc.HasNode e.id) (hvalue : d.tables.Holds value) :
    VariantStep sc c e.id d.tables d'.tables := by
  unfold addVariant at h
  obtain ⟨_, _, hget, h⟩ := bind_eq.mp h
  obtain ⟨rfl, rfl⟩ := get_eq.mp hget
  dsimp only at h
  have htag := newTag_uniqueAmong hc (isTag_branchTag e index)
  generalize Naming.uniqueAmong (branchTag e index) ((d.classAt c).variants.map (·.tag)) = tag
    at h htag
  have hupdated {payload : Option FieldId} {d₁ : Draft}
      (hupdate : updateClass c (fun cls =>
        { cls with model := { cls.model with
          variants := cls.model.variants ++ [⟨tag, e.id, payload⟩] } }) d₁ = (u, d')) :
      d'.tables = d₁.tables.addVariant c ⟨tag, e.id, payload⟩ :=
    updateClass_tables hupdate fun _ => rfl
  cases value with
  | none =>
    obtain ⟨payload, d₁, hpayload, hupdate⟩ := bind_eq.mp h
    obtain ⟨rfl, rfl⟩ := pure_eq.mp hpayload
    rw [hupdated hupdate]
    exact .plain htag hnode
  | some v =>
    obtain ⟨name, d₀, hfree, hrest⟩ := bind_eq.mp h
    obtain ⟨rfl, hname, hfresh⟩ := freeFieldName_spec hfree (isFieldName_subject tag)
    obtain ⟨field, d₁, hpush, hlast⟩ := bind_eq.mp hrest
    obtain ⟨cardinality, hcardinality, hpushed⟩ : ∃ cardinality, cardinality ≠ .scalar ∧
        pushField c name none v.element cardinality e.span d₀ = (field, d₁) :=
      ⟨_, by cases v.cardinality <;> decide, hpush⟩
    rcases pushField_cases hpushed with ⟨rfl, htables⟩ | ⟨rfl, htables⟩
    · obtain ⟨_, _, hpure, hupdate⟩ := bind_eq.mp hlast
      obtain ⟨rfl, rfl⟩ := pure_eq.mp hpure
      rw [hupdated hupdate, htables]
      exact .plain htag hnode
    · obtain ⟨_, d₂, hfilled, hlast⟩ := bind_eq.mp hlast
      obtain ⟨_, _, hpure, hupdate⟩ := bind_eq.mp hlast
      obtain ⟨rfl, rfl⟩ := pure_eq.mp hpure
      have hadded : d₂.tables = d₀.tables.addField
          ⟨d₀.tables.fields.size, c, name, none, cardinality, v.element, [e.id]⟩ := by
        rw [updateField_tables (g := fun fld => { fld with nodes := fld.nodes ++ [e.id] })
          hfilled fun _ => rfl, htables]
        simp only [Tables.addField, push_modify, List.nil_append]
      rw [hupdated hupdate, hadded]
      exact .payload htag ⟨rfl, rfl, hnode, hvalue v rfl, hname, fun cls hcls f hf other hother =>
        hfresh other (mem_fieldsOf hcls hf hother)⟩ rfl hcardinality

/-- Adding the variants of all branches of an alternation is a step. -/
theorem addVariants_steps {index : Nat} {branches : List Expr} {values : List (Option Value)}
    (h : addVariants c index (branches.zip values) d = (u, d')) (hc : c < d.tables.classes.size)
    (hlength : values.length = branches.length) (hnodes : ∀ e ∈ branches, sc.HasNode e.id)
    (hvalues : ∀ v ∈ values, d.tables.Holds v) :
    VariantSteps sc c (branches.map (·.id)) d.tables d'.tables := by
  induction branches generalizing index values d with
  | nil =>
    obtain ⟨-, rfl⟩ := pure_eq.mp h
    exact .nil d.tables
  | cons e rest ih =>
    cases values with
    | nil => cases hlength
    | cons v values =>
      rw [List.forall_mem_cons] at hnodes hvalues
      obtain ⟨_, d₁, hfirst, hrest⟩ := bind_eq.mp h
      have hstep := addVariant_step hfirst hc hnodes.1 hvalues.1
      refine .cons hstep (ih hrest (hstep.grows.lt hc) (Nat.succ.inj hlength)
        hnodes.2 fun v hv => ?_)
      exact hstep.grows.holds (hvalues.2 v hv)

end Build
end AnnotatedGrammar
