import Mathlib
import AnnotatedGrammar.Proofs.Analysis.Operations

/-!
# How fields come about

An element that has a value fills a field that holds it: a new field, or one of its class that was
made for elements of the same type. The cardinality of such a field only becomes more general.
-/

namespace AnnotatedGrammar

/-- Everything a field of a class is looked up by is among the fields of a well-formed draft. -/
theorem Draft.WellFormed.of_mem_fieldsOf {d : Draft} (h : d.WellFormed) {c : ClassId}
    (hc : c < d.classes.size) {field : FieldModel} (hfield : field ∈ d.fieldsOf c) :
    field.id < d.fields.size ∧ field = d.fieldAt field.id ∧ field.owner = c := by
  obtain ⟨f, hf, rfl⟩ := List.mem_map.mp hfield
  obtain ⟨hlt, howner⟩ := h.owner_eq c hc f hf
  rw [h.field_id f hlt]
  exact ⟨hlt, rfl, howner⟩

namespace Build

variable {S : Cell → Prop} {d d' : Draft} {u : Unit} {c : ClassId} {element : ElementType}
  {cardinality : Cardinality} {branch : Nat} {span : Span} {r : Option FieldId}

theorem updateField_fieldAt {field : FieldId} {f : FieldDraft → FieldDraft}
    (h : updateField field f d = (u, d')) (g : FieldId) :
    d'.fieldAt g = if field = g ∧ field < d.fields.size then
      (f (d.fields.getD field default)).model else d.fieldAt g := by
  unfold updateField at h
  rw [modify_eq] at h
  subst h
  simp only [Draft.fieldAt, getD_modify]
  split <;> rfl

theorem updateField_eq {field : FieldId} {f : FieldDraft → FieldDraft}
    (h : updateField field f d = (u, d')) : d' = { d with fields := d.fields.modify field f } := by
  unfold updateField at h
  rw [modify_eq] at h
  exact h.symm

/-- A field, if there is one, that belongs to a class and may hold what an element yields. -/
def Offers (c : ClassId) (element : ElementType) (cardinality : Cardinality)
    (r : Option FieldId) (d : Draft) : Prop :=
  ∀ f, r = some f → f < d.fields.size ∧ (d.fieldAt f).owner = c ∧
    (d.fieldAt f).element = element ∧ cardinality.rank ≤ (d.fieldAt f).cardinality.rank

theorem Offers.none : Offers c element cardinality none d := by
  intro f hf
  cases hf

theorem pushField_spec {name : String} {sourceName : Option String}
    (h : pushField c name sourceName element cardinality span d = (r, d'))
    (hc : c < d.classes.size) : Quiet S d d' ∧ Offers c element cardinality r d' := by
  unfold pushField at h
  obtain ⟨_, _, hget, h⟩ := bind_eq.mp h
  obtain ⟨rfl, rfl⟩ := get_eq.mp hget
  dsimp only at h
  generalize d.classes.getD c default = holder at h
  split at h
  · split at h
    · simp only [bind_eq, pure_eq] at h
      obtain ⟨_, d₁, hupdate, _, d₂, hfault, rfl, rfl⟩ := h
      have hclass : Quiet S d d₁ :=
        updateClass_quiet hupdate rfl rfl (fun _ h => h) (fun _ h => .inl h) rfl
      exact ⟨hclass.trans (fault_quiet hfault), .none⟩
    · obtain ⟨rfl, rfl⟩ := pure_eq.mp h
      exact ⟨.refl S d, .none⟩
  · simp only [bind_eq, modify_eq, pure_eq] at h
    obtain ⟨_, d₁, rfl, _, d₂, hupdate, rfl, rfl⟩ := h
    have hpush : Quiet S d _ :=
      .of_push_field ⟨⟨d.fields.size, c, name, sourceName, cardinality, element, []⟩, []⟩ rfl hc rfl
    have hnew : ∀ new : FieldDraft,
        Draft.fieldAt { d with fields := d.fields.push new } d.fields.size = new.model := by
      intro new
      simp only [Draft.fieldAt, getD_push, if_true]
    refine ⟨hpush.trans (updateClass_quiet hupdate rfl rfl (fun _ h => h) (fun id hid => ?_) rfl),
      fun f hf => ?_⟩
    · rcases List.mem_append.mp hid with hid | hid
      · exact .inl hid
      · obtain rfl := List.mem_singleton.mp hid
        refine .inr ⟨?_, ?_⟩
        · rw [Array.size_push]
          exact Nat.lt_succ_self _
        · rw [hnew]
    · obtain rfl := Option.some.inj hf
      rw [updateClass_eq hupdate]
      change d.fields.size < (d.fields.push _).size ∧
        (Draft.fieldAt { d with fields := d.fields.push _ } d.fields.size).owner = c ∧
          (Draft.fieldAt { d with fields := d.fields.push _ } d.fields.size).element = element ∧
            cardinality.rank ≤
              (Draft.fieldAt { d with fields := d.fields.push _ } d.fields.size).cardinality.rank
      rw [Array.size_push, hnew]
      exact ⟨Nat.lt_succ_self _, rfl, rfl, Nat.le_refl _⟩

/-- A field of the class becomes more general. -/
theorem updateField_offers (cardinality : Cardinality) {other : FieldModel}
    {f : FieldDraft → FieldDraft} (h : updateField other.id f d = (u, d')) (hwf : d.WellFormed)
    (hc : c < d.classes.size)
    (hother : other ∈ d.fieldsOf c) (helement : other.element = element)
    (hid : ∀ x, (f x).model.id = x.model.id) (howner : ∀ x, (f x).model.owner = x.model.owner)
    (helem : ∀ x, (f x).model.element = x.model.element)
    (hnodes : ∀ x, (f x).model.nodes = x.model.nodes)
    (hrank : ∀ x, x.model.cardinality.rank ≤ (f x).model.cardinality.rank ∧
      cardinality.rank ≤ (f x).model.cardinality.rank) :
    Quiet S d d' ∧ Offers c element cardinality (some other.id) d' := by
  obtain ⟨hlt, hfield, hown⟩ := hwf.of_mem_fieldsOf hc hother
  have hat := updateField_fieldAt h other.id
  rw [if_pos ⟨rfl, hlt⟩] at hat
  refine ⟨?_, fun g hg => ?_⟩
  · rw [updateField_eq h]
    exact .of_field other.id f (hid _) (howner _) (helem _) (hrank _).1 fun id hmem =>
      .inl (hnodes _ ▸ hmem)
  · obtain rfl := Option.some.inj hg
    rw [hat, howner, helem]
    refine ⟨?_, ?_, ?_, (hrank _).2⟩
    · rw [updateField_eq h, Array.size_modify]
      exact hlt
    · exact (congrArg FieldModel.owner hfield).symm.trans hown
    · exact (congrArg FieldModel.element hfield).symm.trans helement

theorem namedField_spec {raw : String}
    (h : namedField c raw element cardinality branch span d = (r, d')) (hwf : d.WellFormed)
    (hc : c < d.classes.size) : Quiet S d d' ∧ Offers c element cardinality r d' := by
  unfold namedField at h
  obtain ⟨_, _, hget, h⟩ := bind_eq.mp h
  obtain ⟨rfl, rfl⟩ := get_eq.mp hget
  dsimp only at h
  cases hname : Naming.fieldName raw with
  | none =>
    rw [hname] at h
    obtain ⟨rfl, rfl⟩ := pure_eq.mp h
    exact ⟨.refl S d, .none⟩
  | some name =>
    rw [hname] at h
    dsimp only at h
    cases hfound : (d.fieldsOf c).find? fun f => f.name == name with
    | none =>
      rw [hfound] at h
      exact pushField_spec h hc
    | some other =>
      rw [hfound] at h
      dsimp only at h
      have hother := List.mem_of_find?_eq_some hfound
      have hfaulted {what : SemanticFault} {d₁ : Draft} {v : Unit}
          (hfault : fault what span d = (v, d₁)) :
          Quiet S d d₁ ∧ Offers c element cardinality none d₁ :=
        ⟨fault_quiet hfault, .none⟩
      split at h
      · simp only [bind_eq, pure_eq] at h
        obtain ⟨_, d₁, hfault, rfl, rfl⟩ := h
        exact hfaulted hfault
      · split at h
        · simp only [bind_eq, pure_eq] at h
          obtain ⟨_, d₁, hfault, rfl, rfl⟩ := h
          exact hfaulted hfault
        · rename_i helement
          rw [not_not] at helement
          split at h
          · split at h
            · simp only [bind_eq, pure_eq] at h
              obtain ⟨_, d₁, hfault, rfl, rfl⟩ := h
              exact hfaulted hfault
            · simp only [bind_eq, pure_eq] at h
              obtain ⟨_, d₁, hupdate, rfl, rfl⟩ := h
              refine updateField_offers _ hupdate hwf hc hother helement (fun _ => rfl)
                (fun _ => rfl) (fun _ => rfl) (fun _ => rfl) fun x =>
                  ⟨Cardinality.rank_le_list _, Cardinality.rank_le_list _⟩
          · simp only [bind_eq, pure_eq] at h
            obtain ⟨_, d₁, hupdate, rfl, rfl⟩ := h
            exact updateField_offers _ hupdate hwf hc hother helement (fun _ => rfl)
              (fun _ => rfl) (fun _ => rfl) (fun _ => rfl) fun _ => Cardinality.rank_le_max _ _

theorem derivedField_spec {subject : String}
    (h : derivedField c subject element cardinality branch span d = (r, d')) (hwf : d.WellFormed)
    (hc : c < d.classes.size) : Quiet S d d' ∧ Offers c element cardinality r d' := by
  unfold derivedField at h
  simp only [bind_eq] at h
  obtain ⟨count, d₁, hcount, _, _, hget, h⟩ := h
  obtain ⟨rfl, rfl⟩ := get_eq.mp hget
  have hquiet : Quiet S d d₁ := by
    unfold countOccurrence at hcount
    simp only [bind_eq, get_eq, pure_eq] at hcount
    obtain ⟨_, _, ⟨rfl, rfl⟩, _, d₂, hupdate, -, rfl⟩ := hcount
    exact updateClass_quiet hupdate rfl rfl (fun _ h => h) (fun _ h => .inl h) rfl
  have hwf₁ := hquiet.plain.wellFormed hwf
  have hc₁ := Nat.lt_of_lt_of_le hc hquiet.plain.classes_le
  cases hfound : (d₁.fieldsOf c).find? _ with
  | none =>
    rw [hfound] at h
    simp only [freeFieldName, bind_eq, get_eq, pure_eq] at h
    obtain ⟨_, _, ⟨_, _, ⟨rfl, rfl⟩, -, rfl⟩, hpush⟩ := h
    have hspec := pushField_spec (S := S) hpush hc₁
    exact ⟨hquiet.trans hspec.1, hspec.2⟩
  | some other =>
    rw [hfound] at h
    simp only [bind_eq, pure_eq] at h
    obtain ⟨_, d₂, hupdate, rfl, rfl⟩ := h
    have hsome := List.find?_some hfound
    simp only [Bool.and_eq_true, beq_iff_eq] at hsome
    have hspec := updateField_offers (S := S) cardinality hupdate hwf₁ hc₁
      (List.mem_of_find?_eq_some hfound) hsome.1.2 (fun _ => rfl) (fun _ => rfl) (fun _ => rfl)
      (fun _ => rfl) fun _ => Cardinality.rank_le_max _ _
    exact ⟨hquiet.trans hspec.1, hspec.2⟩

/-! ## Filling fields -/

theorem recordField_fieldAt {node : NodeId} {field : FieldId}
    (h : recordField node field branch d = (u, d')) (g : FieldId) :
    d'.fieldAt g = if field = g ∧ field < d.fields.size then
      { d.fieldAt field with nodes := (d.fieldAt field).nodes ++ [node] } else d.fieldAt g := by
  unfold recordField at h
  simp only [bind_eq, modify_eq] at h
  obtain ⟨_, d₁, hupdate, rfl⟩ := h
  exact updateField_fieldAt hupdate g

theorem recordField_quiet {node : NodeId} {field : FieldId}
    (h : recordField node field branch d = (u, d'))
    (hS : S (.filling (d.fieldAt field).owner node)) :
    Quiet S d d' ∧ d'.fields.size = d.fields.size := by
  unfold recordField at h
  simp only [bind_eq, modify_eq] at h
  obtain ⟨_, d₁, hupdate, rfl⟩ := h
  have hfield : Quiet S d d₁ := by
    rw [updateField_eq hupdate]
    refine .of_field field _ rfl rfl rfl (Nat.le_refl _) fun id hid => ?_
    rcases List.mem_append.mp hid with hid | hid
    · exact .inl hid
    · obtain rfl := List.mem_singleton.mp hid
      exact .inr hS
  refine ⟨hfield.trans (.of_tables rfl rfl rfl rfl (fun h => h) (fun _ _ => rfl) (fun _ _ => rfl)
    fun _ h => .inl h), ?_⟩
  rw [updateField_eq hupdate]
  exact Array.size_modify

/-- Every field of a class that an expression fills may hold a value. -/
def HeldBy (v : Option Value) (c : ClassId) (node : NodeId) (d : Draft) : Prop :=
  ∀ f < d.fields.size, (d.fieldAt f).owner = c → node ∈ (d.fieldAt f).nodes →
    ∃ u, v = some u ∧ u.cardinality.rank ≤ (d.fieldAt f).cardinality.rank ∧
      (d.fieldAt f).element = u.element

theorem recordField_held {v : Value} {node : NodeId} {field : FieldId}
    (h : recordField node field branch d = (u, d'))
    (hoffers : Offers c v.element v.cardinality (some field) d)
    (hfresh : (Cell.filling c node).Fresh d) : HeldBy (some v) c node d' := by
  obtain ⟨hlt, howner, helement, hrank⟩ := hoffers field rfl
  have hsize := (recordField_quiet (S := fun _ => True) h trivial).2
  intro f hf hown hnode
  rw [hsize] at hf
  rw [recordField_fieldAt h] at hown hnode ⊢
  by_cases heq : field = f ∧ field < d.fields.size
  · rw [if_pos heq]
    exact ⟨v, rfl, hrank, helement⟩
  · rw [if_neg heq] at hown hnode
    exact absurd hnode (hfresh f hf hown)

theorem Offers.of_rank_le {cardinality' : Cardinality}
    (h : Offers c element cardinality r d) (hle : cardinality'.rank ≤ cardinality.rank) :
    Offers c element cardinality' r d := by
  intro f hf
  obtain ⟨hlt, howner, helement, hrank⟩ := h f hf
  exact ⟨hlt, howner, helement, Nat.le_trans hle hrank⟩

theorem rank_le_wrap (outer inner : Cardinality) :
    outer.rank ≤ (outer.wrap inner).rank ∧ inner.rank ≤ (outer.wrap inner).rank := by
  cases outer <;> cases inner <;> decide

/-- The field that an element with a value gets: the one that its marker names, or a derived one. -/
inductive FindsField (c : ClassId) (e : Expr) (element : ElementType) (cardinality : Cardinality)
    (branch : Nat) (own : Bool) (r : Option FieldId) (d d' : Draft) : Prop
  | named {raw : String} (hown : own = true) (hraw : e.markerValue? .field = some raw)
      (h : namedField c raw element cardinality branch e.span d = (r, d'))
  | derived {subject : String}
      (h : derivedField c subject element cardinality branch e.span d = (r, d'))

/-- What adding a field for a value comes down to: a field is found and recorded, or none is found.
The field is as general as the value, unless its marker makes it optional. -/
theorem addField_some {e : Expr} {v : Value} {outer : Cardinality} {own : Bool}
    (h : addField c e (some v) outer branch own d = (u, d')) :
    ∃ cardinality field d₁, FindsField c e v.element cardinality branch own field d d₁ ∧
      ((own = true → e.hasMarker .optional = true → v.cardinality ≠ .list) →
        v.cardinality.rank ≤ cardinality.rank) ∧
      ((field = none ∧ d' = d₁) ∨
        ∃ id, field = some id ∧ recordField e.id id branch d₁ = (u, d')) := by
  have hrank : (own = true → e.hasMarker .optional = true → v.cardinality ≠ .list) →
      v.cardinality.rank ≤ (if own && e.hasMarker .list then Cardinality.list
        else if own && e.hasMarker .optional then outer.wrap .optional
        else outer.wrap v.cardinality).rank := by
    intro hlist
    split
    · exact Cardinality.rank_le_list _
    · split
      · rename_i hoptional
        obtain ⟨hown, hmarker⟩ := Bool.and_eq_true_iff.mp hoptional
        have hne := hlist hown hmarker
        have hle : v.cardinality.rank ≤ Cardinality.optional.rank := by
          generalize v.cardinality = k at hne
          cases k <;> first | decide | exact absurd rfl hne
        exact Nat.le_trans hle (rank_le_wrap outer .optional).2
      · exact (rank_le_wrap outer v.cardinality).2
  unfold addField at h
  dsimp only at h
  cases hname : (if own then e.markerValue? .field else none) with
  | some raw =>
    rw [hname] at h
    obtain ⟨field, d₁, hfield, h⟩ := bind_eq.mp h
    obtain ⟨hown, hraw⟩ : own = true ∧ e.markerValue? .field = some raw := by
      simpa using hname
    refine ⟨_, field, d₁, .named hown hraw hfield, hrank, ?_⟩
    cases field with
    | none => exact .inl ⟨rfl, (pure_eq.mp h).2.symm⟩
    | some id => exact .inr ⟨id, rfl, h⟩
  | none =>
    rw [hname] at h
    obtain ⟨_, _, hget, h⟩ := bind_eq.mp h
    obtain ⟨rfl, rfl⟩ := get_eq.mp hget
    obtain ⟨field, d₁, hfield, h⟩ := bind_eq.mp h
    refine ⟨_, field, d₁, .derived hfield, hrank, ?_⟩
    cases field with
    | none => exact .inl ⟨rfl, (pure_eq.mp h).2.symm⟩
    | some id => exact .inr ⟨id, rfl, h⟩

/-- Whatever field is found for an element may hold its value. -/
theorem FindsField.spec {e : Expr} {own : Bool}
    (h : FindsField c e element cardinality branch own r d d') (hwf : d.WellFormed)
    (hc : c < d.classes.size) : Quiet S d d' ∧ Offers c element cardinality r d' := by
  cases h with
  | named _ _ h => exact namedField_spec h hwf hc
  | derived h => exact derivedField_spec h hwf hc

/-- What adding a field comes down to: there is no value, or there is a field for the value, or the
grammar names no field. -/
theorem addField_cases {e : Expr} {value : Option Value} {outer : Cardinality} {own : Bool}
    (h : addField c e value outer branch own d = (u, d')) (hwf : d.WellFormed)
    (hc : c < d.classes.size) :
    (value = none ∧ d' = d) ∨ ∃ v field d₁ cardinality, value = some v ∧ Quiet S d d₁ ∧
      Offers c v.element cardinality field d₁ ∧
        ((own = true → e.hasMarker .optional = true → v.cardinality ≠ .list) →
          v.cardinality.rank ≤ cardinality.rank) ∧
        ((field = none ∧ d' = d₁) ∨
          ∃ id, field = some id ∧ recordField e.id id branch d₁ = (u, d')) := by
  cases value with
  | none =>
    unfold addField at h
    obtain ⟨-, rfl⟩ := pure_eq.mp h
    exact .inl ⟨rfl, rfl⟩
  | some v =>
    obtain ⟨cardinality, field, d₁, hfinds, hrank, hrecord⟩ := addField_some h
    obtain ⟨hquiet, hoffers⟩ := hfinds.spec hwf hc
    exact .inr ⟨v, field, d₁, cardinality, rfl, hquiet, hoffers, hrank, hrecord⟩

theorem addField_quiet {e : Expr} {value : Option Value} {outer : Cardinality} {own : Bool}
    (h : addField c e value outer branch own d = (u, d')) (hwf : d.WellFormed)
    (hc : c < d.classes.size) (hS : S (.filling c e.id)) : Quiet S d d' := by
  rcases addField_cases (S := S) h hwf hc with
    ⟨-, rfl⟩ | ⟨v, field, d₁, _, -, hquiet, hoffers, -, ⟨-, rfl⟩ | ⟨id, rfl, hrecord⟩⟩
  · exact .refl S _
  · exact hquiet
  · refine hquiet.trans (recordField_quiet hrecord ?_).1
    rw [(hoffers id rfl).2.1]
    exact hS

theorem addField_held {e : Expr} {value : Option Value} {outer : Cardinality} {own : Bool}
    (h : addField c e value outer branch own d = (u, d')) (hwf : d.WellFormed)
    (hc : c < d.classes.size) (hfresh : (Cell.filling c e.id).Fresh d)
    (hlist : own = true → e.hasMarker .optional = true →
      ∀ v, value = some v → v.cardinality ≠ .list) : HeldBy value c e.id d' := by
  have hkept {d₁ : Draft} (hquiet : Quiet (fun _ => False) d d₁) :
      (Cell.filling c e.id).Fresh d₁ := by
    intro f hf howner hid
    have hsame : (Cell.filling c e.id).Same d d₁ := hquiet.same hc fun h => h
    obtain ⟨hlt, hmem⟩ := hsame f hf howner hid
    rw [hquiet.plain.owner_eq f hlt] at howner
    exact hfresh f hlt howner hmem
  rcases addField_cases (S := fun _ => False) h hwf hc with
    ⟨-, rfl⟩ | ⟨v, field, d₁, _, rfl, hquiet, hoffers, hrank, ⟨-, rfl⟩ | ⟨id, rfl, hrecord⟩⟩
  · exact fun f hf howner hid => absurd hid (hfresh f hf howner)
  · exact fun f hf howner hid => absurd hid (hkept hquiet f hf howner)
  · have hle := hrank fun hown hmarker => hlist hown hmarker v rfl
    exact recordField_held hrecord (hoffers.of_rank_le hle) (hkept hquiet)

/-- Making fields optional that were scalar at first. -/
theorem relaxAll_quiet {start : Draft} {alternatives : Nat} {fields : List FieldId} {w : PUnit}
    (hstart : ∀ f, (start.fieldAt f).cardinality = .scalar →
      (d.fieldAt f).cardinality.rank ≤ Cardinality.optional.rank)
    (h : (forIn fields PUnit.unit fun field _ =>
      if (start.branchesOf field).length < alternatives ∧
          (start.fieldAt field).cardinality = .scalar then do
        updateField field fun f => { f with model := { f.model with cardinality := .optional } }
        pure (ForInStep.yield PUnit.unit)
      else pure (ForInStep.yield PUnit.unit) : Build PUnit) d = (w, d')) : Quiet S d d' := by
  induction fields generalizing d with
  | nil =>
    obtain ⟨-, rfl⟩ := pure_eq.mp h
    exact .refl S d
  | cons field rest ih =>
    rw [List.forIn_cons] at h
    obtain ⟨step, d₁, hstep, h⟩ := bind_eq.mp h
    split at hstep
    · rename_i hscalar
      simp only [bind_eq, pure_eq] at hstep
      obtain ⟨_, d₂, hupdate, rfl, hd⟩ := hstep
      subst hd
      have hquiet : Quiet S d d₂ := by
        rw [updateField_eq hupdate]
        exact .of_field field _ rfl rfl rfl (hstart field hscalar.2) fun _ h => .inl h
      refine hquiet.trans (ih (fun f hf => ?_) h)
      rw [updateField_fieldAt hupdate]
      split
      · exact Nat.le_refl _
      · exact hstart f hf
    · obtain ⟨rfl, rfl⟩ := pure_eq.mp hstep
      exact ih hstart h

/-- Fields that some alternatives leave out become optional. -/
theorem relaxPartial_quiet {alternatives : Nat}
    (h : relaxPartial c alternatives d = (u, d')) : Quiet S d d' := by
  unfold relaxPartial at h
  simp only [bind_eq, get_eq, pure_eq] at h
  obtain ⟨_, _, ⟨rfl, rfl⟩, _, d₁, hloop, -, rfl⟩ := h
  refine relaxAll_quiet (fun f hf => ?_) hloop
  rw [hf]
  decide

/-! ## Variants -/

/-- The variants of a class for branches with their values: a payload is a field that may hold the
value. -/
def VariantsFor (c : ClassId) (entries : List (Expr × Option Value)) (variants : List Variant)
    (d : Draft) : Prop :=
  List.Forall₂ (fun entry variant => variant.node = entry.1.id ∧
    ∀ f, variant.payload = some f → ∃ v, entry.2 = some v ∧
      Offers c v.element v.cardinality (some f) d) entries variants

theorem Offers.frame {bodies : RuleId → List NodeId} {S : Cell → Prop}
    (h : Offers c element cardinality r d) (hframe : Frame bodies S d d') :
    Offers c element cardinality r d' := by
  intro f hf
  obtain ⟨hlt, howner, helement, hrank⟩ := h f hf
  exact ⟨Nat.lt_of_lt_of_le hlt hframe.fields_le, (hframe.owner_eq f hlt).trans howner,
    (hframe.element_eq f hlt).trans helement, Nat.le_trans hrank (hframe.rank_le f hlt)⟩

theorem addVariant_spec {e : Expr} {index : Nat} {value : Option Value}
    (h : addVariant c e index value d = (u, d')) (hc : c < d.classes.size)
    (hvariants : S (.variants c)) (hfills : S (.filling c e.id)) :
    Quiet S d d' ∧ ∃ variant, (d'.classAt c).variants = (d.classAt c).variants ++ [variant] ∧
      variant.node = e.id ∧ ∀ f, variant.payload = some f → ∃ v, value = some v ∧
        Offers c v.element v.cardinality (some f) d' := by
  unfold addVariant at h
  obtain ⟨_, _, hget, h⟩ := bind_eq.mp h
  obtain ⟨rfl, rfl⟩ := get_eq.mp hget
  dsimp only at h
  generalize Naming.uniqueAmong (branchTag e index) ((d.classAt c).variants.map (·.tag)) = tag at h
  obtain ⟨payload, d₁, ⟨hquiet, hpayload⟩, hupdate⟩ : ∃ payload d₁,
      (Quiet (fun cell => cell = .filling c e.id) d d₁ ∧ ∀ f, payload = some f →
        ∃ v, value = some v ∧
        Offers c v.element v.cardinality (some f) d₁) ∧
      updateClass c (fun cls =>
        { cls with model := { cls.model with
          variants := cls.model.variants ++ [⟨tag, e.id, payload⟩] } }) d₁ = (u, d') := by
    cases value with
    | none =>
      simp only [bind_eq, pure_eq] at h
      obtain ⟨payload, d₁, ⟨rfl, rfl⟩, hupdate⟩ := h
      exact ⟨none, d, ⟨.refl _ d, fun f hf => by cases hf⟩, hupdate⟩
    | some v =>
      simp only [freeFieldName, bind_eq, get_eq, pure_eq] at h
      obtain ⟨name, _, ⟨_, _, ⟨rfl, rfl⟩, -, rfl⟩, field, d₁, hpush, h⟩ := h
      have hspec := pushField_spec (S := fun cell => cell = .filling c e.id) hpush hc
      have hoffers : Offers c v.element v.cardinality field d₁ :=
        hspec.2.of_rank_le (by cases v.cardinality <;> decide)
      cases field with
      | none =>
        simp only [bind_eq, pure_eq] at h
        obtain ⟨payload, _, ⟨rfl, rfl⟩, hupdate⟩ := h
        exact ⟨none, d₁, ⟨hspec.1, fun f hf => by cases hf⟩, hupdate⟩
      | some id =>
        simp only [bind_eq, pure_eq] at h
        obtain ⟨_, d₂, hfield, payload, _, ⟨rfl, rfl⟩, hupdate⟩ := h
        have hquiet : Quiet (fun cell => cell = .filling c e.id) d₁ d₂ := by
          rw [updateField_eq hfield]
          refine .of_field id _ rfl rfl rfl (Nat.le_refl _) fun node hnode => ?_
          rcases List.mem_append.mp hnode with hnode | hnode
          · exact .inl hnode
          · obtain rfl := List.mem_singleton.mp hnode
            rw [(hoffers id rfl).2.1]
            exact .inr rfl
        refine ⟨some id, d₂, ⟨hspec.1.trans hquiet, fun f hf => ⟨v, rfl, ?_⟩⟩, hupdate⟩
        obtain rfl := Option.some.inj hf
        exact hoffers.frame hquiet.plain
  have hc₁ := Nat.lt_of_lt_of_le hc hquiet.plain.classes_le
  have hclass : Quiet S d₁ d' := by
    rw [updateClass_eq hupdate]
    exact .of_class c _ rfl rfl (fun _ h => h) (fun _ h => .inl h) (fun _ => by simp)
      fun hS => absurd hvariants hS
  have hkept : (Cell.variants c).Same d d₁ := hquiet.same hc (by simp)
  refine ⟨(hquiet.mono fun _ _ h => h ▸ hfills).trans hclass, ⟨tag, e.id, payload⟩, ?_,
    rfl, fun f hf => ?_⟩
  · rw [updateClass_classAt hupdate, if_pos ⟨rfl, hc₁⟩]
    exact congrArg (· ++ [(⟨tag, e.id, payload⟩ : Variant)]) hkept
  · obtain ⟨v, hv, hoffers⟩ := hpayload f hf
    exact ⟨v, hv, hoffers.frame hclass.plain⟩

theorem addVariants_spec {index : Nat} {entries : List (Expr × Option Value)}
    (h : addVariants c index entries d = (u, d')) (hc : c < d.classes.size)
    (hvariants : S (.variants c)) (hfills : ∀ entry ∈ entries, S (.filling c entry.1.id)) :
    Quiet S d d' ∧ ∃ variants,
      (d'.classAt c).variants = (d.classAt c).variants ++ variants ∧
        VariantsFor c entries variants d' := by
  induction entries generalizing index d with
  | nil =>
    obtain ⟨-, rfl⟩ := pure_eq.mp h
    exact ⟨.refl S d, [], (List.append_nil _).symm, .nil⟩
  | cons entry rest ih =>
    obtain ⟨e, value⟩ := entry
    rw [List.forall_mem_cons] at hfills
    obtain ⟨_, d₁, hfirst, h⟩ := bind_eq.mp h
    obtain ⟨hquiet₁, variant, hvariant, hnode, hpayload⟩ :=
      addVariant_spec hfirst hc hvariants hfills.1
    obtain ⟨hquiet₂, variants, hrest, hfor⟩ :=
      ih h (Nat.lt_of_lt_of_le hc hquiet₁.plain.classes_le) hfills.2
    refine ⟨hquiet₁.trans hquiet₂, variant :: variants, ?_, .cons ⟨hnode, fun f hf => ?_⟩ hfor⟩
    · rw [hrest, hvariant, List.append_assoc, List.singleton_append]
    · obtain ⟨v, hv, hoffers⟩ := hpayload f hf
      exact ⟨v, hv, hoffers.frame hquiet₂.plain⟩

/-! ## Runs that make no class -/

/-- No class is made. -/
def MakesNoClass {α : Type} (x : Build α) : Prop :=
  ∀ d a d', x d = (a, d') → d'.classes.size = d.classes.size

namespace MakesNoClass

variable {α β : Type}

theorem pure {a : α} : MakesNoClass (Pure.pure a : Build α) := by
  intro d b d' h
  obtain ⟨-, rfl⟩ := pure_eq.mp h
  rfl

theorem bind {x : Build α} {f : α → Build β} (hx : MakesNoClass x)
    (hf : ∀ a, MakesNoClass (f a)) : MakesNoClass (x >>= f) := by
  intro d b d' h
  obtain ⟨a, d₁, hfirst, hrest⟩ := bind_eq.mp h
  exact (hf a d₁ b d' hrest).trans (hx d a d₁ hfirst)

theorem get : MakesNoClass (MonadState.get : Build Draft) := by
  intro d a d' h
  obtain ⟨rfl, rfl⟩ := get_eq.mp h
  rfl

theorem modify {f : Draft → Draft} (hf : ∀ d, (f d).classes.size = d.classes.size) :
    MakesNoClass (modify f : Build Unit) := by
  intro d a d' h
  obtain rfl := modify_eq.mp h
  exact hf d

theorem fault {what : SemanticFault} : MakesNoClass (fault what span) := .modify fun _ => rfl

theorem updateField {field : FieldId} {f : FieldDraft → FieldDraft} :
    MakesNoClass (updateField field f) := .modify fun _ => rfl

theorem updateClass {f : ClassDraft → ClassDraft} : MakesNoClass (updateClass c f) :=
  .modify fun _ => Array.size_modify

theorem pushField {name : String} {sourceName : Option String} :
    MakesNoClass (pushField c name sourceName element cardinality span) := by
  unfold Build.pushField
  refine .bind .get fun d => ?_
  dsimp only
  split
  · split
    · exact .bind .updateClass fun _ => .bind .fault fun _ => .pure
    · exact .pure
  · exact .bind (.modify fun _ => rfl) fun _ => .bind .updateClass fun _ => .pure

theorem freeFieldName {base : String} : MakesNoClass (freeFieldName c base) :=
  .bind .get fun _ => .pure

theorem namedField {raw : String} :
    MakesNoClass (namedField c raw element cardinality branch span) := by
  have hfault {what : SemanticFault} : MakesNoClass (do
      Build.fault what span
      return none : Build (Option FieldId)) := .bind .fault fun _ => .pure
  unfold Build.namedField
  refine .bind .get fun d => ?_
  dsimp only
  split
  · exact .pure
  · split
    · exact .pushField
    · split
      · exact hfault
      · split
        · exact hfault
        · split
          · split
            · exact hfault
            · exact .bind .updateField fun _ => .pure
          · exact .bind .updateField fun _ => .pure

theorem derivedField {subject : String} :
    MakesNoClass (derivedField c subject element cardinality branch span) := by
  unfold Build.derivedField
  refine .bind (.bind .get fun _ => .bind .updateClass fun _ => .pure) fun count => ?_
  refine .bind .get fun d => ?_
  dsimp only
  split
  · exact .bind .updateField fun _ => .pure
  · exact .bind .freeFieldName fun _ => .pushField

theorem recordField {node : NodeId} {field : FieldId} :
    MakesNoClass (recordField node field branch) :=
  .bind .updateField fun _ => .modify fun _ => rfl

theorem addField {e : Expr} {value : Option Value} {outer : Cardinality} {own : Bool} :
    MakesNoClass (addField c e value outer branch own) := by
  intro d u d' h
  cases value with
  | none =>
    unfold Build.addField at h
    obtain ⟨-, rfl⟩ := pure_eq.mp h
    rfl
  | some v =>
    obtain ⟨cardinality, field, d₁, hfinds, -, hrecord⟩ := addField_some h
    have hfound : d₁.classes.size = d.classes.size := by
      cases hfinds with
      | named _ _ hfield => exact MakesNoClass.namedField _ _ _ hfield
      | derived hfield => exact MakesNoClass.derivedField _ _ _ hfield
    obtain ⟨-, rfl⟩ | ⟨id, rfl, hrecord⟩ := hrecord
    · exact hfound
    · exact (MakesNoClass.recordField _ _ _ hrecord).trans hfound

theorem relaxPartial {alternatives : Nat} : MakesNoClass (relaxPartial c alternatives) := by
  unfold Build.relaxPartial
  refine .bind .get fun d => .bind ?_ fun _ => .pure
  generalize (d.classAt c).fields = fields
  induction fields with
  | nil => exact .pure
  | cons field rest ih =>
    rw [List.forIn_cons]
    refine .bind ?_ fun step => ?_
    · split
      · exact .bind .updateField fun _ => .pure
      · exact .pure
    · split
      · exact .pure
      · exact ih

theorem addVariants {index : Nat} {entries : List (Expr × Option Value)} :
    MakesNoClass (addVariants c index entries) := by
  induction entries generalizing index with
  | nil => exact .pure
  | cons entry rest ih =>
    refine .bind ?_ fun _ => ih
    refine .bind .get fun d => ?_
    dsimp only
    split
    · exact .bind .pure fun _ => .updateClass
    · refine .bind .freeFieldName fun name => .bind .pushField fun field => ?_
      split
      · exact .bind .updateField fun _ => .bind .pure fun _ => .updateClass
      · exact .bind .pure fun _ => .updateClass

end MakesNoClass

end Build
end AnnotatedGrammar
