import AnnotatedGrammar.Proofs.Analysis.Settling

/-!
# What a draft tells a model about expressions

The facts that the walks need about single steps: a field that an expression fills holds its value,
variants are those of the branches, and the steps that record something settle it.
-/

namespace AnnotatedGrammar

open Build AnnotatedGrammar.Expr

namespace Expr

/-- The expressions have different numbers, and alternations are as the parser makes them. -/
structure Proper (e : Expr) : Prop where
  shaped : e.Shaped
  nodup : e.ids.Nodup

/-- Several expressions in a row, with different numbers throughout. -/
structure AllProper (es : List Expr) : Prop where
  shaped : ∀ e ∈ es, e.Shaped
  nodup : (idsAll es).Nodup

variable {e body : Expr} {es rest branches : List Expr} {info : NodeInfo}

theorem Proper.id_not_mem (h : e.Proper) : e.id ∉ e.innerIds := by
  have hnodup := h.nodup
  rw [ids_eq] at hnodup
  exact (List.nodup_cons.mp hnodup).1

theorem Proper.children (h : e.Proper) : AllProper e.children where
  shaped := (throughout_iff.mp h.shaped).2
  nodup := by
    have hnodup := h.nodup
    rw [ids_eq] at hnodup
    exact (List.nodup_cons.mp hnodup).2

theorem AllProper.head (h : AllProper (e :: rest)) : e.Proper where
  shaped := h.shaped e List.mem_cons_self
  nodup := by
    have hnodup := h.nodup
    rw [idsAll_cons] at hnodup
    exact hnodup.of_append_left

theorem AllProper.tail (h : AllProper (e :: rest)) : AllProper rest where
  shaped := fun e he => h.shaped e (List.mem_cons_of_mem _ he)
  nodup := by
    have hnodup := h.nodup
    rw [idsAll_cons] at hnodup
    exact hnodup.of_append_right

theorem AllProper.disjoint (h : AllProper (e :: rest)) : ∀ id ∈ e.ids, id ∉ idsAll rest := by
  have hnodup := h.nodup
  rw [idsAll_cons] at hnodup
  exact fun id hid hrest => hnodup.disjoint hid hrest

/-- What belongs to one of several expressions does not belong to those after it. -/
theorem AllProper.known_disjoint (h : AllProper (e :: rest)) {values classes : List NodeId}
    (hvalues : values ⊆ e.ids) (hclasses : classes ⊆ e.ids) :
    ∀ cell, Cell.known values classes cell → ¬allCells rest cell := by
  intro cell hcell hrest
  cases cell with
  | value id => exact h.disjoint id (hvalues hcell) hrest
  | nodeClass id => exact h.disjoint id (hclasses hcell) hrest
  | filling | variants => exact hcell

/-- What is collected from one of several expressions is not collected from those after it. -/
theorem AllProper.contents_disjoint (h : AllProper (e :: rest)) {c : ClassId} {cell : Cell}
    (hcell : contentCells c e false cell) : ¬contentsCells c rest cell := by
  intro hrest
  rcases hcell with hcell | hcell <;> rcases hrest with hrest | hrest
  · exact h.known_disjoint (List.Subset.refl _) e.classIds_subset cell hcell hrest
  · cases cell with
    | filling => exact hcell
    | value | nodeClass | variants => exact hrest
  · cases cell with
    | filling => exact hrest
    | value | nodeClass | variants => exact hcell
  · cases cell with
    | filling => exact h.disjoint _ hcell.2 hrest.2
    | value | nodeClass | variants => exact hcell

theorem Proper.ofBody (h : e.Proper) (hbody : e.children = [body]) : body.Proper :=
  (hbody ▸ h.children).head

theorem Proper.core (h : e.Proper) : e.core.Proper :=
  ⟨h.shaped.core, (ids_core_sublist e).nodup h.nodup⟩

theorem Proper.classContent (h : e.Proper) : e.classContent.1.Proper := by
  rcases e.classContent_cases with ⟨hcontent, -⟩ | ⟨info, body, rfl, hcontent⟩
  · rw [hcontent]
    exact h
  · rw [hcontent]
    exact h.ofBody rfl

theorem Proper.ofClassAlternatives (h : e.Proper)
    (hbranches : e.classAlternatives? = some branches) :
    AllProper branches := by
  obtain ⟨info, hcore⟩ := core_of_classAlternatives hbranches
  have hchildren := h.core.children
  rw [hcore] at hchildren
  exact hchildren

theorem Proper.hasMarker_alternation (h : (alternation info branches).Proper) (key : MarkerKey) :
    ¬(alternation info branches).hasMarker key = true := by
  have hmarkers : info.markers = [] := h.shaped.self.isUnmarked info branches rfl
  have hunmarked : (alternation info branches).isUnmarked = true := by
    simp [isUnmarked, markers, Expr.info, hmarkers]
  simp [hasMarker_of_isUnmarked hunmarked]

/-- Whatever carries markers is not an alternation. -/
theorem Proper.isAlternation_eq (h : e.Proper) {key : MarkerKey}
    (hmarker : e.hasMarker key = true) :
    e.isAlternation = false := by
  cases e with
  | alternation info branches => exact absurd hmarker (h.hasMarker_alternation key)
  | _ => rfl

theorem Proper.noFieldMarkers_alternation (h : (alternation info branches).Proper) :
    (alternation info branches).NoFieldMarkers :=
  fun key _ => Bool.not_eq_true _ ▸ h.hasMarker_alternation key

theorem Proper.isAlternation_branches (h : (alternation info branches).Proper) :
    ∀ b ∈ branches, b.isAlternation = false :=
  h.shaped.self.isAlternation_eq info branches rfl

/-- Without markers that keep them, parentheses carry no class, are not skipped and fill no
field. -/
theorem not_hasMarker_of_not_keepsGroup (h : ¬e.keepsGroup = true) :
    ¬e.hasMarker .skip = true ∧ ¬e.hasMarker .classOf = true ∧ e.NoFieldMarkers := by
  unfold keepsGroup at h
  simp only [Bool.or_eq_true, not_or, List.any_eq_true, not_exists, not_and] at h
  exact ⟨h.1.2, h.1.1, fun key hkey => Bool.not_eq_true _ ▸ h.2 key hkey⟩

theorem shapeClassIds_of_not_alternation (h : e.isAlternation = false) :
    e.shapeClassIds = e.innerIds := by
  rw [shapeClassIds, h]
  rfl

/-- What filling a class changes lies inside the expression that carries it, apart from fields. -/
theorem Proper.classContent_cells (h : e.Proper) (hmarker : e.hasMarker .classOf = true)
    {cell : Cell} (hcell : (if e.classContent.2 then e.classContent.1.shapeCells else
      e.classContent.1.elementCells) cell) : Cell.known e.innerIds e.innerIds cell := by
  rcases e.classContent_cases with ⟨hcontent, -⟩ | ⟨info, body, rfl, hcontent⟩
  · rw [hcontent] at hcell
    refine Cell.known_mono (List.Subset.refl _) ?_ hcell
    rw [shapeClassIds_of_not_alternation (h.isAlternation_eq hmarker)]
    exact List.Subset.refl _
  · rw [hcontent] at hcell
    rw [innerIds_group]
    exact elementCells_sub hcell (List.Subset.refl _) (List.Subset.refl _)

/-- The alternation that a class is made of stands inside the parentheses that carry the class. -/
theorem Proper.classContent_core (h : e.Proper) (hmarker : e.hasMarker .classOf = true)
    (hcore : e.classContent.1.core = alternation info branches) : info.id ∈ e.innerIds := by
  have hmem : info.id ∈ e.classContent.1.core.ids := by
    rw [hcore]
    exact id_mem_ids (alternation info branches)
  rcases e.classContent_cases with ⟨hcontent, hgroup⟩ | ⟨info', body, rfl, hcontent⟩
  · rw [hcontent] at hcore
    have hcore' : e.core = e := by
      cases e with
      | group info' body => exact absurd rfl (hgroup info' body)
      | _ => rfl
    obtain rfl : e = alternation info branches := hcore'.symm.trans hcore
    exact absurd hmarker (h.hasMarker_alternation .classOf)
  · rw [hcontent] at hmem
    rw [innerIds_group]
    exact (ids_core_sublist body).subset hmem

/-- An expression whose core is itself, or inside it. -/
theorem core_cases (e : Expr) : e.core = e ∨ (∃ info body, e = group info body ∧
    ¬e.keepsGroup = true) ∧ e.core.ids ⊆ e.innerIds := by
  cases e with
  | group info body =>
    by_cases hkeeps : (group info body).keepsGroup = true
    · left
      rw [core, stripGroups, if_pos hkeeps]
    · refine .inr ⟨⟨info, body, rfl, hkeeps⟩, ?_⟩
      have hcore : (group info body).core = body.core := by
        rw [core, stripGroups, if_neg hkeeps]
        rfl
      rw [hcore, innerIds_group]
      exact (ids_core_sublist body).subset
  | _ => exact .inl rfl

/-- A branch without a class of its own may get no class while its value is computed. -/
theorem classIds_of_core (hmarker : ¬e.core.hasMarker .classOf = true)
    (halternation : e.isAlternation = false) : e.classIds = e.innerIds := by
  have hself : ¬e.hasMarker .classOf = true := by
    rcases e.core_cases with hcore | ⟨⟨info, body, rfl, hkeeps⟩, -⟩
    · rwa [hcore] at hmarker
    · exact (not_hasMarker_of_not_keepsGroup hkeeps).2.1
  rw [classIds, if_neg hself, shapeClassIds_of_not_alternation halternation]

end Expr

section

variable {strict : Prop} {m : GrammarModel} {sc : Scope} {roles : Array RuleRole} {bound : Nat}
  {S : Cell → Prop} {d d' : Draft} {c : ClassId} {e : Expr} {v : Option Value}
  {T : Cell → Prop}

/-- A field of the model that an expression fills holds its value. -/
theorem Build.HeldBy.fillsWith (hheld : HeldBy v c e.id d) (hkeeps : Keeps strict m sc roles d)
    (htracked : (Cell.filling c e.id).Tracked strict m d) : Settled.FillsWith strict m c e v := by
  intro f hf
  obtain ⟨hlt, howner, hid⟩ := htracked f hf
  obtain ⟨u, rfl, hrank, helement⟩ := hheld f.id hlt howner hid
  obtain ⟨model, hmodel, hkept, hsame⟩ := hkeeps.field_kept f.id hlt
  obtain rfl : model = f := Option.some.inj (hmodel.symm.trans (hkeeps.owned.fieldFor? hf).1)
  exact ⟨u, rfl, Nat.le_trans hrank hkept, fun hstrict => (hsame hstrict).trans helement⟩

/-- The variants that were made for branches with their values. -/
theorem Build.VariantsFor.variantsOf {branches : List Expr} {values : List (Option Value)}
    {variants : List Variant} (h : VariantsFor c (branches.zip values) variants d)
    (hlength : branches.length = values.length) (hkeeps : Keeps strict m sc roles d) :
    Settled.VariantsOf strict m variants branches values := by
  induction branches generalizing values variants with
  | nil =>
    cases values with
    | nil =>
      cases h
      exact .nil
    | cons => cases hlength
  | cons branch rest ih =>
    cases values with
    | nil => cases hlength
    | cons value values =>
      cases h with
      | cons hfirst hrest =>
        refine .cons ⟨hfirst.1, fun f hf => ?_⟩ (ih hrest (Nat.succ.inj hlength))
        obtain ⟨u, hu, hoffers⟩ := hfirst.2 f hf
        obtain ⟨hlt, -, helement, hrank⟩ := hoffers f rfl
        obtain ⟨model, hmodel, hkept, hsame⟩ := hkeeps.field_kept f hlt
        exact ⟨model, u, hmodel, hu, Nat.le_trans hrank hkept,
          fun hstrict => (hsame hstrict).trans helement⟩

theorem Build.VariantsFor.length_eq {entries : List (Expr × Option Value)}
    {variants : List Variant} (h : VariantsFor c entries variants d) :
    entries.length = variants.length :=
  List.Forall₂.length_eq h

/-- Recording a value leaves all cells as open as they were. -/
theorem Build.recordValue_open {bodies : RuleId → List NodeId} {node : NodeId}
    {value : Option Value}
    {u : Unit} (h : recordValue node value d = (u, d')) (hopen : d.Open bodies S) :
    d'.Open bodies S := by
  rw [recordValue_eq h]
  intro cell hcell
  obtain ⟨hfresh, hfree, hold⟩ := hopen cell hcell
  cases cell with
  | value | nodeClass | filling | variants => exact ⟨hfresh, hfree, hold⟩

namespace Settling

variable {P : Prop} {u : Unit} {node : NodeId}

/-- Nothing happens. -/
theorem of_same (h : Keeps strict m sc roles d → P) : Settling strict m sc roles bound S P d d :=
  .ofQuiet (.refl S d) (Nat.le_refl _) (fun hclaimed _ => hclaimed)
    fun _ _ htracks => h htracks.keeps

/-- At most errors are found. -/
theorem ofFaults (h : Faults d d') (hP : d'.errors = #[] → P) :
    Settling strict m sc roles bound S P d d' := by
  have hquiet : Quiet (fun _ => False) d d' := h.quiet
  have hsettling : Settling strict m sc roles bound (fun _ => False) P d d' := by
    refine .ofQuiet hquiet ?_ (fun hclaimed _ => hquiet.claimed hclaimed fun _ h => h)
      fun _ herrors _ => hP herrors
    obtain ⟨errors, rfl, -⟩ := h
    exact Nat.le_refl _
  exact hsettling.mono fun _ h => h.elim

theorem ofRecordValue {value : Option Value} (h : recordValue node value d = (u, d')) :
    Settling strict m sc roles bound (fun cell => cell = .value node)
      (∃ w, m.nodeValues.get? node = some w ∧ Option.Rel (Value.Agrees strict) value w) d d' := by
  have hquiet : Quiet (fun cell => cell = .value node) d d' := recordValue_quiet h rfl
  refine .ofQuiet hquiet ?_ (fun hclaimed hopen => recordValue_claimed h hclaimed (hopen _ rfl).1)
    fun hopen _ htracks => ?_
  · rw [recordValue_eq h]
  · exact htracks.cells _ (hopen.touched (hquiet.frame _) rfl) value (recordValue_get? h)

/-- A value is recorded in front of a walk that records another one in its place. -/
theorem afterRecord {d₁ : Draft} {value : Option Value}
    (h : Settling strict m sc roles bound S P d₁ d')
    (hrecord : recordValue node value d = (u, d₁)) (hnode : S (.value node))
    (hmono : d₁.WellFormed → d'.errors = #[] → d₁.errors = #[]) :
    Settling strict m sc roles bound S P d d' := by
  intro hsound hopen herrors
  have hquiet : Quiet S d d₁ := recordValue_quiet hrecord hnode
  have herrors₁ := hmono (hquiet.plain.wellFormed hsound.wellFormed) herrors
  have hclaimed : d₁.Claimed := recordValue_claimed hrecord hsound.claimed (hopen _ hnode).1
  have hsound₁ := hsound.after (hquiet.frame _) (fun cell hcell _ => (hopen cell hcell).2.1)
    herrors₁ hclaimed
  have hsettles := h hsound₁ (recordValue_open hrecord hopen) herrors
  refine .before hquiet hsettles (fun _ _ h => h) (fun _ _ h => h) (fun c hge hlt => ?_) fun _ => ?_
  · rw [recordValue_eq hrecord] at hlt
    exact absurd hlt (Nat.not_lt.mpr hge)
  · refine .of_size_le ?_
    rw [recordValue_eq hrecord]

theorem ofRecordClass (h : recordClass node c d = (u, d')) :
    Settling strict m sc roles bound (fun cell => cell = .nodeClass node) True d d' := by
  have hquiet : Quiet (fun cell => cell = .nodeClass node) d d' := recordClass_quiet h rfl
  refine .ofQuiet hquiet ?_ (fun hclaimed _ => hquiet.claimed hclaimed (by simp))
    fun _ _ _ => trivial
  rw [recordClass_eq h]

/-- A class that is there gets its base. -/
theorem ofSetBase {base : ClassId} {span : Span} (h : setBase c base span d = (u, d')) :
    Settling strict m sc roles bound (fun _ => False)
      (c < d.classes.size → m.HasBase c base) d d' := by
  obtain ⟨hquiet, ⟨hsize, -⟩, hbase⟩ := setBase_spec (S := fun _ => False) h
  refine .ofQuiet hquiet (Nat.le_of_eq hsize)
    (fun hclaimed _ => hquiet.claimed hclaimed fun _ h => h) fun _ herrors htracks hlt => ?_
  obtain ⟨model, hmodel, -, hkept⟩ := htracks.keeps.class_kept c (hsize ▸ hlt)
  exact ⟨model, hmodel, hkept base (hbase herrors hlt)⟩

/-- A value is put into a field of a class, if there is a field for it. -/
theorem ofAddField {outer : Cardinality} {branch : Nat} {own : Bool}
    (h : addField c e v outer branch own d = (u, d')) :
    Settling strict m sc roles bound (fun cell => cell = .filling c e.id)
      ((own = true → e.hasMarker .optional = true → ∀ w, v = some w → w.cardinality ≠ .list) →
        Settled.FillsWith strict m c e v) d d' := by
  intro hsound hopen herrors
  obtain ⟨hfresh, -, hc⟩ := hopen _ rfl
  have hquiet : Quiet (fun cell => cell = .filling c e.id) d d' :=
    addField_quiet h hsound.wellFormed hc rfl
  refine ofQuiet hquiet (Nat.le_of_eq (MakesNoClass.addField d u d' h))
    (fun hclaimed _ => hquiet.claimed hclaimed (by simp)) (fun hopen _ htracks hlist => ?_)
    hsound hopen herrors
  exact (addField_held h hsound.wellFormed hc hfresh hlist).fillsWith htracks.keeps
    (htracks.cells _ (hopen.touched (hquiet.frame _) rfl))

end Settling

end

end AnnotatedGrammar
