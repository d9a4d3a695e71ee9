import Mathlib.Tactic.MkIffOfInductiveProp
import AnnotatedGrammar.Model.Build
import AnnotatedGrammar.Proofs.Analysis.Footprint

/-!
# What all of the analysis keeps

The analysis is put together from a few basic steps: it finds an error, adds a field, or changes
something that is not about the names of fields. A relation between drafts that these steps keep is
kept by everything that is made of them, the walks through rule bodies included. Two errors depend
on what was found before and are told apart: that a rule needs its own value, and that the name of a
field is taken.
-/

namespace AnnotatedGrammar

/-- The fault does not say that a rule needs its own value, or that the name of a field is taken. -/
def SemanticFault.isPlain : SemanticFault → Bool
  | recursiveValue _ => false
  | nameCollision .fieldName _ _ _ => false
  | _ => true

theorem Naming.fieldName_ne_empty {raw name : String} (h : fieldName raw = some name) :
    name ≠ "" := by
  unfold fieldName at h
  split at h
  · cases h
  · rw [← Option.some.inj h]
    split <;> split <;> simp

/-- The name of a field, with the name that the grammar gives it. -/
def FieldDraft.names (fld : FieldDraft) : String × Option String :=
  (fld.model.name, fld.model.sourceName)

namespace Draft

/-- The names of all fields. -/
def fieldNames (d : Draft) : List (String × Option String) := d.fields.toList.map FieldDraft.names

/-- A field that the grammar names is called accordingly. -/
def IsGiven (names : String × Option String) : Prop :=
  ∀ raw, names.2 = some raw → Naming.fieldName raw = some names.1

/-- Classes keep their fields and these their names, and new fields are called as they should be. -/
structure KeepsFields (d d' : Draft) : Prop where
  listed : ∀ c, (d.classAt c).fields ⊆ (d'.classAt c).fields
  names : ∃ added, d'.fieldNames = d.fieldNames ++ added ∧ ∀ names ∈ added, IsGiven names

/-- A class has a field of a name; `sourceName` is the name that the grammar gives it. -/
def HasField (d : Draft) (c : ClassId) (name : String) (sourceName : Option String) : Prop :=
  ∃ f ∈ (d.classAt c).fields, d.fieldNames[f]? = some (name, sourceName)

namespace KeepsFields

variable {d d' d'' : Draft}

theorem of_same (hclasses : d'.classes = d.classes) (hfields : d'.fields = d.fields) :
    d.KeepsFields d' where
  listed c := by
    rw [classAt, classAt, hclasses]
    exact List.Subset.refl _
  names := ⟨[], by rw [fieldNames, fieldNames, hfields, List.append_nil], by simp⟩

theorem trans (h : d.KeepsFields d') (h' : d'.KeepsFields d'') : d.KeepsFields d'' where
  listed c := List.Subset.trans (h.listed c) (h'.listed c)
  names := by
    obtain ⟨added, heq, hgiven⟩ := h.names
    obtain ⟨added', heq', hgiven'⟩ := h'.names
    refine ⟨added ++ added', by rw [heq', heq, List.append_assoc], ?_⟩
    exact List.forall_mem_append.mpr ⟨hgiven, hgiven'⟩

theorem hasField (h : d.KeepsFields d') {c : ClassId} {name : String} {sourceName : Option String}
    (hfield : d.HasField c name sourceName) : d'.HasField c name sourceName := by
  obtain ⟨f, hf, hname⟩ := hfield
  obtain ⟨added, heq, -⟩ := h.names
  refine ⟨f, h.listed c hf, ?_⟩
  obtain ⟨hlt, -⟩ := List.getElem?_eq_some_iff.mp hname
  rw [heq, List.getElem?_append_left hlt, hname]

/-- A change of a class that keeps its fields. -/
theorem modifyClass (c : ClassId) {f : ClassDraft → ClassDraft}
    (hf : ∀ cls, cls.model.fields ⊆ (f cls).model.fields) :
    d.KeepsFields { d with classes := d.classes.modify c f } where
  listed c' := by
    simp only [classAt, getD_modify]
    split
    · rename_i heq
      rw [← heq.1]
      exact hf _
    · exact List.Subset.refl _
  names := ⟨[], (List.append_nil _).symm, by simp⟩

/-- A change of a field that keeps its names. -/
theorem modifyField (id : FieldId) {f : FieldDraft → FieldDraft}
    (hf : ∀ fld, (f fld).names = fld.names) :
    d.KeepsFields { d with fields := d.fields.modify id f } where
  listed _ := List.Subset.refl _
  names := by
    refine ⟨[], ?_, by simp⟩
    rw [List.append_nil]
    refine List.ext_getElem? fun i => ?_
    simp only [fieldNames, List.getElem?_map, Array.getElem?_toList, Array.getElem?_modify]
    split
    · cases d.fields[i]? with
      | none => rfl
      | some fld => exact congrArg some (hf fld)
    · rfl

theorem addClass {cls : ClassDraft} (hclasses : d'.classes = d.classes.push cls)
    (hfields : d'.fields = d.fields) : d.KeepsFields d' where
  listed c := by
    simp only [classAt, hclasses, getD_push]
    split
    · rename_i heq
      have hdefault : d.classes.getD c default = default := by
        rw [heq, Array.getD_eq_getD_getElem?, Array.getElem?_eq_none (Nat.le_refl _)]
        rfl
      rw [hdefault]
      exact List.nil_subset _
    · exact List.Subset.refl _
  names := ⟨[], by rw [fieldNames, fieldNames, hfields, List.append_nil], by simp⟩

theorem addField (fld : FieldDraft) (hgiven : IsGiven fld.names) :
    d.KeepsFields { d with fields := d.fields.push fld } where
  listed _ := List.Subset.refl _
  names := by
    refine ⟨[fld.names], ?_, by simpa using hgiven⟩
    simp [fieldNames]

end KeepsFields

theorem hasField_of_mem {d : Draft} {c : ClassId} {fld : FieldModel} (h : fld ∈ d.fieldsOf c)
    (hname : fld.name ≠ "") : d.HasField c fld.name fld.sourceName := by
  obtain ⟨f, hf, rfl⟩ := List.mem_map.mp h
  refine ⟨f, hf, ?_⟩
  rw [fieldNames, List.getElem?_map, Array.getElem?_toList]
  unfold fieldAt at hname ⊢
  rw [Array.getD_eq_getD_getElem?] at hname ⊢
  cases hfound : d.fields[f]? with
  | none =>
    rw [hfound] at hname
    exact absurd rfl hname
  | some found => rfl

/-- The draft with a further error. -/
def noted (d : Draft) (what : SemanticFault) (span : Span) : Draft :=
  { d with errors := d.errors.push ⟨what, span⟩ }

/-- A class has a field of the name that the grammar asks for with `raw`, and this field was not
made for `raw`. It is known as `other`. -/
structure Taken (d : Draft) (raw other name : String) : Prop where
  wanted : Naming.fieldName raw = some name
  exists_field : ∃ c sourceName, d.HasField c name sourceName ∧ sourceName ≠ some raw ∧
    other = sourceName.getD name

end Draft

namespace Build

variable {α β : Type}

/-- Every run of it leads from a draft to one in the relation to it. -/
def Leads (R : Draft → Draft → Prop) (x : Build α) : Prop := ∀ d a d', x d = (a, d') → R d d'

namespace Leads

variable {R : Draft → Draft → Prop} {x : Build α}

theorem map {f : α → β} (hx : Leads R x) : Leads R (f <$> x) := by
  intro d b d' h
  obtain ⟨a, h, -⟩ := map_eq.mp h
  exact hx d a d' h

theorem discard (hx : Leads R x) : Leads R (discard x : Build PUnit) := by
  intro d u d' h
  obtain ⟨a, h⟩ := discard_eq.mp h
  exact hx d a d' h

theorem get_bind {f : Draft → Build β} (hf : ∀ d, Leads R (f d)) : Leads R (get >>= f) := by
  intro d b d' h
  obtain ⟨_, _, hget, hrest⟩ := bind_eq.mp h
  obtain ⟨rfl, rfl⟩ := get_eq.mp hget
  exact hf d d b d' hrest

end Leads

/-- A relation between drafts that the basic steps keep, those apart that find one of the two errors
that depend on what was found before. -/
structure Passage (R : Draft → Draft → Prop) : Prop where
  refl : ∀ d, R d d
  trans : ∀ {d d' d''}, R d d' → R d' d'' → R d d''
  fault : ∀ d what span, what.isPlain = true → R d (d.noted what span)
  change : ∀ d d', d'.errors = d.errors → d.KeepsFields d' → R d d'

namespace Passage

variable {R : Draft → Draft → Prop} (hR : Passage R) {x : Build α} {c : ClassId} {span : Span}
  {node : NodeId} {element : ElementType} {cardinality : Cardinality} {branch : Nat}

include hR

theorem of_pure (a : α) : Leads R (pure a : Build α) := by
  intro d b d' h
  obtain ⟨-, rfl⟩ := pure_eq.mp h
  exact hR.refl d

theorem bind {f : α → Build β} (hx : Leads R x) (hf : ∀ a, Leads R (f a)) : Leads R (x >>= f) := by
  intro d b d' h
  obtain ⟨a, d₁, hfirst, hrest⟩ := bind_eq.mp h
  exact hR.trans (hx d a d₁ hfirst) (hf a d₁ b d' hrest)

theorem of_modify {f : Draft → Draft} (herrors : ∀ d, (f d).errors = d.errors)
    (hf : ∀ d : Draft, d.KeepsFields (f d)) : Leads R (modify f : Build Unit) := by
  intro d u d' h
  obtain rfl := modify_eq.mp h
  exact hR.change d _ (herrors d) (hf d)

theorem of_forM {γ : Type} {g : γ → Build PUnit} (hg : ∀ a, Leads R (g a)) (as : List γ) :
    Leads R (as.forM g) := by
  induction as with
  | nil => exact hR.of_pure ()
  | cons a rest ih => exact hR.bind (hg a) fun _ => ih

/-- A step that is taken under a condition, in front of what comes next in any case. -/
theorem guarded {p : Prop} [Decidable p] {step : Build Unit} (hstep : Leads R step)
    (hx : Leads R x) : Leads R (if p then step >>= fun _ => x else x) := by
  split
  · exact hR.bind hstep fun _ => hx
  · exact hx

theorem fault_leads {what : SemanticFault} (hwhat : what.isPlain = true) :
    Leads R (Build.fault what span) := by
  intro d u d' h
  obtain rfl := modify_eq.mp h
  exact hR.fault d what span hwhat

/-- A fault in place of a result. -/
theorem fault_bind {what : SemanticFault} (hwhat : what.isPlain = true) (a : α) :
    Leads R (do Build.fault what span; return a : Build α) :=
  hR.bind (hR.fault_leads hwhat) fun _ => hR.of_pure a

theorem updateClass {f : ClassDraft → ClassDraft}
    (hf : ∀ cls, cls.model.fields ⊆ (f cls).model.fields) : Leads R (updateClass c f) :=
  hR.of_modify (fun _ => rfl) fun _ => .modifyClass c hf

theorem updateField {id : FieldId} {f : FieldDraft → FieldDraft}
    (hf : ∀ fld, (f fld).names = fld.names) : Leads R (updateField id f) :=
  hR.of_modify (fun _ => rfl) fun _ => .modifyField id hf

theorem recordValue {value : Option Value} : Leads R (recordValue node value) :=
  hR.of_modify (fun _ => rfl) fun _ => .of_same rfl rfl

theorem recordClass : Leads R (recordClass node c) :=
  hR.of_modify (fun _ => rfl) fun _ => .of_same rfl rfl

theorem setProgress {id : RuleId} {progress : RuleProgress} : Leads R (setProgress id progress) :=
  hR.of_modify (fun _ => rfl) fun _ => .of_same rfl rfl

/-! ## Classes -/

theorem claimClassName {sc : Scope} {raw : String} {isNamed : Bool} :
    Leads R (claimClassName sc raw isNamed span) := by
  unfold Build.claimClassName
  refine .get_bind fun d => ?_
  dsimp only
  split
  · exact hR.of_pure _
  · split
    · split
      · exact hR.fault_bind rfl _
      · exact hR.bind (hR.updateClass fun _ => List.Subset.refl _) fun _ => hR.of_pure _
    · exact hR.of_pure _

theorem newClass {sc : Scope} {raw : String} {isNamed : Bool} {kind : ClassKind}
    {origin : ClassOrigin} : Leads R (newClass sc raw isNamed kind origin span) := by
  unfold Build.newClass
  refine .get_bind fun d => hR.guarded (hR.fault_leads rfl) ?_
  refine hR.bind hR.claimClassName fun name => hR.bind ?_ fun _ => hR.of_pure _
  exact hR.of_modify (fun _ => rfl) fun _ => .addClass rfl rfl

theorem setBase {base : ClassId} : Leads R (setBase c base span) := by
  unfold Build.setBase
  refine .get_bind fun d => ?_
  split
  · exact hR.fault_leads rfl
  · split
    · exact hR.updateClass fun _ => List.Subset.refl _
    · split
      · exact hR.of_pure _
      · exact hR.fault_leads rfl

/-! ## Fields -/

theorem pushField {name : String} {sourceName : Option String}
    (hgiven : Draft.IsGiven (name, sourceName)) :
    Leads R (pushField c name sourceName element cardinality span) := by
  unfold Build.pushField
  refine .get_bind fun d => ?_
  dsimp only
  split
  · split
    · exact hR.bind (hR.updateClass fun _ => List.Subset.refl _) fun _ => hR.fault_bind rfl _
    · exact hR.of_pure _
  · refine hR.bind (hR.of_modify (fun _ => rfl) fun _ => .addField _ hgiven) fun _ => ?_
    exact hR.bind (hR.updateClass fun _ => List.subset_append_left _ _) fun _ => hR.of_pure _

omit hR in
theorem isGiven_none (name : String) : Draft.IsGiven (name, none) := nofun

theorem derivedField {subject : String} :
    Leads R (derivedField c subject element cardinality branch span) := by
  have hcount {base : String} : Leads R (countOccurrence c branch base) :=
    .get_bind fun _ => hR.bind (hR.updateClass fun _ => List.Subset.refl _) fun _ => hR.of_pure _
  unfold Build.derivedField
  refine hR.bind hcount fun count => .get_bind fun d => ?_
  dsimp only
  split
  · exact hR.bind (hR.updateField fun _ => rfl) fun _ => hR.of_pure _
  · exact hR.bind (.get_bind fun _ => hR.of_pure _) fun _ => hR.pushField (isGiven_none _)

theorem recordField {field : FieldId} : Leads R (recordField node field branch) :=
  hR.bind (hR.updateField fun _ => rfl) fun _ =>
    hR.of_modify (fun _ => rfl) fun _ => .of_same rfl rfl

theorem relaxPartial {alternatives : Nat} : Leads R (relaxPartial c alternatives) := by
  unfold Build.relaxPartial
  refine .get_bind fun d => hR.bind ?_ fun _ => hR.of_pure ()
  generalize (d.classAt c).fields = fields
  induction fields with
  | nil => exact hR.of_pure _
  | cons field rest ih =>
    rw [List.forIn_cons]
    refine hR.bind ?_ fun step => ?_
    · split
      · exact hR.bind (hR.updateField fun _ => rfl) fun _ => hR.of_pure _
      · exact hR.of_pure _
    · cases step with
      | done => exact hR.of_pure _
      | yield => exact ih

theorem addVariants {index : Nat} {entries : List (Expr × Option Value)} :
    Leads R (addVariants c index entries) := by
  induction entries generalizing index with
  | nil => exact hR.of_pure ()
  | cons entry rest ih =>
    refine hR.bind (.get_bind fun d => ?_) fun _ => ih
    dsimp only
    split
    · exact hR.updateClass fun _ => List.Subset.refl _
    · refine hR.bind (.get_bind fun _ => hR.of_pure _) fun name =>
        hR.bind (hR.pushField (isGiven_none _)) fun field => ?_
      cases field with
      | none => exact hR.updateClass fun _ => List.Subset.refl _
      | some id =>
        exact hR.bind (hR.updateField fun _ => rfl) fun _ =>
          hR.updateClass fun _ => List.Subset.refl _

/-! ## Elements -/

theorem faultMarkers {e : Expr} {keys : List MarkerKey} {place : MarkerPlace} :
    Leads R (faultMarkers e keys place) := by
  refine hR.of_forM (fun key => ?_) keys
  cases e.marker? key with
  | none => exact hR.of_pure ()
  | some marker => exact hR.fault_leads rfl

theorem finishElement {sc : RuleScope} {e : Expr} {value : Option Value} {allowed : Bool} :
    Leads R (finishElement sc e value allowed) := by
  have hrecord : Leads R (do Build.recordValue e.id value; return value) :=
    hR.bind hR.recordValue fun _ => hR.of_pure value
  unfold Build.finishElement
  dsimp only
  refine hR.guarded hR.faultMarkers ?_
  cases value with
  | none => exact hR.guarded hR.faultMarkers hrecord
  | some v =>
    have hclaim (marker : Marker) : Leads R (do
        modify fun d =>
          { d with
            typeClaims := d.typeClaims.push ⟨e.id, marker.value.getD "", v, marker.span⟩ }
        Build.recordValue e.id (some v)
        return some v : Build (Option Value)) :=
      hR.bind (hR.of_modify (fun _ => rfl) fun _ => .of_same rfl rfl) fun _ => hrecord
    dsimp only
    split
    · refine hR.bind (hR.fault_leads rfl) fun _ => ?_
      split
      · exact hclaim _
      · exact hrecord
    · split
      · exact hclaim _
      · exact hrecord

theorem singleValue {sc : RuleScope} {info : NodeInfo} {values : List (Option Value)} :
    Leads R (singleValue sc info values) := by
  unfold Build.singleValue
  split
  · exact hR.of_pure _
  · exact hR.of_pure _
  · exact hR.fault_bind rfl _

/-! ## Roles and checks -/

theorem assignRole {sc : Scope} {id : RuleId} {rule : Rule} : Leads R (assignRole sc id rule) := by
  have hmake {raw : String} {isNamed : Bool} {kind : ClassKind} (makes : ClassId → RuleRole) :
      Leads R (do
        return makes (← Build.newClass sc raw isNamed kind (.rule id) rule.nameSpan)) :=
    hR.bind hR.newClass fun _ => hR.of_pure _
  unfold Build.assignRole
  dsimp only
  split
  · split
    · refine hR.bind (hR.fault_leads rfl) fun _ => ?_
      split
      · exact hmake _
      · exact hmake _
    · split
      · exact hmake _
      · exact hmake _
  · split
    · exact hmake _
    · split
      · exact hmake _
      · split
        · exact hR.fault_bind rfl _
        · exact hR.of_pure _

theorem assignRoles {sc : Scope} {roles : Array RuleRole} {rules : List Rule} :
    Leads R (assignRoles sc roles rules) := by
  induction rules generalizing roles with
  | nil => exact hR.of_pure roles
  | cons rule rest ih => exact hR.bind hR.assignRole fun role => ih

theorem applyKey {role : RuleRole} {rule : Rule} : Leads R (applyKey role rule) := by
  unfold Build.applyKey
  split
  · split
    · exact hR.of_pure ()
    · refine .get_bind fun d => ?_
      dsimp only
      split
      · exact hR.fault_leads rfl
      · split
        · exact hR.fault_leads rfl
        · exact hR.updateClass fun _ => List.Subset.refl _
  · exact hR.of_pure ()

theorem checkTypeClaim (claim : TypeClaim) : Leads R (checkTypeClaim claim) := by
  unfold Build.checkTypeClaim
  refine .get_bind fun d => ?_
  dsimp only
  split
  · split
    · exact hR.of_pure ()
    · exact hR.fault_leads rfl
  · split
    · exact hR.fault_leads rfl
    · split
      · exact hR.fault_leads rfl
      · split
        · exact hR.of_pure ()
        · split
          · refine hR.bind hR.recordValue fun _ => ?_
            split
            · exact hR.updateField fun _ => rfl
            · exact hR.of_pure ()
          · exact hR.fault_leads rfl

theorem checkCycles {reported starts : List ClassId} : Leads R (checkCycles reported starts) := by
  induction starts generalizing reported with
  | nil => exact hR.of_pure ()
  | cons start rest ih =>
    refine .get_bind fun d => ?_
    dsimp only
    split
    · exact ih
    · split
      · exact ih
      · exact hR.bind (hR.fault_leads rfl) fun _ => ih

end Passage

/-! ## Fields that the grammar names -/

/-- A relation between drafts that all steps keep, unless they find that a rule needs its own
value. -/
structure NamingPassage (R : Draft → Draft → Prop) : Prop extends Passage R where
  collision : ∀ d raw other name span, d.Taken raw other name →
    R d (d.noted (.nameCollision .fieldName raw other name) span)

namespace NamingPassage

variable {R : Draft → Draft → Prop} (hR : NamingPassage R) {c : ClassId} {span : Span}
  {element : ElementType} {cardinality : Cardinality} {branch : Nat}

include hR

/-- The name of a field that the grammar names is found to be taken if its class has another field
of that name, whoever named that one. -/
theorem namedField {raw : String} :
    Leads R (namedField c raw element cardinality branch span) := by
  intro d r d' h
  unfold Build.namedField at h
  obtain ⟨_, _, hget, h⟩ := bind_eq.mp h
  obtain ⟨rfl, rfl⟩ := get_eq.mp hget
  cases hwanted : Naming.fieldName raw with
  | none =>
    rw [hwanted] at h
    exact hR.of_pure _ d r d' h
  | some name =>
    rw [hwanted] at h
    dsimp only at h
    cases hfound : (d.fieldsOf c).find? fun f => f.name == name with
    | none =>
      rw [hfound] at h
      refine hR.pushField (fun given hgiven => ?_) d r d' h
      rw [← Option.some.inj hgiven, hwanted]
    | some other =>
      rw [hfound] at h
      dsimp only at h
      have hname : other.name = name := by simpa using List.find?_some hfound
      split at h
      · rename_i hother
        obtain ⟨_, d₁, hfault, h⟩ := bind_eq.mp h
        obtain ⟨-, rfl⟩ := pure_eq.mp h
        obtain rfl := modify_eq.mp hfault
        have hmem := List.mem_of_find?_eq_some hfound
        have hfield : d.HasField c name other.sourceName := by
          rw [← hname]
          refine Draft.hasField_of_mem hmem ?_
          rw [hname]
          exact Naming.fieldName_ne_empty hwanted
        rw [hname]
        exact hR.collision d raw _ name span ⟨hwanted, c, other.sourceName, hfield, hother, rfl⟩
      · revert h
        split
        · exact hR.fault_bind rfl _ d r d'
        · split
          · split
            · exact hR.fault_bind rfl _ d r d'
            · exact hR.bind (hR.updateField (by exact fun _ => rfl)) (fun _ => hR.of_pure _) d r d'
          · exact hR.bind (hR.updateField (by exact fun _ => rfl)) (fun _ => hR.of_pure _) d r d'

theorem addField {e : Expr} {value : Option Value} {outer : Cardinality} {own : Bool} :
    Leads R (addField c e value outer branch own) := by
  unfold Build.addField
  cases value with
  | none => exact hR.of_pure ()
  | some v =>
    dsimp only
    split
    · refine hR.bind hR.namedField fun field => ?_
      cases field with
      | none => exact hR.of_pure ()
      | some id => exact hR.recordField
    · refine .get_bind fun d => hR.bind hR.derivedField fun field => ?_
      cases field with
      | none => exact hR.of_pure ()
      | some id => exact hR.recordField

end NamingPassage

/-! ## The walks through rule bodies -/

section

variable {R : Draft → Draft → Prop} {visit : RuleId → Build (Option Value)} {sc : RuleScope}

/-- Every walk through expressions of rule bodies leads to a draft in the relation. -/
@[mk_iff]
structure WalksLead (R : Draft → Draft → Prop) (visit : RuleId → Build (Option Value))
    (sc : RuleScope) : Prop where
  elementValue : ∀ e allowed, Leads R (elementValue visit sc e allowed)
  structuralValue : ∀ e, Leads R (structuralValue visit sc e)
  alternationValue : ∀ info branches hint, Leads R (alternationValue visit sc info branches hint)
  elementValues : ∀ es, Leads R (elementValues visit sc es)
  polymorphicBranches : ∀ base index branches,
    Leads R (polymorphicBranches visit sc base index branches)
  collectFields : ∀ e c outer branch isBearer,
    Leads R (collectFields visit sc e c outer branch isBearer)
  ownValue : ∀ e isBearer, Leads R (ownValue visit sc e isBearer)
  collectItems : ∀ items c outer branch, Leads R (collectItems visit sc items c outer branch)
  bearerClass : ∀ e, Leads R (bearerClass visit sc e)
  fillClass : ∀ c content isBearer, Leads R (fillClass visit sc c content isBearer)
  collectBranches : ∀ c index branches, Leads R (collectBranches visit sc c index branches)
  groupValue : ∀ body hint, Leads R (groupValue visit sc body hint)

open AnnotatedGrammar.Expr in
/-- The walks lead to a draft in the relation, if finding the value of a rule does. -/
theorem NamingPassage.walksLead (hR : NamingPassage R) (hvisit : ∀ id, Leads R (visit id)) :
    WalksLead R visit sc := by
  have hfinish {e : Expr} {allowed : Bool} {value : Build (Option Value)} (h : Leads R value) :
      Leads R (do let v ← value; Build.finishElement sc e v allowed) :=
    hR.bind h fun _ => hR.finishElement
  have hrecord {id : NodeId} {value : Build (Option Value)} (h : Leads R value) :
      Leads R (do let v ← value; Build.recordValue id v; return v) :=
    hR.bind h fun _ => hR.bind hR.recordValue fun _ => hR.of_pure _
  have hunit {e : Expr} {c : ClassId} {outer : Cardinality} {branch : Nat} {isBearer : Bool}
      (hskip : ¬(!isBearer && e.hasMarker .skip) = true)
      (hfield : ¬(!isBearer && e.isFieldElement) = true) (hunit : e.IsUnit)
      (h : Leads R (Build.ownValue visit sc e isBearer)) :
      Leads R (Build.collectFields visit sc e c outer branch isBearer) := by
    rw [collectFields_unit hskip hfield hunit]
    exact hR.bind h fun _ => hR.addField
  rw [walksLead_iff]
  apply elementValue.mutual_induct visit sc
  case case1 =>
    intro e allowed hskip
    rw [Build.elementValue]
    simp only [if_pos hskip]
    exact hfinish (hR.of_pure _)
  case case2 =>
    intro e allowed hskip hmarker ih
    rw [Build.elementValue]
    simp only [if_neg hskip, if_pos hmarker]
    exact hfinish (.map ih)
  case case3 =>
    intro e allowed hskip hmarker ih
    rw [Build.elementValue]
    simp only [if_neg hskip, if_neg hmarker]
    exact hfinish ih
  case case4 | case5 =>
    intros
    rw [Build.structuralValue]
    exact hR.of_pure _
  case case6 | case8 =>
    intros
    rw [Build.structuralValue]
    simp only [*]
    exact hR.of_pure _
  case case7 =>
    intro info name id hname
    rw [Build.structuralValue]
    simp only [hname]
    exact hvisit id
  case case9 =>
    intro info body ih
    rw [Build.structuralValue]
    exact ih
  case case10 =>
    intro info items ih
    rw [Build.structuralValue]
    exact hR.bind ih fun _ => hR.singleValue
  case case11 =>
    intro info branches ih
    rw [Build.structuralValue]
    exact ih
  case case12 =>
    intro info body ih
    rw [Build.structuralValue]
    exact hR.bind ih fun _ => hR.of_pure _
  case case13 =>
    intro info body kind ih
    rw [Build.structuralValue]
    exact hR.bind ih fun _ => hR.of_pure _
  case case14 =>
    intro info branches hint hpolymorphic ih
    rw [Build.alternationValue]
    simp only [if_pos hpolymorphic]
    exact hR.bind hR.newClass fun base => hR.bind hR.recordClass fun _ =>
      hR.bind (ih base) fun _ => hR.of_pure _
  case case15 =>
    intro info branches hint hpolymorphic ih
    rw [Build.alternationValue]
    simp only [if_neg hpolymorphic]
    refine hR.bind ih fun values => ?_
    split
    · exact hR.of_pure _
    · exact hR.bind hR.newClass fun c => hR.bind hR.recordClass fun _ =>
        hR.bind hR.addVariants fun _ => hR.of_pure _
  case case16 =>
    rw [Build.elementValues]
    exact hR.of_pure _
  case case17 =>
    intro e rest ih ihrest
    rw [Build.elementValues]
    exact hR.bind ih fun _ => hR.bind ihrest fun _ => hR.of_pure _
  case case18 =>
    intro base index
    rw [Build.polymorphicBranches]
    exact hR.of_pure _
  case case19 =>
    intro base index branch rest hmarker ihrest ih
    rw [Build.polymorphicBranches]
    simp only [if_pos hmarker]
    refine hR.bind ih fun c => hR.bind hR.setBase fun _ => hR.bind hR.finishElement fun _ => ?_
    exact hR.guarded hR.recordValue ihrest
  case case20 =>
    intro base index branch rest hmarker c hclass ihrest ih
    rw [Build.polymorphicBranches]
    simp only [if_neg hmarker, hclass]
    exact hR.bind hR.setBase fun _ => hR.bind (.discard ih) fun _ => ihrest
  case case21 =>
    intro base index branch rest hmarker hclass ihrest ih
    rw [Build.polymorphicBranches]
    simp only [if_neg hmarker, hclass]
    exact .get_bind fun d => hR.bind hR.newClass fun c => hR.bind hR.setBase fun _ =>
      hR.bind hR.recordClass fun _ => hR.bind hR.recordValue fun _ => hR.bind (ih c) fun _ => ihrest
  case case22 =>
    intro e c outer branch isBearer hskip
    rw [collectFields_skip hskip]
    exact hR.recordValue
  case case23 =>
    intro e c outer branch isBearer hskip hfield ih
    rw [collectFields_field hskip hfield]
    exact hR.bind ih fun _ => hR.addField
  case case24 =>
    intro c outer branch isBearer info items hskip hfield ih
    rw [Build.collectFields, if_neg hskip, if_neg hfield]
    exact ih
  case case25 =>
    intro c outer branch isBearer info body hskip hfield ih
    rw [Build.collectFields, if_neg hskip, if_neg hfield]
    exact ih
  case case26 =>
    intro c outer branch isBearer info body hsimple hskip hfield ih
    exact hunit hskip hfield hsimple ih
  case case27 =>
    intro c outer branch isBearer info body hsimple hskip hfield ih
    rw [Build.collectFields, if_neg hskip, if_neg hfield, if_neg hsimple]
    exact ih
  case case28 =>
    intro c outer branch isBearer info body kind hsimple hskip hfield ih
    exact hunit hskip hfield hsimple ih
  case case29 =>
    intro c outer branch isBearer info body kind hsimple hskip hfield ih
    rw [Build.collectFields, if_neg hskip, if_neg hfield, if_neg hsimple]
    exact ih
  case case30 =>
    intro c outer branch isBearer e hsequence hgroup hoptional hrepeated hskip hfield ih
    exact hunit hskip hfield (isUnit_of_other hsequence hgroup hoptional hrepeated) ih
  case case31 =>
    intro e ih
    rw [Build.ownValue]
    exact ih
  case case32 =>
    intro e isBearer hbearer ih
    rw [Build.ownValue, if_neg hbearer]
    exact ih
  case case33 =>
    intro c outer branch
    rw [Build.collectItems]
    exact hR.of_pure _
  case case34 =>
    intro c outer branch e rest ih ihrest
    rw [Build.collectItems]
    exact hR.bind ih fun _ => ihrest
  case case35 =>
    intro e ihbranches ihfill ihfill'
    by_cases hpolymorphic : sc.isPolymorphic e.classContent.1.core = true
    · obtain ⟨info, branches, hcore⟩ := Scope.alternation_of_isPolymorphic hpolymorphic
      rw [bearerClass_of_polymorphic hcore (hcore ▸ hpolymorphic)]
      refine .get_bind fun d => ?_
      split
      · exact hR.of_pure _
      · refine hR.bind hR.newClass fun base => hR.bind hR.recordClass fun _ =>
          hR.bind hR.recordClass fun _ => hR.bind ?_ fun _ => hR.of_pure _
        exact ihbranches _ _ rfl info branches hcore base
    · rw [bearerClass_of_concrete hpolymorphic]
      refine .get_bind fun d => ?_
      split
      · exact hR.of_pure _
      · refine hR.bind hR.newClass fun c => hR.bind hR.recordClass fun _ =>
          hR.bind ?_ fun _ => hR.of_pure _
        exact ihfill _ _ rfl [] c
  case case36 =>
    intro c content isBearer branches hbranches ih
    rw [fillClass_of_branches hbranches]
    exact hR.bind ih fun _ => hR.relaxPartial
  case case37 =>
    intro c content isBearer hbranches ih
    rw [fillClass_of_none hbranches]
    exact ih
  case case38 =>
    intro c index
    rw [Build.collectBranches]
    exact hR.of_pure _
  case case39 =>
    intro c index e rest ih ihrest
    rw [Build.collectBranches]
    exact hR.bind ih fun _ => ihrest
  case case40 =>
    intro hint info branches ih
    rw [Build.groupValue]
    exact hrecord ih
  case case41 =>
    intro hint info inner hkeeps ih
    rw [Build.groupValue, if_pos hkeeps]
    exact ih
  case case42 =>
    intro hint info inner hkeeps ih
    rw [Build.groupValue, if_neg hkeeps]
    exact hrecord ih
  case case43 =>
    intro hint e halternation hgroup ih
    rw [groupValue_other halternation hgroup]
    exact ih

/-! ## The rules -/

variable {sc : Scope} {roles : Array RuleRole}

/-- Finding the value of a rule leads to a draft in the relation, even if it is found to need its
own value. -/
theorem NamingPassage.ruleValue (hR : NamingPassage R)
    (hrecursive : ∀ d name span, R d (d.noted (.recursiveValue name) span)) (depth : Nat)
    (id : RuleId) : Leads R (ruleValue sc roles depth id) := by
  induction depth generalizing id with
  | zero => exact hR.of_pure _
  | succ depth ih =>
    unfold Build.ruleValue
    split
    · exact hR.of_pure _
    · exact hR.of_pure _
    · rename_i rule _ _
      refine .get_bind fun d => ?_
      split
      · exact hR.of_pure _
      · split
        · refine hR.bind (fun d u d' h => ?_) fun _ => hR.bind hR.setProgress fun _ => hR.of_pure _
          obtain rfl := modify_eq.mp h
          exact hrecursive d rule.name rule.nameSpan
        · exact hR.of_pure _
      · refine hR.bind hR.setProgress fun _ => hR.bind ?_ fun value =>
          hR.bind hR.setProgress fun _ => hR.of_pure _
        exact (hR.walksLead ih).elementValue rule.body false

theorem NamingPassage.analyzeRule (hR : NamingPassage R)
    (hrecursive : ∀ d name span, R d (d.noted (.recursiveValue name) span)) (id : RuleId)
    (rule : Rule) : Leads R (analyzeRule sc roles id rule) := by
  have hvalue (depth : Nat) : ∀ id, Leads R (Build.ruleValue sc roles depth id) :=
    hR.ruleValue hrecursive depth
  have hwalks : WalksLead R (Build.ruleValue sc roles sc.rules.size) (scopeOf sc roles rule) :=
    hR.walksLead (hvalue sc.rules.size)
  unfold Build.analyzeRule
  dsimp only
  split
  · exact hwalks.fillClass _ _ _
  · refine hR.bind hR.recordClass fun _ => ?_
    split
    · exact hwalks.polymorphicBranches _ _ _
    · exact hR.of_pure _
  · refine hR.bind hR.recordClass fun _ => ?_
    split
    · exact hR.bind (hwalks.elementValues _) fun _ => hR.addVariants
    · exact hR.of_pure _
  · exact .discard (hvalue _ id)

theorem NamingPassage.analyzeRules (hR : NamingPassage R)
    (hrecursive : ∀ d name span, R d (d.noted (.recursiveValue name) span)) (id : RuleId)
    (rules : List Rule) : Leads R (analyzeRules sc roles id rules) := by
  induction rules generalizing id with
  | nil => exact hR.of_pure ()
  | cons rule rest ih => exact hR.bind (hR.analyzeRule hrecursive id rule) fun _ => ih (id + 1)

end
end Build
end AnnotatedGrammar
