import AnnotatedGrammar.Proofs.Analysis.Stages
import AnnotatedGrammar.Proofs.Artifact.Attempts

/-!
# Settled models

The checks at the end of building a model leave what was settled as it is, apart from types that are
generalized to a base. So the model of a grammar is settled: every rule body is what the analysis
found it to be, every field belongs to its class, and every tagged class has variants.
-/

namespace AnnotatedGrammar

open Build AnnotatedGrammar.Expr

/-- A value is one that types may have been declared for. -/
def Draft.ClaimedAt (d : Draft) (id : NodeId) (v : Option Value) : Prop :=
  ∀ claim ∈ d.typeClaims, claim.node = id →
    ∃ w, v = some w ∧ w.cardinality = claim.value.cardinality

theorem Draft.Claimed.at {d : Draft} (h : d.Claimed) {id : NodeId} {v : Option Value}
    (hv : d.nodeValues.get? id = some v) : d.ClaimedAt id v := by
  rintro claim hclaim rfl
  have hvalue := h claim hclaim
  rw [hv] at hvalue
  exact ⟨claim.value, Option.some.inj hvalue, rfl⟩

/-- What the last checks leave alone. The values of expressions keep their cardinality. -/
structure Concludes (d d' : Draft) : Prop where
  errors_eq : d'.errors = #[] → d.errors = #[]
  progress_eq : d'.progress = d.progress
  nodeClasses_eq : d'.nodeClasses = d.nodeClasses
  nodeFields_eq : d'.nodeFields = d.nodeFields
  typeClaims_eq : d'.typeClaims = d.typeClaims
  entries_eq : d'.entries = d.entries
  classes_size : d'.classes.size = d.classes.size
  class_kept : ∀ c, (d'.classAt c).kind = (d.classAt c).kind ∧
    (d'.classAt c).base = (d.classAt c).base ∧
      (d'.classAt c).variants = (d.classAt c).variants ∧
        (d'.classAt c).fields = (d.classAt c).fields
  origin_kept : ∀ c, (d'.classAt c).origin = (d.classAt c).origin
  fields_size : d'.fields.size = d.fields.size
  field_kept : ∀ f, (d'.fieldAt f).id = (d.fieldAt f).id ∧
    (d'.fieldAt f).owner = (d.fieldAt f).owner ∧
      (d'.fieldAt f).cardinality = (d.fieldAt f).cardinality ∧
        (d'.fieldAt f).nodes = (d.fieldAt f).nodes
  values : ∀ id v, d.nodeValues.get? id = some v → d.ClaimedAt id v →
    ∃ w, d'.nodeValues.get? id = some w ∧ Option.Rel (Value.Agrees False) v w

namespace Concludes

variable {d d' d'' : Draft}

theorem refl (d : Draft) : Concludes d d where
  errors_eq h := h
  progress_eq := rfl
  nodeClasses_eq := rfl
  nodeFields_eq := rfl
  typeClaims_eq := rfl
  entries_eq := rfl
  classes_size := rfl
  class_kept _ := ⟨rfl, rfl, rfl, rfl⟩
  origin_kept _ := rfl
  fields_size := rfl
  field_kept _ := ⟨rfl, rfl, rfl, rfl⟩
  values _ v h _ := ⟨v, h, Value.agrees_refl v⟩

theorem agrees_trans {u v w : Option Value} (h : Option.Rel (Value.Agrees False) u v)
    (h' : Option.Rel (Value.Agrees False) v w) : Option.Rel (Value.Agrees False) u w := by
  cases h with
  | none => exact h'
  | some hfirst =>
    cases h' with
    | some hsecond =>
      exact .some ⟨hsecond.cardinality_eq.trans hfirst.cardinality_eq, fun h => h.elim⟩

theorem trans (h : Concludes d d') (h' : Concludes d' d'') : Concludes d d'' where
  errors_eq herrors := h.errors_eq (h'.errors_eq herrors)
  progress_eq := h'.progress_eq.trans h.progress_eq
  nodeClasses_eq := h'.nodeClasses_eq.trans h.nodeClasses_eq
  nodeFields_eq := h'.nodeFields_eq.trans h.nodeFields_eq
  typeClaims_eq := h'.typeClaims_eq.trans h.typeClaims_eq
  entries_eq := h'.entries_eq.trans h.entries_eq
  classes_size := h'.classes_size.trans h.classes_size
  class_kept c := by
    obtain ⟨hkind, hbase, hvariants, hfields⟩ := h.class_kept c
    obtain ⟨hkind', hbase', hvariants', hfields'⟩ := h'.class_kept c
    exact ⟨hkind'.trans hkind, hbase'.trans hbase, hvariants'.trans hvariants,
      hfields'.trans hfields⟩
  origin_kept c := (h'.origin_kept c).trans (h.origin_kept c)
  fields_size := h'.fields_size.trans h.fields_size
  field_kept f := by
    obtain ⟨hid, howner, hcardinality, hnodes⟩ := h.field_kept f
    obtain ⟨hid', howner', hcardinality', hnodes'⟩ := h'.field_kept f
    exact ⟨hid'.trans hid, howner'.trans howner, hcardinality'.trans hcardinality,
      hnodes'.trans hnodes⟩
  values id v hv hclaimed := by
    obtain ⟨w, hw, hagrees⟩ := h.values id v hv hclaimed
    obtain ⟨w', hw', hagrees'⟩ := h'.values id w hw fun claim hclaim hid => by
      rw [h.typeClaims_eq] at hclaim
      obtain ⟨x, rfl, hcardinality⟩ := hclaimed claim hclaim hid
      cases hagrees with
      | some hagrees => exact ⟨_, rfl, hagrees.cardinality_eq.trans hcardinality⟩
    exact ⟨w', hw', agrees_trans hagrees hagrees'⟩

end Concludes

section

variable {d d' : Draft} {u : Unit}

theorem Build.Faults.concludes (h : Faults d d') : Concludes d d' := by
  obtain ⟨errors, rfl, herrors⟩ := h
  exact { Concludes.refl d with errors_eq := herrors }

theorem Build.updateClass_concludes {c : ClassId} {f : ClassDraft → ClassDraft}
    (h : updateClass c f d = (u, d')) (hf : ∀ cls, (f cls).model.kind = cls.model.kind ∧
      (f cls).model.base = cls.model.base ∧ (f cls).model.variants = cls.model.variants ∧
        (f cls).model.fields = cls.model.fields)
    (horigin : ∀ cls, (f cls).model.origin = cls.model.origin) : Concludes d d' := by
  have hat := updateClass_classAt h
  rw [updateClass_eq h] at hat ⊢
  refine { Concludes.refl d with
    classes_size := Array.size_modify, class_kept := fun c' => ?_, origin_kept := fun c' => ?_ }
  · rw [hat]
    split
    · rename_i heq
      rw [heq.1]
      exact hf _
    · exact ⟨rfl, rfl, rfl, rfl⟩
  · rw [hat]
    split
    · rename_i heq
      rw [heq.1]
      exact horigin _
    · rfl

theorem Build.updateField_concludes {field : FieldId} {f : FieldDraft → FieldDraft}
    (h : updateField field f d = (u, d')) (hf : ∀ fld, (f fld).model.id = fld.model.id ∧
      (f fld).model.owner = fld.model.owner ∧ (f fld).model.cardinality = fld.model.cardinality ∧
        (f fld).model.nodes = fld.model.nodes) : Concludes d d' := by
  have hat := updateField_fieldAt h
  rw [updateField_eq h] at hat ⊢
  refine { Concludes.refl d with fields_size := Array.size_modify, field_kept := fun f' => ?_ }
  rw [hat]
  split
  · rename_i heq
    rw [heq.1]
    exact hf _
  · exact ⟨rfl, rfl, rfl, rfl⟩

/-- Giving a class its key changes nothing else. -/
theorem Build.applyKey_concludes {role : RuleRole} {rule : Rule}
    (h : applyKey role rule d = (u, d')) : Concludes d d' := by
  have hsame {u : Unit} (h : (pure () : Build Unit) d = (u, d')) : Concludes d d' := by
    obtain ⟨-, rfl⟩ := pure_eq.mp h
    exact .refl d
  unfold applyKey at h
  cases hkey : rule.marker? .keyOf with
  | none =>
    simp only [hkey] at h
    exact hsame h
  | some marker =>
  cases hclass : rule.marker? .classOf with
  | none =>
    simp only [hkey, hclass] at h
    exact hsame h
  | some _ =>
  cases hrole : role.class? with
  | none =>
    simp only [hkey, hclass, hrole] at h
    exact hsame h
  | some c =>
  cases hraw : marker.value with
  | none =>
    simp only [hkey, hclass, hrole, hraw] at h
    exact hsame h
  | some raw =>
  simp only [hkey, hclass, hrole, hraw] at h
  obtain ⟨_, _, hget, h⟩ := bind_eq.mp h
  obtain ⟨rfl, rfl⟩ := get_eq.mp hget
  cases hfound : (d.fieldsOf c).find? fun f =>
      f.sourceName == some raw || Naming.fieldName raw == some f.name with
  | none =>
    simp only [hfound] at h
    exact (fault_faults h).concludes
  | some f =>
    simp only [hfound] at h
    split at h
    · exact (fault_faults h).concludes
    · exact updateClass_concludes h (fun _ => ⟨rfl, rfl, rfl, rfl⟩) fun _ => rfl

/-- Comparing a declared type with the type of an element changes at most the type. -/
theorem Build.checkTypeClaim_concludes {claim : TypeClaim} (h : checkTypeClaim claim d = (u, d'))
    (hclaim : claim ∈ d.typeClaims) : Concludes d d' := by
  have hsame {u : Unit} {d₁ : Draft} (h : (pure () : Build Unit) d₁ = (u, d'))
      (hbefore : Concludes d d₁) : Concludes d d' := by
    obtain ⟨-, rfl⟩ := pure_eq.mp h
    exact hbefore
  have hfault {what : SemanticFault} {span : Span} (h : fault what span d = (u, d')) :
      Concludes d d' := (fault_faults h).concludes
  unfold checkTypeClaim at h
  obtain ⟨_, _, hget, h⟩ := bind_eq.mp h
  obtain ⟨rfl, rfl⟩ := get_eq.mp hget
  cases hword : Primitive.ofWord? claim.expected with
  | some p =>
    simp only [hword] at h
    split at h
    · exact hsame h (.refl d)
    · exact hfault h
  | none =>
  cases htarget : d.classes.findIdx? fun c =>
      c.model.sourceName == claim.expected || c.model.name == claim.expected with
  | none =>
    simp only [hword, htarget] at h
    exact hfault h
  | some target =>
  cases helement : claim.value.element with
  | primitive p =>
    simp only [hword, htarget, helement] at h
    exact hfault h
  | «instance» c =>
  simp only [hword, htarget, helement] at h
  split at h
  · exact hsame h (.refl d)
  split at h
  · obtain ⟨_, d₁, hrecord, h⟩ := bind_eq.mp h
    have hrecorded : Concludes d d₁ := by
      rw [recordValue_eq hrecord]
      refine { Concludes.refl d with values := fun id v hv hclaimed => ?_ }
      rw [NodeTable.get?_insert]
      split
      · rename_i heq
        obtain ⟨w, rfl, hcardinality⟩ := hclaimed claim hclaim heq
        exact ⟨_, rfl, .some ⟨hcardinality.symm, fun h => h.elim⟩⟩
      · exact ⟨v, hv, Value.agrees_refl v⟩
    cases hfield : d.nodeFields.get? claim.node with
    | none =>
      simp only [hfield] at h
      exact hsame h hrecorded
    | some field =>
      simp only [hfield] at h
      exact hrecorded.trans (updateField_concludes h fun _ => ⟨rfl, rfl, rfl, rfl⟩)
  · exact hfault h

/-- Reporting cycles among bases changes nothing else. -/
theorem Build.checkCycles_faults {reported classes : List ClassId}
    (h : checkCycles reported classes d = (u, d')) : Faults d d' := by
  induction classes generalizing reported d with
  | nil =>
    rw [checkCycles] at h
    obtain ⟨-, rfl⟩ := pure_eq.mp h
    exact .refl d
  | cons start rest ih =>
    rw [checkCycles] at h
    obtain ⟨_, _, hget, h⟩ := bind_eq.mp h
    obtain ⟨rfl, rfl⟩ := get_eq.mp hget
    cases hcycle : baseCycle? d start [start] (d.classes.size + 1) (d.classAt start).base with
    | none =>
      simp only [hcycle] at h
      exact ih h
    | some members =>
      simp only [hcycle] at h
      split at h
      · exact ih h
      · obtain ⟨_, d₁, hfault, h⟩ := bind_eq.mp h
        exact (fault_faults hfault).trans (ih h)

/-- What every run in a row does to the draft that the runs before it left, all of them do. -/
theorem Build.forM_related {R : Draft → Draft → Prop} (hrefl : ∀ d, R d d)
    (htrans : ∀ d₁ d₂ d₃, R d₁ d₂ → R d₂ d₃ → R d₁ d₃) {α : Type} {f : α → Build Unit}
    {xs : List α} (h : (xs.forM f : Build Unit) d = (u, d'))
    (hf : ∀ x ∈ xs, ∀ d₁ d₂, R d d₁ → f x d₁ = ((), d₂) → R d₁ d₂) : R d d' := by
  have hrun {xs : List α} {d₁ : Draft} (h : (xs.forM f : Build Unit) d₁ = (u, d'))
      (hbefore : R d d₁) (hf : ∀ x ∈ xs, ∀ d₁ d₂, R d d₁ → f x d₁ = ((), d₂) → R d₁ d₂) :
      R d d' := by
    induction xs generalizing d₁ with
    | nil =>
      obtain ⟨-, rfl⟩ := pure_eq.mp h
      exact hbefore
    | cons x rest ih =>
      obtain ⟨_, d₂, hfirst, hrest⟩ := bind_eq.mp h
      exact ih hrest (htrans d d₁ d₂ hbefore (hf x List.mem_cons_self d₁ d₂ hbefore hfirst))
        fun y hy => hf y (List.mem_cons_of_mem _ hy)
  exact hrun h (hrefl d) hf

theorem Build.forM_concludes {α : Type} {f : α → Build Unit} {xs : List α}
    (h : (xs.forM f : Build Unit) d = (u, d'))
    (hf : ∀ x ∈ xs, ∀ d₁ d₂, Concludes d d₁ → f x d₁ = ((), d₂) → Concludes d₁ d₂) :
    Concludes d d' :=
  forM_related Concludes.refl (fun _ _ _ => Concludes.trans) h hf

end

/-- Everything after the analysis of the bodies leaves alone what was settled. -/
theorem Grammar.Stages.concludes {grammar : Grammar} {preferences : ModelPreferences}
    {overrides : Overrides} {assigned analyzed keyed claimed : Draft}
    (h : grammar.Stages preferences overrides assigned analyzed keyed claimed) :
    Concludes analyzed (grammar.draft preferences overrides).draft := by
  have hkeyed : Concludes analyzed keyed :=
    forM_concludes h.key fun _ _ _ _ _ hkey => applyKey_concludes hkey
  have hafter : Concludes keyed claimed := by
    refine forM_concludes h.claim fun claim hclaim d₁ d₂ hbefore hcheck => ?_
    refine checkTypeClaim_concludes hcheck ?_
    rw [hbefore.typeClaims_eq]
    exact Array.mem_toList_iff.mp hclaim
  exact (hkeyed.trans hafter).trans (checkCycles_faults h.cycles).concludes

/-! ## The finished model -/

namespace DraftedModel

variable {drafted : DraftedModel}

theorem ruleModels_getElem? (drafted : DraftedModel) (first : RuleId) (rules : List Rule)
    (i : Nat) : (drafted.ruleModels first rules)[i]? = rules[i]?.map fun rule =>
      { id := first + i, name := rule.name, symbol := Naming.nonterminalSymbol rule.name,
        role := drafted.roles.getD (first + i) .passthrough,
        value :=
          match (drafted.roles.getD (first + i) .passthrough).class? with
          | some c => some (Value.ofClass c)
          | none =>
            match drafted.draft.progress.getD (first + i) .pending with
            | .done value => value
            | _ => none
        span := rule.span } := by
  induction rules generalizing first i with
  | nil => rfl
  | cons rule rest ih =>
    cases i with
    | zero => rfl
    | succ i =>
      rw [ruleModels, List.getElem?_cons_succ, ih, List.getElem?_cons_succ, Nat.add_assoc,
        Nat.add_comm 1 i]

theorem class?_model (grammar : Grammar) {c : ClassId} (hc : c < drafted.draft.classes.size) :
    (drafted.model grammar).class? c = some (drafted.draft.classAt c) := by
  simp only [GrammarModel.class?, model, Array.getElem?_map, Draft.classAt,
    Array.getD_eq_getD_getElem?, Array.getElem?_eq_getElem hc]
  rfl

theorem class?_eq_some (grammar : Grammar) {c : ClassId} {cls : ClassModel}
    (h : (drafted.model grammar).class? c = some cls) :
    c < drafted.draft.classes.size ∧ drafted.draft.classAt c = cls := by
  have hlt : c < drafted.draft.classes.size := by
    have hlt := (Array.getElem?_eq_some_iff.mp h).1
    rwa [model, Array.size_map] at hlt
  rw [class?_model grammar hlt] at h
  exact ⟨hlt, Option.some.inj h⟩

theorem field?_model (grammar : Grammar) {f : FieldId} (hf : f < drafted.draft.fields.size) :
    (drafted.model grammar).field? f = some (drafted.draft.fieldAt f) := by
  simp only [GrammarModel.field?, model, Array.getElem?_map, Draft.fieldAt,
    Array.getD_eq_getD_getElem?, Array.getElem?_eq_getElem hf]
  rfl

theorem field?_eq_some (grammar : Grammar) {f : FieldId} {fld : FieldModel}
    (h : (drafted.model grammar).field? f = some fld) :
    f < drafted.draft.fields.size ∧ drafted.draft.fieldAt f = fld := by
  have hlt : f < drafted.draft.fields.size := by
    have hlt := (Array.getElem?_eq_some_iff.mp h).1
    rwa [model, Array.size_map] at hlt
  rw [field?_model grammar hlt] at h
  exact ⟨hlt, Option.some.inj h⟩

theorem rule?_model (grammar : Grammar) (r : RuleId) :
    (drafted.model grammar).rule? r = grammar.rules[r]?.map fun rule =>
      { id := r, name := rule.name, symbol := Naming.nonterminalSymbol rule.name,
        role := drafted.roles.getD r .passthrough,
        value :=
          match (drafted.roles.getD r .passthrough).class? with
          | some c => some (Value.ofClass c)
          | none =>
            match drafted.draft.progress.getD r .pending with
            | .done value => value
            | _ => none
        span := rule.span } := by
  have hget := drafted.ruleModels_getElem? 0 grammar.rules.toList r
  rw [Nat.zero_add] at hget
  rw [GrammarModel.rule?, model, List.getElem?_toArray, hget, Array.getElem?_toList]

end DraftedModel

namespace Grammar

variable {grammar : Grammar} {preferences : ModelPreferences} {overrides : Overrides}

/-- What is known about a grammar whose draft has no errors, after the first two stages. -/
structure Analyzed (grammar : Grammar) (preferences : ModelPreferences) (overrides : Overrides)
    (assigned analyzed : Draft) : Prop where
  assign : assignRoles (grammar.scope preferences overrides) #[] grammar.rules.toList
    (grammar.firstDraft preferences overrides) =
      ((grammar.draft preferences overrides).roles, assigned)
  analyze : analyzeRules (grammar.scope preferences overrides)
    (grammar.draft preferences overrides).roles 0 grammar.rules.toList assigned = ((), analyzed)
  ready : RolesReady (grammar.scope preferences overrides)
    (grammar.draft preferences overrides).roles (grammar.firstDraft preferences overrides) assigned
  settles : ∀ m : GrammarModel, Settles False m (grammar.scope preferences overrides)
    (grammar.draft preferences overrides).roles
    (rulesCells (grammar.draft preferences overrides).roles 0 grammar.rules.toList)
    (∀ (i : Nat) rule, grammar.rules.toList[i]? = some rule →
      ClassRuleSettled False m (grammar.draft preferences overrides).roles (0 + i) rule.body)
    assigned analyzed
  wellFormed : analyzed.WellFormed
  progress_size : analyzed.progress.size = grammar.rules.size
  waiting : ∀ r : RuleId, (assigned.progress[r]? = some .pending ↔ r < grammar.rules.size)
  progress : ∀ (i : Nat) rule, grammar.rules.toList[i]? = some rule →
    (grammar.draft preferences overrides).roles.getD (0 + i) .passthrough = .passthrough →
      analyzed.progress[0 + i]? ≠ some .pending
  concludes : Concludes analyzed (grammar.draft preferences overrides).draft
  started : (grammar.firstDraft preferences overrides).errors = #[]

theorem exists_analyzed (hparsed : grammar.IsParsed)
    (herrors : (grammar.draft preferences overrides).draft.errors = #[]) :
    ∃ assigned analyzed, grammar.Analyzed preferences overrides assigned analyzed := by
  obtain ⟨assigned, analyzed, keyed, claimed, hstages⟩ :=
    grammar.exists_stages preferences overrides
  have hseparate : (grammar.scope preferences overrides).Separate := hparsed.separate rfl
  have hrules := grammar.rulesFrom_scope preferences overrides
  have hfirst : (grammar.firstDraft preferences overrides).Blank := Draft.empty_blank _ _ _
  have hready := assignRoles_ready hstages.assign hrules (.empty _ _ _)
  have hprogress : assigned.progress = Array.replicate grammar.rules.size .pending :=
    hready.quiet.progress_eq
  have hsize : assigned.progress.size = grammar.rules.size := by
    rw [hprogress]
    exact Array.size_replicate
  have hsound := hready.sound hfirst hsize
  have hwf := hsound.wellFormed
  have hopen := hready.rules_open hfirst hseparate hrules
  have hframe := analyzeRules_frame hseparate hready.fits hrules hstages.analyze hwf
  have hconcludes := hstages.concludes
  have herrors' : analyzed.errors = #[] := hconcludes.errors_eq herrors
  refine ⟨assigned, analyzed, hstages.assign, hstages.analyze, hready, fun m => ?_,
    hframe.wellFormed hwf, hframe.progress_size.trans hsize, fun r => ?_,
    fun i rule hrule hrole => ?_,
    hconcludes, hready.quiet.plain.errors_eq (hframe.errors_eq herrors')⟩
  · exact analyzeRules_settles hseparate hready.fits hsize hrules hstages.analyze
      hsound hopen herrors'
  · rw [hprogress, Array.getElem?_replicate]
    split <;> simp_all
  · exact analyzeRules_progress hseparate hready.fits hrules hstages.analyze hwf i hrule hrole

variable {assigned analyzed : Draft}

/-- The model keeps what the analysis found. -/
theorem Analyzed.keeps (h : grammar.Analyzed preferences overrides assigned analyzed) :
    Keeps False ((grammar.draft preferences overrides).model grammar)
      (grammar.scope preferences overrides) (grammar.draft preferences overrides).roles
      analyzed := by
  have hconcludes := h.concludes
  refine ⟨rfl, fun c cls hcls id hid f hf => ?_, fun r c hclass => ?_, fun r v hclass hdone => ?_,
    fun r hr => ?_, fun c hc => ?_, fun f hf => ?_⟩
  · obtain ⟨hc, rfl⟩ := DraftedModel.class?_eq_some grammar hcls
    obtain ⟨hlt, rfl⟩ := DraftedModel.field?_eq_some grammar hf
    rw [hconcludes.classes_size] at hc
    rw [hconcludes.fields_size] at hlt
    rw [(hconcludes.class_kept c).2.2.2] at hid
    have hkept := hconcludes.field_kept id
    rw [hkept.1, hkept.2.1]
    exact ⟨h.wellFormed.field_id id hlt, (h.wellFormed.owner_eq c hc id hid).2⟩
  · have hlt := (h.ready.fits.class_lt r c hclass).1
    have hrule : grammar.rules[r]? = some grammar.rules[r] := Array.getElem?_eq_getElem hlt
    rw [DraftedModel.rule?_model, hrule]
    simp only [hclass, Option.map_some, Option.bind_some]
  · rw [DraftedModel.rule?_model, hconcludes.progress_eq]
    rw [Array.getD_eq_getD_getElem?] at hdone
    by_cases hlt : r < analyzed.progress.size
    · have hlt' : r < grammar.rules.size := h.progress_size ▸ hlt
      have hrule : grammar.rules[r]? = some grammar.rules[r] := Array.getElem?_eq_getElem hlt'
      rw [Array.getElem?_eq_getElem hlt, Option.getD_some] at hdone
      have hfound : analyzed.progress.getD r .pending = .done v := by
        rw [Array.getD_eq_getD_getElem?, Array.getElem?_eq_getElem hlt, Option.getD_some, hdone]
      rw [hrule]
      simp only [hclass, Option.map_some, Option.bind_some, hfound]
    · have hge := Nat.not_lt.mp hlt
      rw [Array.getElem?_eq_none hge, Option.getD_none] at hdone
      cases hdone
      rw [Array.getElem?_eq_none (h.progress_size ▸ hge)]
      rfl
  · rw [DraftedModel.rule?_model]
    have hnone : grammar.rules[r]? = none := hr
    rw [hnone]
    rfl
  · have hkept := hconcludes.class_kept c
    refine ⟨_, DraftedModel.class?_model grammar (hconcludes.classes_size ▸ hc), hkept.1,
      fun b hb => hkept.2.1.trans hb⟩
  · have hkept := hconcludes.field_kept f
    exact ⟨_, DraftedModel.field?_model grammar (hconcludes.fields_size ▸ hf),
      Nat.le_of_eq (by rw [hkept.2.2.1]), fun h => h.elim⟩

/-- The model agrees with the analysis on every cell. -/
theorem Analyzed.tracks (h : grammar.Analyzed preferences overrides assigned analyzed)
    (T : Cell → Prop) :
    Tracks False ((grammar.draft preferences overrides).model grammar)
      (grammar.scope preferences overrides) (grammar.draft preferences overrides).roles
      analyzed T := by
  have hconcludes := h.concludes
  refine ⟨h.keeps, fun cell _ => ?_⟩
  cases cell with
  | value id =>
    intro v hv
    exact hconcludes.values id v hv ((h.settles default).claimed.at hv)
  | nodeClass id =>
    change (grammar.draft preferences overrides).draft.nodeClasses.get? id = _
    rw [hconcludes.nodeClasses_eq]
  | filling c id =>
    intro f hf
    obtain ⟨hfield, howner⟩ := h.keeps.owned.fieldFor? hf
    obtain ⟨hlt, heq⟩ := DraftedModel.field?_eq_some grammar hfield
    obtain ⟨-, howner', -, hnodes⟩ := hconcludes.field_kept f.id
    refine ⟨hconcludes.fields_size ▸ hlt, ?_, ?_⟩
    · rw [← howner', heq]
      exact howner
    · have hmem := List.find?_some hf
      rw [← hnodes, heq]
      exact List.contains_iff_mem.mp hmem
  | variants c =>
    intro cls hcls
    obtain ⟨-, rfl⟩ := DraftedModel.class?_eq_some grammar hcls
    exact (hconcludes.class_kept c).2.2.1

/-- Every rule of the model has the body that the analysis found. -/
theorem Analyzed.settled (h : grammar.Analyzed preferences overrides assigned analyzed)
    {r : RuleId} {rule : Rule} {model : RuleModel} (hrule : grammar.rules[r]? = some rule)
    (hmodel : ((grammar.draft preferences overrides).model grammar).rule? r = some model) :
    Settled.Rule False ((grammar.draft preferences overrides).model grammar) model rule.body := by
  have hrule' : grammar.rules.toList[r]? = some rule := by rwa [Array.getElem?_toList]
  have hrole : model.role = (grammar.draft preferences overrides).roles.getD r .passthrough := by
    rw [DraftedModel.rule?_model, hrule] at hmodel
    rw [← Option.some.inj hmodel]
  obtain ⟨hclasses, hrules, -⟩ :=
    (h.settles ((grammar.draft preferences overrides).model grammar)).settled (h.tracks _)
  cases hclass : ((grammar.draft preferences overrides).roles.getD r .passthrough).class? with
  | some c =>
    have hsettled := hclasses r rule hrule'
    rw [Nat.zero_add] at hsettled
    exact hsettled c hclass model hmodel hrole
  | none =>
    have hpassthrough : (grammar.draft preferences overrides).roles.getD r .passthrough =
        .passthrough := by
      generalize (grammar.draft preferences overrides).roles.getD r .passthrough = role at hclass
      cases role with
      | passthrough => rfl
      | _ => cases hclass
    have hprogress := h.progress r rule hrule' (by rw [Nat.zero_add]; exact hpassthrough)
    rw [Nat.zero_add] at hprogress
    have hlt := (Array.getElem?_eq_some_iff.mp hrule).1
    obtain ⟨v, hdone, helement⟩ := hrules r rule.body
      (Scope.lazyBody?_eq_some.mpr ⟨hclass, rule, hrule, rfl⟩) ((h.waiting r).mpr hlt) hprogress
    have hvalue := h.keeps.done_value r v hclass (by
      rw [Array.getD_eq_getD_getElem?, hdone]
      rfl)
    rw [hmodel] at hvalue
    have hvalue' : model.value = v := hvalue
    unfold Settled.Rule
    rw [hrole, hpassthrough, hvalue']
    exact helement

/-- Nothing is wrong with the markers and names of the rules. -/
theorem Analyzed.ruleErrors_eq (h : grammar.Analyzed preferences overrides assigned analyzed)
    {rule : Rule} (hrule : rule ∈ grammar.rules.toList) : rule.markerErrors = [] ∧
      rule.referenceErrors (grammar.scope preferences overrides).symbols = [] := by
  have herrors : grammar.ruleErrors (grammar.scope preferences overrides).symbols = [] := by
    have hstarted := h.started
    simp only [firstDraft, Draft.empty] at hstarted
    simp only [List.toArray_eq_iff, List.append_eq_nil_iff] at hstarted
    exact hstarted.2
  exact List.append_eq_nil_iff.mp (List.flatMap_eq_nil_iff.mp herrors rule hrule)

/-- Names in rule bodies stand for something, and alternations are as the parser makes them. -/
theorem Analyzed.regular (h : grammar.Analyzed preferences overrides assigned analyzed)
    (hparsed : grammar.IsParsed) {rule : Rule} (hrule : rule ∈ grammar.rules.toList) :
    rule.body.Regular False ((grammar.draft preferences overrides).model grammar) := by
  have hnames := (h.ruleErrors_eq hrule).2
  intro e he
  have hshaped := hparsed.shaped rule hrule e he
  refine ⟨fun info name heq => ?_, hshaped.hasBranches, hshaped.isUnmarked, fun h => h.elim⟩
  subst heq
  have hmem : (name, info.span) ∈ rule.body.references := by
    unfold Expr.references
    exact List.mem_filterMap.mpr ⟨_, he, rfl⟩
  unfold Rule.referenceErrors at hnames
  have hfilter := List.map_eq_nil_iff.mp hnames
  have hcontains := List.filter_eq_nil_iff.mp hfilter _ hmem
  simp only [Bool.not_eq_true', Bool.not_eq_false] at hcontains
  change ((grammar.scope preferences overrides).symbols.resolve? name).isSome = true
  unfold SymbolTable.contains at hcontains
  rw [SymbolTable.resolve?, Option.isSome_map]
  exact hcontains

/-- Every tagged class has variants. -/
theorem Analyzed.tags (h : grammar.Analyzed preferences overrides assigned analyzed)
    (hparsed : grammar.IsParsed) :
    ((grammar.draft preferences overrides).model grammar).TagsHaveVariants := by
  intro c cls hcls hkind
  obtain ⟨hc, rfl⟩ := DraftedModel.class?_eq_some grammar hcls
  obtain ⟨hkind', -, hvariants, -⟩ := h.concludes.class_kept c
  rw [h.concludes.classes_size] at hc
  have hsettles := h.settles ((grammar.draft preferences overrides).model grammar)
  by_cases hbefore : c < assigned.classes.size
  · -- the class of a rule, whose variants stand for the branches of its body
    obtain ⟨r, hclass⟩ := h.ready.class_of c hbefore
    have hlt := (h.ready.fits.class_lt r c hclass).1
    have hrule : grammar.rules[r]? = some grammar.rules[r] := Array.getElem?_eq_getElem hlt
    have hmodel : ((grammar.draft preferences overrides).model grammar).rule? r = _ :=
      DraftedModel.rule?_model grammar r
    rw [hrule] at hmodel
    have hsettled := h.settled hrule hmodel
    have htagged : (grammar.draft preferences overrides).roles.getD r .passthrough = .tagged c := by
      have hkind'' := h.ready.fits.kind_eq r c hclass
      rw [← hsettles.frame.kind_eq c hbefore, ← hkind', hkind] at hkind''
      generalize (grammar.draft preferences overrides).roles.getD r .passthrough = role
        at hclass hkind''
      cases role with
      | tagged => exact congrArg _ (Option.some.inj hclass)
      | _ => cases hkind''
    unfold Settled.Rule at hsettled
    simp only [htagged] at hsettled
    obtain ⟨-, info, branches, hcore, hchoice⟩ := hsettled
    have hshaped := (hparsed.shaped _
      (List.mem_of_getElem? (Array.getElem?_toList.trans hrule))).core
    rw [hcore] at hshaped
    cases hchoice with
    | base habstract =>
      obtain ⟨cls, hcls', habstract⟩ := habstract
      obtain rfl := Option.some.inj (hcls.symm.trans hcls')
      rw [hkind] at habstract
      cases habstract
    | tagged hcls' _ _ hfor =>
      obtain rfl := Option.some.inj (hcls.symm.trans hcls')
      intro hnone
      rw [hnone] at hfor
      cases hfor
      exact hshaped.self.hasBranches info [] rfl rfl
  · rw [hvariants]
    exact hsettles.tagged c (Nat.not_lt.mp hbefore) hc (hkind'.symm.trans hkind)

/-- A class that was made for an expression is the one that the model has for it. -/
theorem Analyzed.placed (h : grammar.Analyzed preferences overrides assigned analyzed) {c : ClassId}
    {cls : ClassModel} {b : NodeId}
    (hcls : ((grammar.draft preferences overrides).model grammar).class? c = some cls)
    (hb : cls.origin = .node b ∨ cls.origin = .synthesized b) :
    ((grammar.draft preferences overrides).model grammar).nodeClasses.get? b = some c := by
  obtain ⟨hc, rfl⟩ := DraftedModel.class?_eq_some grammar hcls
  rw [h.concludes.classes_size] at hc
  rw [h.concludes.origin_kept c] at hb
  have hsettles := h.settles ((grammar.draft preferences overrides).model grammar)
  by_cases hbefore : c < assigned.classes.size
  · obtain ⟨r, horigin⟩ := h.ready.origin_of c hbefore
    rw [hsettles.frame.origin_eq c hbefore, horigin] at hb
    simp at hb
  · exact (hsettles.settled (h.tracks _)).2.2 c (Nat.not_lt.mp hbefore) hc b hb

/-- What was built is settled. -/
structure IsSettled (m : GrammarModel) : Prop where
  owned : m.FieldsOwned
  tags : m.TagsHaveVariants
  rules : ∀ entry ∈ m.rules.toList.zip m.grammar.rules.toList,
    Settled.Rule False m entry.1 entry.2.body ∧ entry.2.body.Regular False m

/-- The model of a parsed grammar is settled. -/
theorem buildModel_settled {m : GrammarModel} (hparsed : grammar.IsParsed)
    (h : (grammar.buildModel preferences overrides).result = .ok m) : IsSettled m := by
  obtain ⟨-, herrors, rfl⟩ := buildModel_eq_ok h
  obtain ⟨assigned, analyzed, hanalyzed⟩ := exists_analyzed hparsed herrors
  refine ⟨hanalyzed.keeps.owned, hanalyzed.tags hparsed, fun entry hentry => ?_⟩
  obtain ⟨i, hi⟩ := List.mem_iff_getElem?.mp hentry
  obtain ⟨hmodel, hrule⟩ := List.getElem?_zip_eq_some.mp hi
  rw [Array.getElem?_toList] at hmodel hrule
  exact ⟨hanalyzed.settled hrule hmodel, hanalyzed.regular hparsed (List.of_mem_zip hentry).2⟩

end Grammar

end AnnotatedGrammar
