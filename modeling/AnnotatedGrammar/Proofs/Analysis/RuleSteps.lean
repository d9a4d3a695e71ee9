import AnnotatedGrammar.Proofs.Analysis.Conclusion
import AnnotatedGrammar.Proofs.Analysis.WalkSteps

/-!
# Building a model as steps

The roles of rules, the values of rules that are found on demand and the bodies of all rules take
steps only, and the checks at the end take only steps of theirs.
-/

namespace AnnotatedGrammar

open AnnotatedGrammar.Expr Build Tables

section

variable {sc : Scope} {roles : Array RuleRole} {bound : Nat} {d d' : Draft} {r : RuleId}
  {rule : Rule} {u : Unit}

/-- The expressions of the body of a rule occur in the grammar. -/
theorem Scope.occurs_body (hrule : sc.rules[r]? = some rule) : rule.body.Throughout sc.Occurs :=
  fun _ he => ⟨rule, Array.mem_of_getElem? hrule, he⟩

/-- Finding the value of a rule takes steps, as long as the classes of all roles are there. -/
theorem Build.ruleValue_steps (hseparate : sc.Separate)
    (hbegins : Naming.IsBeginning sc.classPrefix)
    (hroles : ∀ r c, (roles.getD r .passthrough).class? = some c → c < bound) (depth : Nat) :
    ∀ r d v d', ruleValue sc roles depth r d = (v, d') → d.tables.Ready sc bound →
      Steps sc d.tables d'.tables ∧ d'.tables.Holds v := by
  induction depth with
  | zero =>
    intro r d v d' h _
    rw [ruleValue] at h
    obtain ⟨rfl, rfl⟩ := pure_eq.mp h
    exact ⟨.refl _ _, holds_none _⟩
  | succ depth ih =>
    intro r d v d' h hready
    rcases ruleValue_cases hseparate h with ⟨c, hclass, rfl, rfl⟩ | ⟨-, rfl, rfl⟩ |
      ⟨-, hdone, rfl⟩ | ⟨rfl, -, rfl⟩ | ⟨rfl, -, rule, -, -, rfl⟩ | ⟨rule, d₁, d₂, hvisits, hvalue⟩
    · exact ⟨.refl _ _, holds_class (Nat.lt_of_lt_of_le (hroles r c hclass) hready.bound_le)⟩
    · exact ⟨.refl _ _, holds_none _⟩
    · refine ⟨.refl _ _, ?_⟩
      rw [Array.getD_eq_getD_getElem?] at hdone
      cases hprogress : d'.progress[r]? with
      | none =>
        rw [hprogress] at hdone
        cases hdone
        exact holds_none _
      | some p =>
        rw [hprogress] at hdone
        obtain rfl : p = .done v := hdone
        exact hready.inRange.progress r v hprogress
    · exact ⟨.refl _ _, holds_none _⟩
    · exact ⟨.one (.progress (fun v hv => by cases hv)), holds_none _⟩
    · obtain ⟨-, rule', hrule, hbody⟩ := Scope.lazyBody?_eq_some.mp hvisits.body_eq
      have hwalk : WalkSteps bound (ruleValue sc roles depth) (scopeOf sc roles rule) :=
        walkSteps hbegins ih
      have hstart : Tables.Step sc d.tables d₁.tables := by
        rw [hvisits.start_eq]
        exact .progress fun v hv => by cases hv
      obtain ⟨hsteps, hholds⟩ := hwalk.elementValue rule.body false d₁ v d₂ hvalue
        (hready.steps (.one hstart)) (hbody ▸ Scope.occurs_body hrule)
      have hend : Tables.Step sc d₂.tables d'.tables := by
        rw [hvisits.end_eq]
        refine .progress fun w hw => ?_
        cases hw
        exact hholds
      exact ⟨((Steps.one hstart).trans hsteps).trans (.one hend), hend.grows.holds hholds⟩

/-- The classes of rules are of the kinds that the roles ask for. -/
theorem RolesFit.hasKind {c : ClassId} {kind : ClassKind} (h : RolesFit sc roles d)
    (hclass : (roles.getD r .passthrough).class? = some c)
    (hkind : (roles.getD r .passthrough).kind? = some kind) : d.tables.HasKind c kind := by
  refine ⟨_, Draft.tables_classes_getElem? (h.class_lt r c hclass).2, ?_⟩
  exact Option.some.inj ((h.kind_eq r c hclass).symm.trans hkind)

/-- The analysis of a rule takes steps, if its class has no variants yet. -/
theorem Build.analyzeRule_steps (hseparate : sc.Separate)
    (hbegins : Naming.IsBeginning sc.classPrefix) (hfit : RolesFit sc roles d)
    (hroles : ∀ r c, (roles.getD r .passthrough).class? = some c → c < bound)
    (hrule : sc.rules[r]? = some rule) (h : analyzeRule sc roles r rule d = (u, d'))
    (hwf : d.WellFormed) (hready : d.tables.Ready sc bound)
    (hempty : ∀ c, roles.getD r .passthrough = .tagged c → (d.classAt c).variants = []) :
    Steps sc d.tables d'.tables := by
  have hwalk : WalkSteps bound (ruleValue sc roles sc.rules.size) (scopeOf sc roles rule) :=
    walkSteps hbegins (ruleValue_steps hseparate hbegins hroles _)
  have hoccurs := Scope.occurs_body hrule
  cases hrole : roles.getD r .passthrough with
  | builds c =>
    have hkind : d.tables.HasKind c .concrete :=
      hfit.hasKind (r := r) (by rw [hrole]; rfl) (by rw [hrole]; rfl)
    unfold analyzeRule at h
    simp only [hrole] at h
    exact hwalk.fillClass c rule.body false d u d' h hready hoccurs hkind
  | polymorphic c =>
    have hkind : d.tables.HasKind c .abstract :=
      hfit.hasKind (r := r) (by rw [hrole]; rfl) (by rw [hrole]; rfl)
    obtain ⟨info, branches, hcore⟩ := hfit.alternatives r c rule hrule (.inl hrole)
    obtain ⟨d₁, hrecord, hbranches⟩ := analyzeRule_polymorphic hrole hcore h
    have hcoreOccurs := hoccurs.core
    rw [hcore] at hcoreOccurs
    have hfirst : Tables.Step sc d.tables d₁.tables :=
      recordClass_step hrecord hcoreOccurs.self.hasNode hkind.lt
    exact (Steps.one hfirst).trans (hwalk.polymorphicBranches c 0 branches d₁ () d' hbranches
      (hready.steps (.one hfirst)) hcoreOccurs.ofAlternation (hfirst.grows.kind c _ hkind))
  | tagged c =>
    have hkind : d.tables.HasKind c .tagged :=
      hfit.hasKind (r := r) (by rw [hrole]; rfl) (by rw [hrole]; rfl)
    obtain ⟨info, branches, hcore⟩ := hfit.alternatives r c rule hrule (.inr hrole)
    obtain ⟨d₁, values, d₂, hrecord, hvalues, hvariants⟩ := analyzeRule_tagged hrole hcore h
    have hcoreOccurs := hoccurs.core
    rw [hcore] at hcoreOccurs
    have hfirst : Tables.Step sc d.tables d₁.tables :=
      recordClass_step hrecord hcoreOccurs.self.hasNode hkind.lt
    obtain ⟨hsecond, hholds⟩ := hwalk.elementValues branches d₁ values d₂ hvalues
      (hready.steps (.one hfirst)) hcoreOccurs.ofAlternation
    have hbefore := (Steps.one hfirst).trans hsecond
    have hkind₂ := hbefore.grows.kind c _ hkind
    refine hbefore.trans (.one (.variants hcoreOccurs.self hkind₂ (fun cls hcls => ?_)
      (addVariants_steps hvariants hkind₂.lt (length_elementValues hvalues).symm
        (fun e he => (hcoreOccurs.ofAlternation e he).self.hasNode) hholds)))
    -- finding the values of the branches adds no variants to a class that was there before
    have hquiet : Quiet (fun cell => cell = .nodeClass info.id) d d₁ :=
      recordClass_quiet hrecord rfl
    have hframes : WalkFrames (sc.lazyIds roles) (ruleValue sc roles sc.rules.size)
      (scopeOf sc roles rule) := walkFrames (ruleValue_frame hseparate sc.rules.size)
    have hframe := hframes.elementValues branches d₁ values d₂ hvalues (hquiet.plain.wellFormed hwf)
    have hc := (hfit.class_lt r c (by rw [hrole]; rfl)).2
    have hsame₁ : (Cell.variants c).Same d d₁ := hquiet.same hc (by simp)
    have hsame₂ : (Cell.variants c).Same d₁ d₂ :=
      hframe.same _ (Nat.lt_of_lt_of_le hc hquiet.plain.classes_le) (fun h => h) fun h => h.1
    rw [Draft.tables_classes_getElem? (Nat.lt_of_lt_of_le hc
      (Nat.le_trans hquiet.plain.classes_le hframe.classes_le))] at hcls
    obtain rfl := Option.some.inj hcls
    exact (hsame₂.trans hsame₁).trans (hempty c hrole)
  | passthrough =>
    obtain ⟨v, hvalue⟩ := analyzeRule_passthrough hrole h
    exact (ruleValue_steps hseparate hbegins hroles _ r d v d' hvalue hready).1

/-- The analysis of several rules takes steps, if their classes have no variants yet. -/
theorem Build.analyzeRules_steps {rules : List Rule} (hseparate : sc.Separate)
    (hbegins : Naming.IsBeginning sc.classPrefix) (hfit : RolesFit sc roles d)
    (hroles : ∀ r c, (roles.getD r .passthrough).class? = some c → c < bound)
    (hrules : sc.RulesFrom r rules) (h : analyzeRules sc roles r rules d = (u, d'))
    (hwf : d.WellFormed) (hready : d.tables.Ready sc bound)
    (hempty : ∀ i c, roles.getD (r + i) .passthrough = .tagged c → (d.classAt c).variants = []) :
    Steps sc d.tables d'.tables := by
  induction rules generalizing r d with
  | nil =>
    rw [analyzeRules] at h
    obtain ⟨-, rfl⟩ := pure_eq.mp h
    exact .refl _ _
  | cons rule rest ih =>
    rw [analyzeRules] at h
    obtain ⟨_, d₁, hfirst, hrest⟩ := bind_eq.mp h
    have hframe := analyzeRule_frame hseparate hfit hrules.head hfirst hwf
    have hsteps := analyzeRule_steps hseparate hbegins hfit hroles hrules.head hfirst hwf hready
      (hempty 0)
    refine hsteps.trans (ih (hfit.after hframe) hrules.tail hrest (hframe.wellFormed hwf)
      (hready.steps hsteps) fun i c hrole => ?_)
    rw [Nat.add_assoc] at hrole
    have hclass : (roles.getD (r + (1 + i)) .passthrough).class? = some c := by rw [hrole]; rfl
    have hsame : (Cell.variants c).Same d d₁ := by
      refine hframe.same _ (hfit.class_lt _ c hclass).2 (fun hcell => ?_) fun h => h.1
      obtain ⟨c', hclass', hcell⟩ := ruleCells_cases hcell
      rcases hcell with ⟨id, -, heq | heq | heq⟩ | heq
      all_goals cases heq
      have heq := hfit.class_inj _ _ c hclass hclass'
      simp at heq
    exact hsame.trans (hempty (1 + i) c hrole)

/-! ## Roles -/

/-- Settling the role of a rule takes steps. -/
theorem Build.assignRole_steps {role : RuleRole} (hbegins : Naming.IsBeginning sc.classPrefix)
    (hr : r < sc.rules.size) (h : assignRole sc r rule d = (role, d')) :
    Steps sc d.tables d'.tables := by
  obtain ⟨d₁, hfaults, ⟨-, rfl⟩ | ⟨c, kind, -, -, ⟨raw, isNamed, span, hmade⟩, -⟩⟩ :=
    assignRole_cases h
  · rw [hfaults.tables_eq]
    exact .refl _ _
  · rw [← hfaults.tables_eq]
    exact .one (newClass_step hmade hbegins hr).1

/-- Settling the roles of several rules takes steps. -/
theorem Build.assignRoles_steps {roles' : Array RuleRole} {rules : List Rule}
    (hbegins : Naming.IsBeginning sc.classPrefix) (hrules : sc.RulesFrom roles.size rules)
    (h : assignRoles sc roles rules d = (roles', d')) : Steps sc d.tables d'.tables := by
  induction rules generalizing roles d with
  | nil =>
    rw [assignRoles] at h
    obtain ⟨-, rfl⟩ := pure_eq.mp h
    exact .refl _ _
  | cons rule rest ih =>
    rw [assignRoles] at h
    obtain ⟨role, d₁, hrole, hrest⟩ := bind_eq.mp h
    have hr := (Array.getElem?_eq_some_iff.mp hrules.head).1
    refine (assignRole_steps hbegins hr hrole).trans (ih ?_ hrest)
    rw [Array.size_push]
    exact hrules.tail

/-! ## Checks -/

/-- What a class refers to is there, apart from what is not needed to find its key. -/
theorem Tables.InRange.mem_fieldsOf (hrange : d.tables.InRange sc) {c : ClassId}
    (hc : c < d.classes.size) {fld : FieldModel} (h : fld ∈ d.fieldsOf c) :
    fld.id ∈ (d.classAt c).fields ∧ d.tables.fields[fld.id]? = some fld := by
  obtain ⟨f, hf, rfl⟩ := List.mem_map.mp h
  have hlt := (hrange.classes c _ (Draft.tables_classes_getElem? hc)).fields f hf
  rw [Draft.size_tables_fields] at hlt
  have hget := Draft.tables_fields_getElem? hlt
  rw [(hrange.fields f _ hget).id_eq]
  exact ⟨hf, hget⟩

/-- Giving a class its key is a check. -/
theorem Build.applyKey_checks {role : RuleRole} (hrange : d.tables.InRange sc)
    (hc : ∀ c, role.class? = some c → c < d.classes.size) (h : applyKey role rule d = (u, d')) :
    Checks sc d.tables d'.tables := by
  have hsame {u : Unit} (h : (pure () : Build Unit) d = (u, d')) :
      Checks sc d.tables d'.tables := by
    obtain ⟨-, rfl⟩ := pure_eq.mp h
    exact .refl _ _
  have hfault {what : SemanticFault} {span : Span} (h : fault what span d = (u, d')) :
      Checks sc d.tables d'.tables := by
    rw [fault_tables h]
    exact .refl _ _
  unfold applyKey at h
  cases hkey : rule.marker? .keyOf with
  | none =>
    simp only [hkey] at h
    exact hsame h
  | some marker =>
  cases hclass : rule.marker? .classOf with
  | none =>
    simp only [hkey, hclass] at h
    exact hsame h
  | some _ =>
  cases hrole : role.class? with
  | none =>
    simp only [hkey, hclass, hrole] at h
    exact hsame h
  | some c =>
  cases hraw : marker.value with
  | none =>
    simp only [hkey, hclass, hrole, hraw] at h
    exact hsame h
  | some raw =>
  simp only [hkey, hclass, hrole, hraw] at h
  obtain ⟨_, _, hget, h⟩ := bind_eq.mp h
  obtain ⟨rfl, rfl⟩ := get_eq.mp hget
  cases hfound : (d.fieldsOf c).find? fun f =>
      f.sourceName == some raw || Naming.fieldName raw == some f.name with
  | none =>
    simp only [hfound] at h
    exact hfault h
  | some f =>
  simp only [hfound] at h
  split at h
  · exact hfault h
  · rename_i hscalar
    have hlt := hc c hrole
    obtain ⟨hmem, hf⟩ := hrange.mem_fieldsOf hlt (List.mem_of_find?_eq_some hfound)
    rw [updateClass_tables (g := fun cls => { cls with key := some f.id }) h fun _ => rfl]
    refine .one (.key (fun cls hcls => ?_) hf (not_not.mp hscalar))
    rw [Draft.tables_classes_getElem? hlt] at hcls
    rw [← Option.some.inj hcls]
    exact hmem

/-- Comparing a declared type with the type of an element takes checks. -/
theorem Build.checkTypeClaim_checks {claim : TypeClaim} (hnode : sc.HasNode claim.node)
    (h : checkTypeClaim claim d = (u, d')) : Checks sc d.tables d'.tables := by
  have hsame {u : Unit} {d₁ : Draft} (h : (pure () : Build Unit) d₁ = (u, d'))
      (hbefore : Checks sc d.tables d₁.tables) : Checks sc d.tables d'.tables := by
    obtain ⟨-, rfl⟩ := pure_eq.mp h
    exact hbefore
  have hfault {what : SemanticFault} {span : Span} (h : fault what span d = (u, d')) :
      Checks sc d.tables d'.tables := by
    rw [fault_tables h]
    exact .refl _ _
  unfold checkTypeClaim at h
  obtain ⟨_, _, hget, h⟩ := bind_eq.mp h
  obtain ⟨rfl, rfl⟩ := get_eq.mp hget
  cases hword : Primitive.ofWord? claim.expected with
  | some p =>
    simp only [hword] at h
    split at h
    · exact hsame h (.refl _ _)
    · exact hfault h
  | none =>
  cases htarget : d.classes.findIdx? fun c =>
      c.model.sourceName == claim.expected || c.model.name == claim.expected with
  | none =>
    simp only [hword, htarget] at h
    exact hfault h
  | some target =>
  cases helement : claim.value.element with
  | primitive p =>
    simp only [hword, htarget, helement] at h
    exact hfault h
  | «instance» c =>
  simp only [hword, htarget, helement] at h
  split at h
  · exact hsame h (.refl _ _)
  split at h
  · obtain ⟨_, d₁, hrecord, h⟩ := bind_eq.mp h
    have hlt : target < d.tables.classes.size := by
      rw [d.size_tables_classes]
      exact (Array.findIdx?_eq_some_iff_findIdx_eq.mp htarget).1
    have hknown : d.tables.Knows (.instance target) := hlt
    have hrecorded : Checks sc d.tables d₁.tables := by
      rw [recordValue_eq hrecord]
      refine .one (.value hnode fun w hw => ?_)
      rw [← Option.some.inj hw]
      exact hknown
    cases hfield : d.nodeFields.get? claim.node with
    | none =>
      simp only [hfield] at h
      exact hsame h hrecorded
    | some field =>
      simp only [hfield] at h
      refine hrecorded.trans ?_
      rw [updateField_tables (g := fun f => { f with element := .instance target }) h fun _ => rfl]
      refine .one (.retype ?_)
      rw [recordValue_eq hrecord]
      exact hknown
  · exact hfault h

end

/-! ## Everything -/

/-- Nothing is in the tables of a draft on which nothing was recorded yet. -/
theorem Draft.empty_inRange (sc : Scope) (ruleCount nodeCount : Nat)
    (errors : List SemanticError) : (empty ruleCount nodeCount errors).tables.InRange sc where
  classes := by simp [tables, empty]
  fields := by simp [tables, empty]
  values := by simp [tables, empty, NodeTable.get?_empty]
  nodeFields := by simp [tables, empty, NodeTable.get?_empty]
  nodeClasses := by simp [tables, empty, NodeTable.get?_empty]
  progress := by simp [tables, empty, Array.getElem?_replicate]
  claims := by simp [tables, empty]

theorem Draft.empty_linked (sc : Scope) (ruleCount nodeCount : Nat)
    (errors : List SemanticError) : (empty ruleCount nodeCount errors).tables.Linked sc where
  fields := ⟨by simp [tables, empty], by simp [tables, empty], by simp [tables, empty],
    by simp [tables, empty], by simp [tables, empty, NodeTable.get?_empty]⟩
  suits := by simp [Suits, tables, empty]
  payloads := ⟨by simp [tables, empty], by simp [tables, empty]⟩
  branches := by simp [BranchesKept, tables, empty]

theorem Draft.empty_named (ruleCount nodeCount : Nat) (errors : List SemanticError) :
    (empty ruleCount nodeCount errors).tables.Named where
  classes := ⟨by simp [tables, empty], by simp [tables, empty]⟩
  fields := ⟨by simp [tables, empty], by simp [tables, empty]⟩
  variants := by simp [VariantsNamed, tables, empty]

theorem Draft.empty_unkeyed (ruleCount nodeCount : Nat) (errors : List SemanticError) :
    (empty ruleCount nodeCount errors).tables.Unkeyed := by
  simp [Unkeyed, tables, empty]

/-- What is known about the tables of a model. -/
structure Tables.Finished (sc : Scope) (t : Tables) : Prop where
  inRange : t.InRange sc
  linked : t.Linked sc
  named : t.Named
  keyed : t.Keyed

theorem Tables.Finished.checks {sc : Scope} {t t' : Tables} (h : t.Finished sc)
    (hchecks : Checks sc t t') : t'.Finished sc :=
  hchecks.preserves (fun _ _ hcheck ht => ⟨ht.inRange.check hcheck, ht.linked.check hcheck,
    ht.named.check hcheck, ht.keyed.check hcheck⟩) h

/-- What class names begin with, once the directives are right. -/
theorem Settings.isBeginning_classPrefix {directives : List Directive} {symbols : SymbolTable}
    {overrides : Overrides} (h : (ofDirectives directives symbols overrides).2 = []) :
    Naming.IsBeginning (ofDirectives directives symbols overrides).1.classPrefix := by
  unfold ofDirectives at h ⊢
  simp only [List.append_eq_nil_iff, ite_eq_left_iff, reduceCtorEq, imp_false, not_not] at h ⊢
  obtain ⟨⟨-, hbeginning⟩, -⟩ := h
  rw [Bool.or_eq_true, String.isEmpty_iff] at hbeginning
  exact hbeginning

/-- The namespace consists of names, once the directives are right. -/
theorem Settings.isNamespace_namespaceName {directives : List Directive} {symbols : SymbolTable}
    {overrides : Overrides} (h : (ofDirectives directives symbols overrides).2 = []) :
    isNamespace (ofDirectives directives symbols overrides).1.namespaceName = true := by
  unfold ofDirectives at h ⊢
  simp only [List.append_eq_nil_iff, ite_eq_left_iff, reduceCtorEq, imp_false, not_not] at h ⊢
  exact h.1.1.2

namespace Grammar

variable {grammar : Grammar} {preferences : ModelPreferences} {overrides : Overrides}

/-- Class names begin as they may, once the directives are right. -/
theorem isBeginning_classPrefix (h : (grammar.firstDraft preferences overrides).errors = #[]) :
    Naming.IsBeginning (grammar.scope preferences overrides).classPrefix := by
  simp only [firstDraft, Draft.empty, List.toArray_eq_iff, List.append_eq_nil_iff] at h
  exact Settings.isBeginning_classPrefix h.1.2

/-- Errors that are there from the beginning stay. -/
theorem firstDraft_errors_eq (hparsed : grammar.IsParsed)
    (herrors : (grammar.draft preferences overrides).draft.errors = #[]) :
    (grammar.firstDraft preferences overrides).errors = #[] := by
  obtain ⟨assigned, analyzed, keyed, claimed, hstages⟩ :=
    grammar.exists_stages preferences overrides
  have hseparate : (grammar.scope preferences overrides).Separate := hparsed.separate rfl
  have hrules := grammar.rulesFrom_scope preferences overrides
  have hfirst : (grammar.firstDraft preferences overrides).Blank := Draft.empty_blank _ _ _
  have hready := assignRoles_ready hstages.assign hrules (.empty _ _ _)
  have hframe := analyzeRules_frame hseparate hready.fits hrules hstages.analyze
    (hready.blank hfirst).wellFormed
  exact hready.quiet.plain.errors_eq (hframe.errors_eq (hstages.concludes.errors_eq herrors))

/-- The tables of a draft without errors are as they should be. -/
theorem draft_finished (hparsed : grammar.IsParsed)
    (herrors : (grammar.draft preferences overrides).draft.errors = #[]) :
    (grammar.draft preferences overrides).draft.tables.Finished
      (grammar.scope preferences overrides) := by
  obtain ⟨assigned, analyzed, keyed, claimed, hstages⟩ :=
    grammar.exists_stages preferences overrides
  have hseparate : (grammar.scope preferences overrides).Separate := hparsed.separate rfl
  have hrules := grammar.rulesFrom_scope preferences overrides
  have hfirst : (grammar.firstDraft preferences overrides).Blank := Draft.empty_blank _ _ _
  have hready := assignRoles_ready hstages.assign hrules (.empty _ _ _)
  have hwf := (hready.blank hfirst).wellFormed
  have hframe := analyzeRules_frame hseparate hready.fits hrules hstages.analyze hwf
  have hbegins : Naming.IsBeginning (grammar.scope preferences overrides).classPrefix :=
    isBeginning_classPrefix (firstDraft_errors_eq hparsed herrors)
  -- the steps: the roles, and then the bodies
  have hassigned : Steps (grammar.scope preferences overrides)
      (grammar.firstDraft preferences overrides).tables assigned.tables :=
    assignRoles_steps hbegins (by exact hrules) hstages.assign
  have hbefore : assigned.tables.Ready (grammar.scope preferences overrides)
      assigned.classes.size :=
    ⟨(Draft.empty_inRange _ _ _ _).steps hassigned, Nat.le_of_eq assigned.size_tables_classes.symm⟩
  have hroles := fun r c hclass => (hready.fits.class_lt r c hclass).2
  have hanalyzed := analyzeRules_steps hseparate hbegins hready.fits hroles hrules hstages.analyze
    hwf hbefore fun i c _ => hready.no_variants c
  have hsteps := hassigned.trans hanalyzed
  have hlinked := Draft.empty_linked (grammar.scope preferences overrides) grammar.rules.size
    grammar.nodeCount
  have hdone : analyzed.tables.Finished (grammar.scope preferences overrides) :=
    ⟨(hbefore.steps hanalyzed).inRange, (hlinked _).steps hsteps,
      (Draft.empty_named _ _ _).steps (hlinked _) hsteps,
      (hsteps.preserves (fun _ _ hstep ht => ht.step hstep) (Draft.empty_unkeyed _ _ _)).keyed⟩
  -- the checks: keys, and then declared types
  let R (d d' : Draft) : Prop := Concludes d d' ∧
    Checks (grammar.scope preferences overrides) d.tables d'.tables
  have hrefl (d : Draft) : R d d := ⟨.refl d, .refl _ _⟩
  have htrans (d₁ d₂ d₃ : Draft) (h : R d₁ d₂) (h' : R d₂ d₃) : R d₁ d₃ :=
    ⟨h.1.trans h'.1, h.2.trans h'.2⟩
  have hkeyed : R analyzed keyed := by
    refine forM_related hrefl htrans hstages.key fun entry hentry d₁ d₂ hrelated hkey => ?_
    refine ⟨applyKey_concludes hkey,
      applyKey_checks (hdone.checks hrelated.2).inRange (fun c hclass => ?_) hkey⟩
    obtain ⟨r, hr⟩ := List.mem_iff_getElem?.mp (List.of_mem_zip hentry).1
    rw [hrelated.1.classes_size]
    refine Nat.lt_of_lt_of_le (hroles r c ?_) hframe.classes_le
    rw [Array.getElem?_toList] at hr
    rw [Array.getD_eq_getD_getElem?, hr]
    exact hclass
  have hclaimed : R keyed claimed := by
    refine forM_related hrefl htrans hstages.claim fun claim hclaim d₁ d₂ hrelated hcheck => ?_
    have hmem := Array.mem_toList_iff.mp hclaim
    have hnode := ((hdone.checks hkeyed.2).inRange.claims claim hmem).1
    rw [← hrelated.1.typeClaims_eq] at hmem
    exact ⟨checkTypeClaim_concludes hcheck hmem, checkTypeClaim_checks hnode hcheck⟩
  rw [(checkCycles_faults hstages.cycles).tables_eq]
  exact (hdone.checks hkeyed.2).checks hclaimed.2

end Grammar

end AnnotatedGrammar
