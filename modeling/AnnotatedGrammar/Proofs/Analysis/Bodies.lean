import AnnotatedGrammar.Proofs.Analysis.Rules
import AnnotatedGrammar.Proofs.Lowering.Complete

/-!
# What the analysis of all rules settles

The bodies of rules with a class are analyzed in order, the others when their values are needed. In
the end every body is settled: the footprints of different rules are disjoint, so that no rule
disturbs what was settled about another.
-/

namespace AnnotatedGrammar

open Build AnnotatedGrammar.Expr

/-- The kind of the class that a rule makes. -/
def RuleRole.kind? : RuleRole → Option ClassKind
  | builds _ => some .concrete
  | polymorphic _ => some .abstract
  | tagged _ => some .tagged
  | passthrough => none

/-- The roles of the rules: every class among them was made for one rule and is of the right kind,
and there are alternatives where a base or a tagged class needs them. -/
structure RolesFit (sc : Scope) (roles : Array RuleRole) (d : Draft) : Prop where
  class_lt : ∀ r c, (roles.getD r .passthrough).class? = some c →
    r < sc.rules.size ∧ c < d.classes.size
  kind_eq : ∀ r c, (roles.getD r .passthrough).class? = some c →
    (roles.getD r .passthrough).kind? = some (d.classAt c).kind
  alternatives : ∀ (r : RuleId) c rule, sc.rules[r]? = some rule →
    (roles.getD r .passthrough = .polymorphic c ∨ roles.getD r .passthrough = .tagged c) →
      ∃ info branches, rule.body.core = .alternation info branches
  class_inj : ∀ r r' c, (roles.getD r .passthrough).class? = some c →
    (roles.getD r' .passthrough).class? = some c → r = r'

/-- What making the variants of a class may change. -/
def variantCells (c : ClassId) (body : Expr) (cell : Cell) : Prop :=
  Cell.fillings c body.ids cell ∨ cell = .variants c

/-- What the analysis of a rule may change. -/
def ruleCells : RuleRole → Expr → Cell → Prop
  | .builds c, body, cell => contentCells c body false cell
  | .polymorphic _, body, cell => Cell.known body.ids body.ids cell
  | .tagged c, body, cell => Cell.known body.ids body.ids cell ∨ variantCells c body cell
  | .passthrough, _, _ => False

/-- What the analysis of several rules may change. -/
def rulesCells (roles : Array RuleRole) (first : RuleId) (rules : List Rule) (cell : Cell) : Prop :=
  ∃ i rule, rules[i]? = some rule ∧ ruleCells (roles.getD (first + i) .passthrough) rule.body cell

/-- A rule with a class has a settled body. -/
def ClassRuleSettled (strict : Prop) (m : GrammarModel) (roles : Array RuleRole) (r : RuleId)
    (body : Expr) : Prop :=
  ∀ c, (roles.getD r .passthrough).class? = some c → ∀ model, m.rule? r = some model →
    model.role = roles.getD r .passthrough → Settled.Rule strict m model body

section

variable {strict : Prop} {m : GrammarModel} {sc : Scope} {roles : Array RuleRole} {bound : Nat}
  {S : Cell → Prop} {d d₁ d' : Draft} {r r' : RuleId} {rule : Rule} {c : ClassId} {u : Unit}
  {info : NodeInfo} {branches : List Expr}

theorem RolesFit.after {bodies : RuleId → List NodeId} (h : RolesFit sc roles d)
    (hframe : Frame bodies S d d') : RolesFit sc roles d' where
  class_lt r c hrole :=
    ⟨(h.class_lt r c hrole).1, Nat.lt_of_lt_of_le (h.class_lt r c hrole).2 hframe.classes_le⟩
  kind_eq r c hrole := by
    rw [hframe.kind_eq c (h.class_lt r c hrole).2]
    exact h.kind_eq r c hrole
  alternatives := h.alternatives
  class_inj := h.class_inj

theorem ruleCells_cases {role : RuleRole} {body : Expr} {cell : Cell}
    (h : ruleCells role body cell) : ∃ c, role.class? = some c ∧
      ((∃ id ∈ body.ids, cell = .value id ∨ cell = .nodeClass id ∨ cell = .filling c id) ∨
        cell = .variants c) := by
  have hknown {values classes : List NodeId} {c : ClassId} (hvalues : values ⊆ body.ids)
      (hclasses : classes ⊆ body.ids) (h : Cell.known values classes cell) :
      ∃ id ∈ body.ids, cell = .value id ∨ cell = .nodeClass id ∨ cell = .filling c id := by
    cases cell with
    | value id => exact ⟨id, hvalues h, .inl rfl⟩
    | nodeClass id => exact ⟨id, hclasses h, .inr (.inl rfl)⟩
    | filling | variants => exact h.elim
  have hfillings {c : ClassId} (h : Cell.fillings c body.ids cell) :
      ∃ id ∈ body.ids, cell = .value id ∨ cell = .nodeClass id ∨ cell = .filling c id := by
    cases cell with
    | filling c' id =>
      obtain ⟨rfl, hid⟩ := h
      exact ⟨id, hid, .inr (.inr rfl)⟩
    | value | nodeClass | variants => exact h.elim
  cases role with
  | builds c =>
    refine ⟨c, rfl, .inl ?_⟩
    rcases h with h | h
    · exact hknown (List.Subset.refl _) body.classIds_subset h
    · exact hfillings h
  | polymorphic base =>
    exact ⟨base, rfl, .inl (hknown (List.Subset.refl _) (List.Subset.refl _) h)⟩
  | tagged c =>
    refine ⟨c, rfl, ?_⟩
    rcases h with h | h | h
    · exact .inl (hknown (List.Subset.refl _) (List.Subset.refl _) h)
    · exact .inl (hfillings h)
    · exact .inr h
  | passthrough => exact h.elim

/-- Different rules change different cells. -/
theorem ruleCells_disjoint (hseparate : sc.Separate) (hfit : RolesFit sc roles d) {rule' : Rule}
    (hrule : sc.rules[r]? = some rule) (hrule' : sc.rules[r']? = some rule') (hne : r ≠ r')
    {cell : Cell} (h : ruleCells (roles.getD r .passthrough) rule.body cell) :
    ¬ruleCells (roles.getD r' .passthrough) rule'.body cell := by
  intro h'
  have hdisjoint := hseparate.disjoint r r' rule rule' hrule hrule' hne
  obtain ⟨c, hclass, hcell⟩ := ruleCells_cases h
  obtain ⟨c', hclass', hcell'⟩ := ruleCells_cases h'
  rcases hcell with ⟨id, hid, hcell⟩ | rfl <;> rcases hcell' with ⟨id', hid', hcell'⟩ | hcell'
  · obtain rfl : id = id' := by
      rcases hcell with rfl | rfl | rfl <;> rcases hcell' with heq | heq | heq <;> cases heq <;> rfl
    exact hdisjoint id hid hid'
  · subst hcell'
    rcases hcell with heq | heq | heq <;> cases heq
  · rcases hcell' with heq | heq | heq <;> cases heq
  · cases hcell'
    exact hne (hfit.class_inj r r' c hclass hclass')

/-! ## One rule -/

theorem Build.analyzeRule_polymorphic (hrole : roles.getD r .passthrough = .polymorphic c)
    (hcore : rule.body.core = .alternation info branches)
    (h : analyzeRule sc roles r rule d = (u, d')) :
    ∃ d₁, recordClass info.id c d = ((), d₁) ∧
      polymorphicBranches (ruleValue sc roles sc.rules.size) (scopeOf sc roles rule) c 0 branches
        d₁ = ((), d') := by
  unfold analyzeRule at h
  simp only [hrole, hcore] at h
  obtain ⟨_, d₁, hrecord, hbranches⟩ := bind_eq.mp h
  exact ⟨d₁, hrecord, hbranches⟩

theorem Build.analyzeRule_tagged (hrole : roles.getD r .passthrough = .tagged c)
    (hcore : rule.body.core = .alternation info branches)
    (h : analyzeRule sc roles r rule d = (u, d')) :
    ∃ d₁ values d₂, recordClass info.id c d = ((), d₁) ∧
      elementValues (ruleValue sc roles sc.rules.size) (scopeOf sc roles rule) branches d₁ =
        (values, d₂) ∧ addVariants c 0 (branches.zip values) d₂ = ((), d') := by
  unfold analyzeRule at h
  simp only [hrole, hcore] at h
  obtain ⟨_, d₁, hrecord, h⟩ := bind_eq.mp h
  obtain ⟨values, d₂, hvalues, hvariants⟩ := bind_eq.mp h
  exact ⟨d₁, values, d₂, hrecord, hvalues, hvariants⟩

theorem Build.analyzeRule_passthrough (hrole : roles.getD r .passthrough = .passthrough)
    (h : analyzeRule sc roles r rule d = (u, d')) :
    ∃ v, ruleValue sc roles (sc.rules.size + 1) r d = (v, d') := by
  unfold analyzeRule at h
  simp only [hrole] at h
  exact discard_eq.mp h

/-- The branches of an alternation lie inside the expression that it is the core of. -/
theorem Expr.ids_of_core {body : Expr} (hcore : body.core = .alternation info branches) :
    info.id ∈ body.ids ∧ idsAll branches ⊆ body.ids := by
  have hsub := (ids_core_sublist body).subset
  rw [hcore, ids_eq] at hsub
  exact ⟨hsub List.mem_cons_self, fun id hid => hsub (List.mem_cons_of_mem _ hid)⟩

/-- The variants of a class for the branches of a rule. -/
theorem Build.addVariants_quiet {values : List (Option Value)} {body : Expr}
    (hcore : body.core = .alternation info branches)
    (h : addVariants c 0 (branches.zip values) d = (u, d')) (hc : c < d.classes.size) :
    Quiet (variantCells c body) d d' ∧ ∃ variants,
      (d'.classAt c).variants = (d.classAt c).variants ++ variants ∧
        VariantsFor c (branches.zip values) variants d' := by
  refine addVariants_spec h hc (.inr rfl) fun entry hentry => .inl ⟨rfl, ?_⟩
  obtain ⟨e, v⟩ := entry
  refine (ids_of_core hcore).2 (List.mem_map.mpr ⟨e, ?_, rfl⟩)
  exact mem_preorderAll.mpr ⟨e, (List.of_mem_zip hentry).1, self_mem_preorder e⟩

/-- The analysis of a rule has its frame. -/
theorem Build.analyzeRule_frame (hseparate : sc.Separate) (hfit : RolesFit sc roles d)
    (hrule : sc.rules[r]? = some rule) (h : analyzeRule sc roles r rule d = (u, d'))
    (hwf : d.WellFormed) :
    Frame (sc.lazyIds roles) (ruleCells (roles.getD r .passthrough) rule.body) d d' := by
  have hframes : WalkFrames (sc.lazyIds roles) (ruleValue sc roles sc.rules.size)
      (scopeOf sc roles rule) := walkFrames (ruleValue_frame hseparate sc.rules.size)
  cases hrole : roles.getD r .passthrough with
  | builds c =>
    have hc := (hfit.class_lt r c (by rw [hrole]; rfl)).2
    unfold analyzeRule at h
    simp only [hrole] at h
    exact hframes.fillClass c rule.body false d u d' h hwf hc
  | polymorphic c =>
    obtain ⟨info, branches, hcore⟩ := hfit.alternatives r c rule hrule (.inl hrole)
    obtain ⟨d₁, hrecord, hbranches⟩ := analyzeRule_polymorphic hrole hcore h
    obtain ⟨hinfo, hsub⟩ := ids_of_core hcore
    have hfirst : Quiet (ruleCells (.polymorphic c) rule.body) d d₁ :=
      recordClass_quiet hrecord hinfo
    refine (hfirst.frame _).trans ((hframes.polymorphicBranches c 0 branches d₁ () d' hbranches
      (hfirst.plain.wellFormed hwf)).mono fun cell _ hcell => ?_)
    exact Cell.known_mono hsub hsub hcell
  | tagged c =>
    obtain ⟨info, branches, hcore⟩ := hfit.alternatives r c rule hrule (.inr hrole)
    obtain ⟨d₁, values, d₂, hrecord, hvalues, hvariants⟩ := analyzeRule_tagged hrole hcore h
    obtain ⟨hinfo, hsub⟩ := ids_of_core hcore
    have hfirst : Quiet (ruleCells (.tagged c) rule.body) d d₁ :=
      recordClass_quiet hrecord (.inl hinfo)
    have hsecond := hframes.elementValues branches d₁ values d₂ hvalues
      (hfirst.plain.wellFormed hwf)
    have hc : c < d₂.classes.size := Nat.lt_of_lt_of_le
      (hfit.class_lt r c (by rw [hrole]; rfl)).2 (Nat.le_trans hfirst.plain.classes_le
        hsecond.classes_le)
    have hthird : Frame (sc.lazyIds roles) (ruleCells (.tagged c) rule.body) d₂ d' :=
      ((addVariants_quiet hcore hvariants hc).1.frame _).mono fun _ _ => .inr
    refine (hfirst.frame _).trans ((hsecond.mono fun cell _ hcell => .inl ?_).trans hthird)
    exact Cell.known_mono hsub hsub hcell
  | passthrough =>
    obtain ⟨v, hvalue⟩ := analyzeRule_passthrough hrole h
    exact ruleValue_frame hseparate (sc.rules.size + 1) r d v d' hvalue hwf

/-- While a rule with a class is analyzed, it is not among those that wait. -/
theorem Draft.waiting_lt_of_class (hsize : d.progress.size = sc.rules.size)
    (hlt : r < sc.rules.size) (hclass : (roles.getD r .passthrough).class? = some c) :
    (d.waiting sc roles).card < sc.rules.size := by
  have hsub : d.waiting sc roles ⊆ (Finset.range sc.rules.size).erase r := by
    intro r' hr'
    rw [Draft.waiting, Finset.mem_filter, Finset.mem_range] at hr'
    obtain ⟨hlt', -, hbody⟩ := hr'
    rw [Finset.mem_erase, Finset.mem_range]
    refine ⟨?_, hsize ▸ hlt'⟩
    rintro rfl
    rw [(Scope.isSome_lazyBody?.mp hbody).1] at hclass
    cases hclass
  refine Nat.lt_of_le_of_lt (Finset.card_le_card hsub) ?_
  rw [Finset.card_erase_of_mem (Finset.mem_range.mpr hlt), Finset.card_range]
  exact Nat.sub_lt (Nat.zero_lt_of_lt hlt) Nat.one_pos

theorem Draft.Sound.narrow (h : d.Sound sc roles bound) (hsize : d.progress.size = sc.rules.size)
    (hlt : r < sc.rules.size) (hclass : (roles.getD r .passthrough).class? = some c) :
    d.Sound sc roles sc.rules.size where
  wellFormed := h.wellFormed
  unreported := h.unreported
  claimed := h.claimed
  untouched := h.untouched
  roles_lt := h.roles_lt
  waiting_lt := d.waiting_lt_of_class hsize hlt hclass

/-- A rule whose alternatives have a base. -/
theorem Build.analyzeRule_settles_polymorphic
    (hframes : WalkFrames (sc.lazyIds roles) (ruleValue sc roles sc.rules.size)
      (scopeOf sc roles rule))
    (hwalks : WalkSettles strict m (ruleValue sc roles sc.rules.size) (scopeOf sc roles rule)
      sc.rules.size)
    (hproper : rule.body.Proper) (hcore : rule.body.core = .alternation info branches)
    (hrecord : recordClass info.id c d = (u, d₁))
    (hbranches : polymorphicBranches (ruleValue sc roles sc.rules.size) (scopeOf sc roles rule) c 0
      branches d₁ = (u, d')) :
    Settling strict m sc roles sc.rules.size (ruleCells (.polymorphic c) rule.body)
      (Settled.BaseBranches strict m c branches) d d' := by
  obtain ⟨hinfo, hsub⟩ := ids_of_core hcore
  have hcoreProper : (alternation info branches).Proper := hcore ▸ hproper.core
  have hquiet : Quiet (fun cell => cell = .nodeClass info.id) d d₁ := recordClass_quiet hrecord rfl
  have hsecond := hwalks.polymorphicBranches c 0 branches d₁ u d' hbranches hcoreProper.children
    hcoreProper.isAlternation_branches
  have hseq := (Settling.ofRecordClass hrecord).seq (S := ruleCells (.polymorphic c) rule.body)
    hsecond (fun hwf _ => ?_) ?_ ?_ ?_
  · exact hseq.imp fun _ _ _ hP => hP.2
  · exact (hframes.polymorphicBranches c 0 branches d₁ u d' hbranches
      (hquiet.plain.wellFormed hwf)).errors_eq
  · rintro cell rfl
    exact hinfo
  · exact fun cell hcell => Cell.known_mono hsub hsub hcell
  · rintro cell rfl hcell
    exact hcoreProper.id_not_mem hcell

/-- A rule whose alternatives are the variants of a class. -/
theorem Build.analyzeRule_settles_tagged {values : List (Option Value)} {d₂ : Draft}
    (hframes : WalkFrames (sc.lazyIds roles) (ruleValue sc roles sc.rules.size)
      (scopeOf sc roles rule))
    (hwalks : WalkSettles strict m (ruleValue sc roles sc.rules.size) (scopeOf sc roles rule)
      sc.rules.size)
    (hproper : rule.body.Proper) (hcore : rule.body.core = .alternation info branches)
    (hc : c < d.classes.size) (hrecord : recordClass info.id c d = (u, d₁))
    (hvalues : elementValues (ruleValue sc roles sc.rules.size)
      (scopeOf sc roles rule) branches d₁ =
      (values, d₂))
    (hvariants : addVariants c 0 (branches.zip values) d₂ = (u, d')) :
    Settling strict m sc roles sc.rules.size (ruleCells (.tagged c) rule.body)
      (Settled.Elements strict m branches values ∧ ∀ model, m.class? c = some model →
        Settled.VariantsOf strict m model.variants branches values) d d' := by
  obtain ⟨hinfo, hsub⟩ := ids_of_core hcore
  have hcoreProper : (alternation info branches).Proper := hcore ▸ hproper.core
  have hquiet₁ : Quiet (fun cell => cell = .nodeClass info.id) d d₁ := recordClass_quiet hrecord rfl
  have hframe₂ (hwf : d.WellFormed) : Frame (sc.lazyIds roles) (allCells branches) d₁ d₂ :=
    hframes.elementValues branches d₁ values d₂ hvalues (hquiet₁.plain.wellFormed hwf)
  have hlength := length_elementValues hvalues
  have hclasses := MakesNoClass.addVariants d₂ u d' hvariants
  have hthird (hc : c < d₂.classes.size) :
      Settling strict m sc roles sc.rules.size (variantCells c rule.body)
        (∀ model, m.class? c = some model →
          Settled.VariantsOf strict m model.variants branches values) d₂ d' := by
    obtain ⟨hquiet, made, hmade, hfor⟩ := addVariants_quiet hcore hvariants hc
    refine .ofQuiet hquiet (Nat.le_of_eq hclasses)
      (fun hclaimed _ => hquiet.claimed hclaimed (by simp [variantCells, Cell.fillings]))
      fun hopen _ htracks model hmodel => ?_
    have hvariantsCell : variantCells c rule.body (.variants c) := .inr rfl
    have hfresh : (d₂.classAt c).variants = [] := (hopen _ hvariantsCell).1
    have htracked : (Cell.variants c).Tracked strict m d' :=
      htracks.cells _ (hopen.touched (hquiet.frame _) hvariantsCell)
    rw [htracked model hmodel, hmade, hfresh, List.nil_append]
    exact hfor.variantsOf hlength htracks.keeps
  intro hsound hopen herrors
  have hwf := hsound.wellFormed
  have hc₁ : c < d₁.classes.size := Nat.lt_of_lt_of_le hc hquiet₁.plain.classes_le
  have hc₂ : c < d₂.classes.size := Nat.lt_of_lt_of_le hc₁ (hframe₂ hwf).classes_le
  have hquiet₃ := (addVariants_quiet hcore hvariants hc₂).1
  have hsecond := hwalks.elementValues branches d₁ values d₂ hvalues hcoreProper.children
  have hlast := hsecond.seq (S := fun cell => allCells branches cell ∨
    variantCells c rule.body cell)
    (hthird hc₂) (fun _ _ => hquiet₃.plain.errors_eq) (fun _ => .inl) (fun _ => .inr) (by
      rintro cell hcell (hcell' | rfl)
      · cases cell with
        | value | nodeClass => exact hcell'
        | filling | variants => exact hcell
      · exact hcell)
  have hseq := (Settling.ofRecordClass hrecord).seq (S := ruleCells (.tagged c) rule.body) hlast
    (fun _ _ herrors => (hframe₂ hwf).errors_eq (hquiet₃.plain.errors_eq herrors)) ?_ ?_ ?_
  · exact (hseq hsound hopen herrors).imp fun _ hP => hP.2
  · rintro cell rfl
    exact .inl hinfo
  · rintro cell (hcell | hcell)
    · exact .inl (Cell.known_mono hsub hsub hcell)
    · exact .inr hcell
  · rintro cell rfl (hcell | hcell | hcell)
    · exact hcoreProper.id_not_mem hcell
    · exact hcell
    · cases hcell

/-- The analysis of a rule settles its body, if the rule has a class. -/
theorem Build.analyzeRule_settles (hseparate : sc.Separate) (hfit : RolesFit sc roles d)
    (hsize : d.progress.size = sc.rules.size) (hrule : sc.rules[r]? = some rule)
    (h : analyzeRule sc roles r rule d = (u, d')) :
    Settling strict m sc roles (sc.rules.size + 1)
      (ruleCells (roles.getD r .passthrough) rule.body)
      (ClassRuleSettled strict m roles r rule.body) d d' := by
  intro hsound hopen herrors
  have hframes : WalkFrames (sc.lazyIds roles) (ruleValue sc roles sc.rules.size)
      (scopeOf sc roles rule) := walkFrames (ruleValue_frame hseparate sc.rules.size)
  have hwalks : WalkSettles strict m (ruleValue sc roles sc.rules.size) (scopeOf sc roles rule)
      sc.rules.size := walkSettles hframes (ruleValue_settles hseparate sc.rules.size)
  have hproper := hseparate.proper r rule hrule
  have hframe := analyzeRule_frame hseparate hfit hrule h hsound.wellFormed
  have hfit' := hfit.after hframe
  have hkind {c : ClassId} (kind : ClassKind) (hclass : (roles.getD r .passthrough).class? = some c)
      (hkind : (roles.getD r .passthrough).kind? = some kind)
      (hkeeps : Keeps strict m sc roles d') :
      ∃ model, m.class? c = some model ∧ model.kind = kind := by
    obtain ⟨model, hmodel, hkept, -⟩ := hkeeps.class_kept c (hfit'.class_lt r c hclass).2
    refine ⟨model, hmodel, hkept.trans ?_⟩
    exact Option.some.inj ((hfit'.kind_eq r c hclass).symm.trans hkind)
  have hvalue {c : ClassId} {model : RuleModel}
      (hclass : (roles.getD r .passthrough).class? = some c) (hkeeps : Keeps strict m sc roles d')
      (hmodel : m.rule? r = some model) : model.value = some (.ofClass c) := by
    have hvalue := hkeeps.role_value r c hclass
    rw [hmodel] at hvalue
    exact hvalue
  have hnarrow {c : ClassId} (hclass : (roles.getD r .passthrough).class? = some c) :
      d.Sound sc roles sc.rules.size :=
    hsound.narrow hsize (hfit.class_lt r c hclass).1 hclass
  cases hrole : roles.getD r .passthrough with
  | builds c =>
    have hclass : (roles.getD r .passthrough).class? = some c := by rw [hrole]; rfl
    rw [hrole] at hopen
    unfold analyzeRule at h
    simp only [hrole] at h
    have hfill := hwalks.fillClass c rule.body false d u d' h hproper
    refine (hfill (hnarrow hclass) hopen herrors).imp
      fun htracks hbody c' hclass' model hmodel heq => ?_
    have hconcrete := hkind .concrete hclass (by rw [hrole]; rfl) htracks.keeps
    unfold Settled.Rule
    rw [heq, hrole]
    exact ⟨hconcrete, hbody⟩
  | polymorphic c =>
    have hclass : (roles.getD r .passthrough).class? = some c := by rw [hrole]; rfl
    obtain ⟨info, branches, hcore⟩ := hfit.alternatives r c rule hrule (.inl hrole)
    obtain ⟨d₁, hrecord, hbranches⟩ := analyzeRule_polymorphic hrole hcore h
    rw [hrole] at hopen
    have hsettling : Settling strict m sc roles sc.rules.size _ _ d d' :=
      analyzeRule_settles_polymorphic hframes hwalks hproper hcore hrecord hbranches
    refine (hsettling (hnarrow hclass) hopen herrors).imp
      fun htracks hbranches c' hclass' model hmodel heq => ?_
    have habstract := hkind .abstract hclass (by rw [hrole]; rfl) htracks.keeps
    unfold Settled.Rule
    rw [heq, hrole]
    exact ⟨hvalue hclass htracks.keeps hmodel, info, branches, hcore, .base habstract hbranches⟩
  | tagged c =>
    have hclass : (roles.getD r .passthrough).class? = some c := by rw [hrole]; rfl
    obtain ⟨info, branches, hcore⟩ := hfit.alternatives r c rule hrule (.inr hrole)
    obtain ⟨d₁, values, d₂, hrecord, hvalues, hvariants⟩ := analyzeRule_tagged hrole hcore h
    rw [hrole] at hopen
    have hsettling : Settling strict m sc roles sc.rules.size _ _ d d' :=
      analyzeRule_settles_tagged hframes hwalks hproper hcore (hfit.class_lt r c hclass).2 hrecord
        hvalues hvariants
    refine (hsettling (hnarrow hclass) hopen herrors).imp
      fun htracks hP c' hclass' model hmodel heq => ?_
    obtain ⟨cls, hcls, htagged⟩ := hkind .tagged hclass (by rw [hrole]; rfl) htracks.keeps
    unfold Settled.Rule
    rw [heq, hrole]
    exact ⟨hvalue hclass htracks.keeps hmodel, info, branches, hcore,
      .tagged hcls htagged hP.1 (hP.2 cls hcls)⟩
  | passthrough =>
    obtain ⟨v, hvalue⟩ := analyzeRule_passthrough hrole h
    rw [hrole] at hopen
    refine (ruleValue_settles hseparate (sc.rules.size + 1) r d v d' hvalue hsound
      hopen herrors).imp
      fun _ _ c hclass => ?_
    rw [hrole] at hclass
    cases hclass

/-! ## All rules -/

/-- The rest of the rules are those of the grammar from an index on. -/
def Scope.RulesFrom (sc : Scope) (first : RuleId) (rules : List Rule) : Prop :=
  ∀ (i : Nat) rule, rules[i]? = some rule → sc.rules[first + i]? = some rule

variable {rest : List Rule}

theorem Scope.RulesFrom.head (h : sc.RulesFrom r (rule :: rest)) : sc.rules[r]? = some rule :=
  h 0 rule rfl

theorem Scope.RulesFrom.tail (h : sc.RulesFrom r (rule :: rest)) : sc.RulesFrom (r + 1) rest := by
  intro i rule' hrule'
  have hget := h (i + 1) rule' hrule'
  rwa [Nat.add_comm i 1, ← Nat.add_assoc] at hget

theorem rulesCells_head {cell : Cell} (h : ruleCells (roles.getD r .passthrough) rule.body cell) :
    rulesCells roles r (rule :: rest) cell :=
  ⟨0, rule, rfl, h⟩

theorem rulesCells_tail {cell : Cell} (h : rulesCells roles (r + 1) rest cell) :
    rulesCells roles r (rule :: rest) cell := by
  obtain ⟨i, rule', hrule', hcell⟩ := h
  refine ⟨i + 1, rule', hrule', ?_⟩
  rwa [Nat.add_comm i 1, ← Nat.add_assoc]

/-- The first of several rules changes other cells than the rest. -/
theorem rulesCells_disjoint (hseparate : sc.Separate) (hfit : RolesFit sc roles d)
    (hrules : sc.RulesFrom r (rule :: rest)) {cell : Cell}
    (h : ruleCells (roles.getD r .passthrough) rule.body cell) :
    ¬rulesCells roles (r + 1) rest cell := by
  rintro ⟨i, rule', hrule', hcell⟩
  have hne : r ≠ r + 1 + i := Nat.ne_of_lt (Nat.le_add_right (r + 1) i)
  exact ruleCells_disjoint hseparate hfit hrules.head (hrules.tail i rule' hrule') hne h hcell

/-- The analysis of several rules has its frame. -/
theorem Build.analyzeRules_frame {rules : List Rule} (hseparate : sc.Separate)
    (hfit : RolesFit sc roles d) (hrules : sc.RulesFrom r rules)
    (h : analyzeRules sc roles r rules d = (u, d')) (hwf : d.WellFormed) :
    Frame (sc.lazyIds roles) (rulesCells roles r rules) d d' := by
  induction rules generalizing r d with
  | nil =>
    rw [analyzeRules] at h
    obtain ⟨-, rfl⟩ := pure_eq.mp h
    exact .refl _ _ _
  | cons rule rest ih =>
    rw [analyzeRules] at h
    obtain ⟨_, d₁, hfirst, hrest⟩ := bind_eq.mp h
    have hframe := analyzeRule_frame hseparate hfit hrules.head hfirst hwf
    exact hframe.comp (ih (hfit.after hframe) hrules.tail hrest (hframe.wellFormed hwf))
      (fun _ _ => rulesCells_head) fun _ _ => rulesCells_tail

/-- The analysis of several rules settles the bodies of those that have a class. -/
theorem Build.analyzeRules_settles {rules : List Rule} (hseparate : sc.Separate)
    (hfit : RolesFit sc roles d) (hsize : d.progress.size = sc.rules.size)
    (hrules : sc.RulesFrom r rules) (h : analyzeRules sc roles r rules d = (u, d')) :
    Settling strict m sc roles (sc.rules.size + 1) (rulesCells roles r rules)
      (∀ (i : Nat) rule, rules[i]? = some rule →
        ClassRuleSettled strict m roles (r + i) rule.body) d d' := by
  induction rules generalizing r d with
  | nil =>
    rw [analyzeRules] at h
    obtain ⟨-, rfl⟩ := pure_eq.mp h
    exact .of_same fun _ i rule hrule => by cases hrule
  | cons rule rest ih =>
    rw [analyzeRules] at h
    obtain ⟨_, d₁, hfirst, hrest⟩ := bind_eq.mp h
    intro hsound hopen herrors
    have hframe := analyzeRule_frame hseparate hfit hrules.head hfirst hsound.wellFormed
    have hfit₁ := hfit.after hframe
    have hframe₁ := analyzeRules_frame hseparate hfit₁ hrules.tail hrest
      (hframe.wellFormed hsound.wellFormed)
    have hseq := (analyzeRule_settles hseparate hfit hsize hrules.head hfirst).seq
      (S := rulesCells roles r (rule :: rest))
      (ih hfit₁ (hframe.progress_size.trans hsize) hrules.tail hrest)
      (fun _ _ => hframe₁.errors_eq) (fun _ => rulesCells_head) (fun _ => rulesCells_tail)
      (fun _ => rulesCells_disjoint hseparate hfit hrules)
    refine (hseq hsound hopen herrors).imp fun _ hP i rule' hrule' => ?_
    cases i with
    | zero =>
      obtain rfl : rule = rule' := Option.some.inj hrule'
      exact hP.1
    | succ i =>
      have hsettled := hP.2 i rule' hrule'
      rwa [Nat.add_assoc, Nat.add_comm 1 i] at hsettled

/-! ## Rules whose value was asked for -/

/-- Once its value was found, a rule waits no more. -/
theorem Build.ruleValue_progress (hseparate : sc.Separate) {depth : Nat} {v : Option Value}
    (hlazy : (roles.getD r .passthrough).class? = none) (hrule : sc.rules[r]? = some rule)
    (h : ruleValue sc roles (depth + 1) r d = (v, d')) (hwf : d.WellFormed) :
    d'.progress[r]? ≠ some .pending := by
  rcases ruleValue_cases hseparate h with ⟨c, hclass, -, -⟩ | ⟨hnone, -, -⟩ | ⟨-, hdone, rfl⟩ |
    ⟨-, hmarked, rfl⟩ | ⟨-, hmarked, rule', -, -, rfl⟩ | ⟨rule, d₁, d₂, hvisits, hvalue⟩
  · rw [hclass] at hlazy
    cases hlazy
  · rw [hnone] at hrule
    cases hrule
  · intro hpending
    rw [Array.getD_eq_getD_getElem?, hpending] at hdone
    cases hdone
  · rw [hmarked]
    simp
  · rw [Draft.reported, Array.getElem?_setIfInBounds, if_pos rfl]
    split <;> simp
  · have hframes : WalkFrames (sc.lazyIds roles) (ruleValue sc roles depth)
        (scopeOf sc roles rule) := walkFrames (ruleValue_frame hseparate depth)
    have hinner := hframes.elementValue rule.body false d₁ v d₂ hvalue (by
      rw [hvisits.start_eq]
      exact ⟨hwf.field_id, hwf.owner_lt, hwf.owner_eq⟩)
    rw [hvisits.end_get? hinner, if_pos rfl]
    simp

/-- After the analysis of several rules, none of them waits. -/
theorem Build.analyzeRules_progress {rules : List Rule} (hseparate : sc.Separate)
    (hfit : RolesFit sc roles d) (hrules : sc.RulesFrom r rules)
    (h : analyzeRules sc roles r rules d = (u, d')) (hwf : d.WellFormed) (i : Nat)
    (hrule : rules[i]? = some rule) (hrole : roles.getD (r + i) .passthrough = .passthrough) :
    d'.progress[r + i]? ≠ some .pending := by
  induction rules generalizing r d i with
  | nil => cases hrule
  | cons first rest ih =>
    rw [analyzeRules] at h
    obtain ⟨_, d₁, hfirst, hrest⟩ := bind_eq.mp h
    have hframe := analyzeRule_frame hseparate hfit hrules.head hfirst hwf
    have hfit₁ := hfit.after hframe
    have hframe₁ := analyzeRules_frame hseparate hfit₁ hrules.tail hrest (hframe.wellFormed hwf)
    cases i with
    | zero =>
      rw [Nat.add_zero] at hrole ⊢
      obtain ⟨v, hvalue⟩ := analyzeRule_passthrough hrole hfirst
      have hprogress := ruleValue_progress hseparate (by rw [hrole]; rfl) hrules.head hvalue hwf
      intro hpending
      obtain ⟨hlt, -⟩ := Array.getElem?_eq_some_iff.mp hpending
      rw [hframe₁.progress_size] at hlt
      have hbefore := Array.getElem?_eq_getElem hlt
      have hbecomes := hframe₁.progress r _ _ hbefore hpending
      rw [hbefore] at hprogress
      generalize d₁.progress[r] = p at hbecomes hprogress
      cases hbecomes
      exact hprogress rfl
    | succ i =>
      rw [Nat.add_comm i 1, ← Nat.add_assoc] at hrole ⊢
      exact ih hfit₁ hrules.tail hrest (hframe.wellFormed hwf) i hrule hrole

end

end AnnotatedGrammar
