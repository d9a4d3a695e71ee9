import AnnotatedGrammar.Proofs.Analysis.Checks
import AnnotatedGrammar.Proofs.Recursion.Search

/-!
# Which rules are reported to need their own value

The analysis of all rules is one search. Every rule that is reported needs its own value, and every
cycle of rules that need each other's values passes through a rule that is reported. A reference
inside a class counts here as any other, although the value of an expression that carries a class is
that class whatever stands inside.
-/

namespace AnnotatedGrammar

open Build AnnotatedGrammar.Expr

section

variable {sc : Scope} {roles : Array RuleRole} {d d₁ d' : Draft} {r : RuleId} {rule : Rule}
  {c : ClassId} {u : Unit} {info : NodeInfo} {branches : List Expr}

/-! ## The analysis of rules -/

/-- A rule whose alternatives have a base asks for what they ask for. -/
theorem Build.analyzeRule_asking_polymorphic {bodies : RuleId → List NodeId}
    {visit : RuleId → Build (Option Value)} (hwalks : WalkAsks bodies visit (scopeOf sc roles rule))
    (hproper : rule.body.Proper) (hcore : rule.body.core = .alternation info branches)
    (hrecord : recordClass info.id c d = (u, d₁))
    (hbranches : polymorphicBranches visit (scopeOf sc roles rule) c 0 branches d₁ = (u, d')) :
    Asking bodies visit (ruleCells (.polymorphic c) rule.body)
        (readsAll sc true branches) d d' := by
  obtain ⟨hinfo, hsub⟩ := ids_of_core hcore
  have hcoreProper : (alternation info branches).Proper := hcore ▸ hproper.core
  have hrecorded : Asking bodies visit (fun cell => cell = .nodeClass info.id) [] d d₁ :=
    .of_quiet (fun _ _ => recordClass_quiet hrecord rfl) (silent.recordClass _ _ _ hrecord)
  refine hrecorded.seq (hwalks.polymorphicBranches c 0 branches d₁ u d' hbranches
    hcoreProper.children hcoreProper.isAlternation_branches) ?_ ?_ ?_
  · rintro cell rfl
    exact hinfo
  · exact fun cell hcell => Cell.known_mono hsub hsub hcell
  · rintro cell rfl hcell
    exact hcoreProper.id_not_mem hcell

/-- A rule whose alternatives are the variants of a class asks for what they ask for. -/
theorem Build.analyzeRule_asking_tagged {bodies : RuleId → List NodeId}
    {visit : RuleId → Build (Option Value)} {values : List (Option Value)} {d₂ : Draft}
    (hwalks : WalkAsks bodies visit (scopeOf sc roles rule))
    (hproper : rule.body.Proper) (hcore : rule.body.core = .alternation info branches)
    (hrecord : recordClass info.id c d = (u, d₁))
    (hvalues : elementValues visit (scopeOf sc roles rule) branches d₁ = (values, d₂))
    (hvariants : addVariants c 0 (branches.zip values) d₂ = (u, d')) :
    Asking bodies visit (ruleCells (.tagged c) rule.body) (readsAll sc false branches) d d' := by
  obtain ⟨hinfo, hsub⟩ := ids_of_core hcore
  have hcoreProper : (alternation info branches).Proper := hcore ▸ hproper.core
  have hrecorded : Asking bodies visit (fun cell => cell = .nodeClass info.id) [] d d₁ :=
    .of_quiet (fun _ _ => recordClass_quiet hrecord rfl) (silent.recordClass _ _ _ hrecord)
  have hlast := (hwalks.elementValues branches d₁ values d₂ hvalues
    hcoreProper.children).before_quiet
    (S := fun cell => allCells branches cell ∨ variantCells c rule.body cell)
    (fun _ hopen => (addVariants_quiet hcore hvariants (hopen (.variants c) (.inr rfl)).2.2).1)
    (silent.addVariants _ _ _ hvariants) (fun _ => .inl) (fun _ => .inr) (by
      rintro cell hcell (hcell' | rfl)
      · cases cell with
        | value | nodeClass => exact hcell'
        | filling | variants => exact hcell
      · exact hcell)
  refine hrecorded.seq hlast ?_ ?_ ?_
  · rintro cell rfl
    exact .inl hinfo
  · rintro cell (hcell | hcell)
    · exact .inl (Cell.known_mono hsub hsub hcell)
    · exact .inr hcell
  · rintro cell rfl (hcell | hcell | hcell)
    · exact hcoreProper.id_not_mem hcell
    · exact hcell
    · cases hcell

/-- The analysis of a rule is a search; a rule without a class asks for its own value. -/
theorem Build.analyzeRule_searched (hseparate : sc.Separate) (hfit : RolesFit sc roles d)
    (hrule : sc.rules[r]? = some rule) (h : analyzeRule sc roles r rule d = (u, d'))
    (hd : d.Searchable sc roles (sc.rules.size + 1))
    (hopen : d.Open (sc.lazyIds roles) (ruleCells (roles.getD r .passthrough) rule.body)) :
    ∃ rs, (roles.getD r .passthrough = .passthrough → r ∈ rs) ∧ Searched sc roles rs d d' := by
  have hwalks : WalkAsks (sc.lazyIds roles) (ruleValue sc roles sc.rules.size)
      (scopeOf sc roles rule) := walkAsks (ruleValue_frame hseparate sc.rules.size)
  have hproper := hseparate.proper r rule hrule
  have hlt := (Array.getElem?_eq_some_iff.mp hrule).1
  have hsearched {rs : List RuleId} {c : ClassId}
      (hclass : (roles.getD r .passthrough).class? = some c)
      (h : Asking (sc.lazyIds roles) (ruleValue sc roles sc.rules.size)
        (ruleCells (roles.getD r .passthrough) rule.body) rs d d') : Searched sc roles rs d d' := by
    have hnarrow : d.Searchable sc roles sc.rules.size :=
      ⟨hd.wellFormed, hd.untouched, hd.progress_size,
        d.waiting_lt_of_class hd.progress_size hlt hclass⟩
    exact (h hd.wellFormed hopen).1.searched hseparate
      (ruleValue_searched hseparate sc.rules.size) hnarrow
  cases hrole : roles.getD r .passthrough with
  | builds c =>
    have hclass : (roles.getD r .passthrough).class? = some c := by rw [hrole]; rfl
    unfold analyzeRule at h
    simp only [hrole] at h
    refine ⟨rule.body.fillReads sc false, by simp, hsearched hclass ?_⟩
    rw [hrole]
    exact hwalks.fillClass c rule.body false d u d' h hproper
  | polymorphic c =>
    have hclass : (roles.getD r .passthrough).class? = some c := by rw [hrole]; rfl
    obtain ⟨info, branches, hcore⟩ := hfit.alternatives r c rule hrule (.inl hrole)
    obtain ⟨d₁, hrecord, hbranches⟩ := analyzeRule_polymorphic hrole hcore h
    refine ⟨readsAll sc true branches, by simp, hsearched hclass ?_⟩
    rw [hrole]
    exact analyzeRule_asking_polymorphic hwalks hproper hcore hrecord hbranches
  | tagged c =>
    have hclass : (roles.getD r .passthrough).class? = some c := by rw [hrole]; rfl
    obtain ⟨info, branches, hcore⟩ := hfit.alternatives r c rule hrule (.inr hrole)
    obtain ⟨d₁, values, d₂, hrecord, hvalues, hvariants⟩ := analyzeRule_tagged hrole hcore h
    refine ⟨readsAll sc false branches, by simp, hsearched hclass ?_⟩
    rw [hrole]
    exact analyzeRule_asking_tagged hwalks hproper hcore hrecord hvalues hvariants
  | passthrough =>
    obtain ⟨v, hvalue⟩ := analyzeRule_passthrough hrole h
    exact ⟨[r], fun _ => List.mem_cons_self,
      ruleValue_searched hseparate (sc.rules.size + 1) r d v d' hvalue hd⟩

/-- The analysis of several rules is one search, for the values of those without a class. -/
theorem Build.analyzeRules_searched {rules : List Rule} (hseparate : sc.Separate)
    (hfit : RolesFit sc roles d) (hrules : sc.RulesFrom r rules)
    (h : analyzeRules sc roles r rules d = (u, d'))
    (hd : d.Searchable sc roles (sc.rules.size + 1))
    (hopen : d.Open (sc.lazyIds roles) (rulesCells roles r rules)) :
    ∃ rs, (∀ i < rules.length, roles.getD (r + i) .passthrough = .passthrough → r + i ∈ rs) ∧
      Searched sc roles rs d d' := by
  induction rules generalizing r d with
  | nil =>
    rw [analyzeRules] at h
    obtain ⟨-, rfl⟩ := pure_eq.mp h
    exact ⟨[], fun i hi => absurd hi (Nat.not_lt_zero i), .of_same rfl rfl⟩
  | cons rule rest ih =>
    rw [analyzeRules] at h
    obtain ⟨_, d₁, hfirst, hrest⟩ := bind_eq.mp h
    have hopenFirst := hopen.mono fun _ => rulesCells_head
    have hframe := analyzeRule_frame hseparate hfit hrules.head hfirst hd.wellFormed
    obtain ⟨rs₁, hrs₁, hsearched₁⟩ :=
      analyzeRule_searched hseparate hfit hrules.head hfirst hd hopenFirst
    have hopenRest : d₁.Open (sc.lazyIds roles) (rulesCells roles (r + 1) rest) :=
      (hopen.mono fun _ => rulesCells_tail).after hframe fun _ hlater hnow =>
        rulesCells_disjoint hseparate hfit hrules hnow hlater
    obtain ⟨rs₂, hrs₂, hsearched₂⟩ := ih (hfit.after hframe) hrules.tail hrest
      (hd.after hframe fun cell hcell _ => (hopenFirst cell hcell).2.1) hopenRest
    refine ⟨rs₁ ++ rs₂, fun i hi hrole => List.mem_append.mpr ?_, hsearched₁.append hsearched₂⟩
    cases i with
    | zero => exact .inl (hrs₁ hrole)
    | succ i =>
      rw [Nat.add_comm i 1, ← Nat.add_assoc] at hrole ⊢
      exact .inr (hrs₂ i (Nat.lt_of_succ_lt_succ hi) hrole)

end

/-! ## The whole analysis -/

theorem SemanticError.Plain.recursions_eq {errors : List SemanticError}
    (h : SemanticError.Plain errors) : SemanticError.recursions errors = [] := by
  refine List.filter_eq_nil_iff.mpr fun e he => ?_
  simp [SemanticFault.isRecursion_of_isPlain (h e he)]

namespace Grammar

variable {grammar : Grammar} {preferences : ModelPreferences} {overrides : Overrides}
  {assigned analyzed keyed claimed : Draft}

/-- Recursive values are found while bodies are analyzed, and at no other stage. -/
theorem Stages.recursions_eq
    (h : grammar.Stages preferences overrides assigned analyzed keyed claimed) :
    assigned.recursions = [] ∧
      (grammar.draft preferences overrides).draft.recursions = analyzed.recursions := by
  constructor
  · exact (silent.assignRoles _ _ _ h.assign).trans
      (grammar.firstDraft_plain preferences overrides).recursions_eq
  · calc (grammar.draft preferences overrides).draft.recursions
      _ = claimed.recursions := silent.checkCycles _ _ _ h.cycles
      _ = keyed.recursions := silent.of_forM silent.checkTypeClaim _ _ _ _ h.claim
      _ = analyzed.recursions := silent.of_forM (fun _ => silent.applyKey) _ _ _ _ h.key

/-- The analysis of a parsed grammar is a search for the values of all rules without a class, and
begins when no value is known. -/
theorem Stages.searched (hparsed : grammar.IsParsed)
    (h : grammar.Stages preferences overrides assigned analyzed keyed claimed) :
    (∀ r, ¬assigned.UnderWay r ∧ ¬assigned.IsDone r) ∧
      ∃ rs, (∀ r, ((grammar.scope preferences overrides).lazyBody?
        (grammar.draft preferences overrides).roles r).isSome → r ∈ rs) ∧
          Searched (grammar.scope preferences overrides)
            (grammar.draft preferences overrides).roles rs assigned analyzed := by
  have hseparate : (grammar.scope preferences overrides).Separate := hparsed.separate rfl
  have hrules := grammar.rulesFrom_scope preferences overrides
  have hfirst : (grammar.firstDraft preferences overrides).Blank := Draft.empty_blank _ _ _
  have hready := assignRoles_ready h.assign hrules (.empty _ _ _)
  have hprogress : assigned.progress = Array.replicate grammar.rules.size .pending :=
    hready.quiet.progress_eq
  have hpending {r : RuleId} {p : RuleProgress} (hp : assigned.progress[r]? = some p) :
      p = .pending := by
    rw [hprogress, Array.getElem?_replicate] at hp
    split at hp
    · exact (Option.some.inj hp).symm
    · cases hp
  have hsize : assigned.progress.size = grammar.rules.size := by
    rw [hprogress]
    exact Array.size_replicate
  have hsound := hready.sound hfirst hsize
  obtain ⟨rs, hrs, hsearched⟩ := analyzeRules_searched hseparate hready.fits hrules h.analyze
    ⟨hsound.wellFormed, hsound.untouched, hsize, hsound.waiting_lt⟩
    (hready.rules_open hfirst hseparate hrules)
  refine ⟨fun r => ⟨fun ⟨reported, hr⟩ => ?_, fun ⟨v, hr⟩ => ?_⟩, rs, fun r hlazy => ?_, hsearched⟩
  · cases hpending hr
  · cases hpending hr
  · obtain ⟨hclass, rule, hrule⟩ := Scope.isSome_lazyBody?.mp hlazy
    have hlt : r < grammar.rules.toList.length :=
      (Array.getElem?_eq_some_iff.mp hrule).1
    have hasked := hrs r hlt
    rw [Nat.zero_add] at hasked
    refine hasked ?_
    revert hclass
    cases (grammar.draft preferences overrides).roles.getD r .passthrough with
    | passthrough => exact fun _ => rfl
    | builds | polymorphic | tagged => exact fun h => nomatch h

/-- Whatever is reported to need its own value does so. -/
theorem draft_isRecursive (hparsed : grammar.IsParsed) {e : SemanticError}
    (he : e ∈ (grammar.draft preferences overrides).draft.recursions) :
    ∃ r rule, grammar.rules[r]? = some rule ∧ e = rule.recursion ∧
      (grammar.scope preferences overrides).IsRecursive
        (grammar.draft preferences overrides).roles r := by
  obtain ⟨assigned, analyzed, keyed, claimed, hstages⟩ :=
    grammar.exists_stages preferences overrides
  obtain ⟨hfirst, hlast⟩ := hstages.recursions_eq
  obtain ⟨hstart, rs, -, hsearched⟩ := hstages.searched hparsed
  rw [hlast] at he
  rcases hsearched.recursive (fun p hp => absurd hp (hstart p).1) e he with he | hrecursive
  · rw [hfirst] at he
    cases he
  · exact hrecursive

/-- Every cycle of rules that need each other's values passes through a rule that is reported. -/
theorem draft_reports (hparsed : grammar.IsParsed) (r : RuleId) :
    ¬Relation.TransGen (fun r₁ r₂ => (grammar.scope preferences overrides).Needs
      (grammar.draft preferences overrides).roles r₁ r₂ ∧
        ¬(grammar.draft preferences overrides).draft.Reports
          (grammar.scope preferences overrides) r₂) r r := by
  obtain ⟨assigned, analyzed, keyed, claimed, hstages⟩ :=
    grammar.exists_stages preferences overrides
  obtain ⟨hfirst, hlast⟩ := hstages.recursions_eq
  obtain ⟨hstart, rs, hrs, hsearched⟩ := hstages.searched hparsed
  obtain ⟨hfounded, hasked⟩ := hsearched.founded
    (fun r hr => absurd ⟨true, hr⟩ (hstart r).1)
    ((grammar.draft preferences overrides).draft.Reports (grammar.scope preferences overrides))
    (fun r hr => hr.mono (hlast ▸ List.Subset.refl _)) (fun r hr => absurd hr (hstart r).2)
  intro hcycle
  -- the rule is known, since a rule that is not reported needs it
  obtain ⟨r', -, hneeds, hnot⟩ := Relation.TransGen.tail'_iff.mp hcycle
  have hdone : analyzed.IsDone r := (hasked r (hrs r hneeds.2) hneeds.2).resolve_right hnot
  have hchain := acc_iff_isEmpty_descending_chain.mp (hfounded r hdone).transGen
  exact hchain.false ⟨fun _ => r, rfl, fun _ => Relation.transGen_swap.mpr hcycle⟩

/-- A rule is reported exactly if there is one that needs its own value. -/
theorem draft_recursions_eq_nil_iff (hparsed : grammar.IsParsed) :
    (grammar.draft preferences overrides).draft.recursions = [] ↔
      ∀ r, ¬(grammar.scope preferences overrides).IsRecursive
        (grammar.draft preferences overrides).roles r := by
  constructor
  · intro hnone r hcycle
    refine grammar.draft_reports hparsed r
      (Relation.TransGen.mono (fun r₁ r₂ hneeds => ⟨hneeds, ?_⟩) r r hcycle)
    rintro ⟨rule, -, hmem⟩
    rw [hnone] at hmem
    cases hmem
  · intro hacyclic
    refine List.eq_nil_iff_forall_not_mem.mpr fun e he => ?_
    obtain ⟨r, -, -, -, hcycle⟩ := grammar.draft_isRecursive hparsed he
    exact hacyclic r hcycle

/-! ## The outcome of building a model -/

/-- Whatever is reported to need its own value when a model is built does so. -/
theorem buildModel_isRecursive (hparsed : grammar.IsParsed) {errors : List SemanticError}
    {e : SemanticError} (h : (grammar.buildModel preferences overrides).result = .error errors)
    (he : e ∈ errors) (hrecursion : e.value.isRecursion = true) :
    ∃ r rule, grammar.rules[r]? = some rule ∧ e = rule.recursion ∧
      (grammar.scope preferences overrides).IsRecursive
        (grammar.draft preferences overrides).roles r := by
  have hlate : e.value.isPlain = false := by
    refine Bool.eq_false_iff.mpr fun hplain => ?_
    rw [SemanticFault.isRecursion_of_isPlain hplain] at hrecursion
    cases hrecursion
  have hmem := grammar.mem_draft_of_buildModel h he hlate
  exact grammar.draft_isRecursive hparsed (List.mem_filter.mpr ⟨hmem, hrecursion⟩)

/-- No rule of a grammar with a model needs its own value. -/
theorem buildModel_not_isRecursive (hparsed : grammar.IsParsed) {m : GrammarModel}
    (h : (grammar.buildModel preferences overrides).result = .ok m) (r : RuleId) :
    ¬(grammar.scope preferences overrides).IsRecursive
      (grammar.draft preferences overrides).roles r := by
  obtain ⟨-, herrors, -⟩ := buildModel_eq_ok h
  refine (grammar.draft_recursions_eq_nil_iff hparsed).mp ?_ r
  rw [Draft.recursions, herrors]
  rfl

/-- Without other errors, a recursive value is reported exactly if there is one. -/
theorem buildModel_reports_iff (hparsed : grammar.IsParsed)
    (hothers : ∀ e ∈ (grammar.draft preferences overrides).draft.errors,
      e.value.isRecursion = true) :
    (∃ errors, (grammar.buildModel preferences overrides).result = .error errors ∧
      ∃ e ∈ errors, e.value.isRecursion = true) ↔
        ∃ r, (grammar.scope preferences overrides).IsRecursive
          (grammar.draft preferences overrides).roles r := by
  constructor
  · rintro ⟨errors, h, e, he, hrecursion⟩
    obtain ⟨r, -, -, -, hcycle⟩ := grammar.buildModel_isRecursive hparsed h he hrecursion
    exact ⟨r, hcycle⟩
  · rintro ⟨r, hcycle⟩
    cases hresult : (grammar.buildModel preferences overrides).result with
    | ok m => exact absurd hcycle (grammar.buildModel_not_isRecursive hparsed hresult r)
    | error errors =>
      refine ⟨errors, rfl, ?_⟩
      -- the grammar has a rule, and its draft an error
      obtain ⟨r', hneeds, -⟩ := Relation.TransGen.head'_iff.mp hcycle
      obtain ⟨⟨body, hbody, -⟩, -⟩ := hneeds
      obtain ⟨-, rule, hrule, -⟩ := Scope.lazyBody?_eq_some.mp hbody
      have hrules : ¬grammar.rules.isEmpty = true := by
        intro hempty
        rw [show (grammar.scope preferences overrides).rules = grammar.rules from rfl,
          Array.isEmpty_iff.mp hempty] at hrule
        cases hrule
      have hfound : (grammar.draft preferences overrides).draft.errors.toList ≠ [] := by
        intro hnone
        refine (grammar.draft_recursions_eq_nil_iff hparsed).mp ?_ r hcycle
        rw [Draft.recursions, hnone]
        rfl
      obtain ⟨e, rest, herrors⟩ := List.exists_cons_of_ne_nil hfound
      have hrecursion : e.value.isRecursion = true :=
        hothers e (Array.mem_toList_iff.mp (herrors ▸ List.mem_cons_self))
      refine ⟨e, ?_, hrecursion⟩
      unfold buildModel at hresult
      rw [if_neg hrules] at hresult
      dsimp only at hresult
      split at hresult
      · cases hresult
      · obtain rfl := Except.error.inj hresult
        rw [herrors]
        exact head_mem_limitErrors e rest

end Grammar
end AnnotatedGrammar
