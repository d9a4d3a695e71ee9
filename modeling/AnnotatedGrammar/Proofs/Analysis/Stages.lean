import Mathlib
import AnnotatedGrammar.Proofs.Analysis.Bodies

/-!
# The stages of building a model

First every rule gets its role, with the class that takes; then the bodies are analyzed; last come
the checks that need every class. The first stage leaves a draft on which nothing was recorded yet,
and the last one changes nothing that was settled apart from generalizing types.
-/

namespace AnnotatedGrammar

open Build AnnotatedGrammar.Expr

namespace Grammar

variable (grammar : Grammar) (preferences : ModelPreferences) (overrides : Overrides)

/-- What stays the same while a grammar is analyzed. -/
def scope : Scope where
  symbols := (SymbolTable.ofGrammar grammar preferences.builtinPatterns).1
  rules := grammar.rules
  paths := grammar.paths
  classPrefix := (Settings.ofDirectives grammar.directives
    (SymbolTable.ofGrammar grammar preferences.builtinPatterns).1 overrides).1.classPrefix
  summaries := preferences.classSummaries

/-- The draft before anything is built: the errors of names, directives and markers. -/
def firstDraft : Draft :=
  Draft.empty grammar.rules.size grammar.nodeCount
    ((SymbolTable.ofGrammar grammar preferences.builtinPatterns).2 ++
      (Settings.ofDirectives grammar.directives
        (SymbolTable.ofGrammar grammar preferences.builtinPatterns).1 overrides).2 ++
      grammar.ruleErrors (SymbolTable.ofGrammar grammar preferences.builtinPatterns).1)

/-- All stages after one another. -/
def build (sc : Scope) : Build (Array RuleRole) := do
  let rules := sc.rules.toList
  let roles ← assignRoles sc #[] rules
  analyzeRules sc roles 0 rules
  (roles.toList.zip rules).forM fun entry => applyKey entry.1 entry.2
  (← get).typeClaims.toList.forM checkTypeClaim
  checkCycles [] (List.range (← get).classes.size)
  return roles

theorem draft_eq : build (grammar.scope preferences overrides)
    (grammar.firstDraft preferences overrides) =
      ((grammar.draft preferences overrides).roles, (grammar.draft preferences overrides).draft) :=
  rfl

/-- The drafts between the stages. -/
structure Stages (assigned analyzed keyed claimed : Draft) : Prop where
  assign : assignRoles (grammar.scope preferences overrides) #[] grammar.rules.toList
    (grammar.firstDraft preferences overrides) =
      ((grammar.draft preferences overrides).roles, assigned)
  analyze : analyzeRules (grammar.scope preferences overrides)
    (grammar.draft preferences overrides).roles 0 grammar.rules.toList assigned = ((), analyzed)
  key : (((grammar.draft preferences overrides).roles.toList.zip grammar.rules.toList).forM
    fun entry => applyKey entry.1 entry.2 : Build Unit) analyzed = ((), keyed)
  claim : (keyed.typeClaims.toList.forM checkTypeClaim : Build Unit) keyed = ((), claimed)
  cycles : checkCycles [] (List.range claimed.classes.size) claimed =
    ((), (grammar.draft preferences overrides).draft)

theorem exists_stages : ∃ assigned analyzed keyed claimed,
    grammar.Stages preferences overrides assigned analyzed keyed claimed := by
  have hbuild := grammar.draft_eq preferences overrides
  unfold build at hbuild
  simp only [bind_eq, get_eq, pure_eq] at hbuild
  obtain ⟨roles, assigned, hassign, _, analyzed, hanalyze, _, keyed, hkey, _, _, ⟨rfl, rfl⟩, _,
    claimed, hclaim, _, _, ⟨rfl, rfl⟩, _, _, hcycles, hroles, rfl⟩ := hbuild
  subst hroles
  exact ⟨assigned, analyzed, _, _, hassign, hanalyze, hkey, hclaim, hcycles⟩

theorem rulesFrom_scope : (grammar.scope preferences overrides).RulesFrom 0
    grammar.rules.toList := by
  intro i rule hrule
  rw [Nat.zero_add]
  rwa [Array.getElem?_toList] at hrule

end Grammar

/-! ## Roles -/

section

variable {sc : Scope} {d d' : Draft} {rule : Rule} {role : RuleRole} {r : RuleId}

/-- A role and the class that was made for it. -/
structure RoleMade (rule : Rule) (role : RuleRole) (d d' : Draft) : Prop where
  quiet : Quiet (fun _ => False) d d'
  made : ∀ c, role.class? = some c →
    ∃ kind r, role.kind? = some kind ∧ Made kind (.rule r) c d d'
  none : role.class? = none → d'.classes.size = d.classes.size ∧ d'.fields = d.fields
  alternatives : ∀ c, (role = .polymorphic c ∨ role = .tagged c) →
    ∃ info branches, rule.body.core = .alternation info branches

/-- Settling a role at most finds errors, or then makes the class of the role. -/
theorem Build.assignRole_cases (h : assignRole sc r rule d = (role, d')) :
    ∃ d₁, Faults d d₁ ∧ (role = .passthrough ∧ d' = d₁ ∨
      ∃ c kind, role.class? = some c ∧ role.kind? = some kind ∧
        Creates sc kind (.rule r) c d₁ d' ∧
          ∀ c', (role = .polymorphic c' ∨ role = .tagged c') →
            ∃ info branches, rule.body.core = .alternation info branches) := by
  have hmaker {raw : String} {isNamed : Bool} {kind : ClassKind} {span : Span} {d₁ : Draft}
      {makes : ClassId → RuleRole} (hfaults : Faults d d₁)
      (h : (do return makes (← newClass sc raw isNamed kind (.rule r) span) : Build RuleRole) d₁ =
        (role, d')) (hclass : ∀ c, (makes c).class? = some c)
      (hkind : ∀ c, (makes c).kind? = some kind)
      (halternatives : ∀ c c', (makes c = .polymorphic c' ∨ makes c = .tagged c') →
        ∃ info branches, rule.body.core = .alternation info branches) :
      ∃ d₁, Faults d d₁ ∧ (role = .passthrough ∧ d' = d₁ ∨
        ∃ c kind, role.class? = some c ∧ role.kind? = some kind ∧
          Creates sc kind (.rule r) c d₁ d' ∧
            ∀ c', (role = .polymorphic c' ∨ role = .tagged c') →
              ∃ info branches, rule.body.core = .alternation info branches) := by
    simp only [bind_eq, pure_eq] at h
    obtain ⟨c, _, hmade, rfl, rfl⟩ := h
    exact ⟨d₁, hfaults, .inr ⟨c, kind, hclass c, hkind c, ⟨raw, isNamed, span, hmade⟩,
      halternatives c⟩⟩
  unfold assignRole at h
  dsimp only at h
  cases hclass : rule.markerValue? .classOf with
  | some name =>
    simp only [hclass] at h
    obtain ⟨d₁, hfaults, h⟩ : ∃ d₁, Faults d d₁ ∧ (if sc.isPolymorphic rule.body.core = true then
        return .polymorphic (← newClass sc name true .abstract (.rule r) rule.nameSpan)
      else return .builds (← newClass sc name true .concrete (.rule r) rule.nameSpan) :
        Build RuleRole) d₁ = (role, d') := by
      cases hmarker : rule.marker? .typeOf with
      | some marker =>
        simp only [hmarker] at h
        obtain ⟨_, d₁, hfault, h⟩ := bind_eq.mp h
        exact ⟨d₁, fault_faults hfault, h⟩
      | none =>
        simp only [hmarker] at h
        exact ⟨d, .refl d, h⟩
    split at h
    · rename_i hpolymorphic
      exact hmaker hfaults h (fun _ => rfl) (fun _ => rfl) fun _ _ _ =>
        sc.alternation_of_isPolymorphic hpolymorphic
    · exact hmaker hfaults h (fun _ => rfl) (fun _ => rfl) (by simp)
  | none =>
    simp only [hclass] at h
    split at h
    · rename_i hpolymorphic
      exact hmaker (.refl d) h (fun _ => rfl) (fun _ => rfl) fun _ _ _ =>
        sc.alternation_of_isPolymorphic hpolymorphic
    · cases hcore : rule.body.core with
      | alternation info branches =>
        simp only [hcore] at h
        rw [hcore] at hmaker
        exact hmaker (.refl d) h (fun _ => rfl) (fun _ => rfl) fun _ _ _ => ⟨info, branches, rfl⟩
      | _ =>
        simp only [hcore] at h
        cases hmarker : rule.marker? .typeOf with
        | some marker =>
          simp only [hmarker] at h
          obtain ⟨_, d₁, hfault, h⟩ := bind_eq.mp h
          obtain ⟨rfl, rfl⟩ := pure_eq.mp h
          exact ⟨d₁, fault_faults hfault, .inl ⟨rfl, rfl⟩⟩
        | none =>
          simp only [hmarker] at h
          obtain ⟨rfl, rfl⟩ := pure_eq.mp h
          exact ⟨d, .refl d, .inl ⟨rfl, rfl⟩⟩

theorem Build.assignRole_made (h : assignRole sc r rule d = (role, d')) :
    RoleMade rule role d d' := by
  obtain ⟨d₁, hfaults, ⟨rfl, rfl⟩ |
    ⟨c, kind, hclass, hkind, ⟨raw, isNamed, span, hmade⟩, halternatives⟩⟩ := assignRole_cases h
  · obtain ⟨errors, rfl, -⟩ := id hfaults
    exact ⟨hfaults.quiet, by simp [RuleRole.class?], fun _ => ⟨rfl, rfl⟩, by simp⟩
  · obtain ⟨hquiet, hid, hsize, hkind', horigin, hvariants, hfields⟩ :=
      newClass_quiet (S := fun _ => False) hmade
    have hsame : d₁.classes = d.classes ∧ d₁.fields = d.fields := by
      obtain ⟨errors, rfl, -⟩ := hfaults
      exact ⟨rfl, rfl⟩
    rw [hsame.1] at hid hsize
    rw [hsame.2] at hfields
    refine ⟨hfaults.quiet.trans hquiet, fun c' hc' => ?_, fun hnone => ?_, halternatives⟩
    · obtain rfl := Option.some.inj (hclass.symm.trans hc')
      exact ⟨kind, r, hkind, hid, hsize, hkind', horigin, hvariants, hfields⟩
    · rw [hclass] at hnone
      cases hnone

/-- What holds once the first rules have their roles: every class belongs to one of them, and
nothing else was recorded. -/
structure RolesReady (sc : Scope) (roles : Array RuleRole) (first d : Draft) : Prop where
  fits : RolesFit sc roles d
  quiet : Quiet (fun _ => False) first d
  no_field : d.fields = #[]
  class_of : ∀ c < d.classes.size, ∃ r, (roles.getD r .passthrough).class? = some c
  origin_of : ∀ c < d.classes.size, ∃ r, (d.classAt c).origin = .rule r
  no_variants : ∀ c, (d.classAt c).variants = []

theorem RolesReady.empty (grammar : Grammar) (preferences : ModelPreferences)
    (overrides : Overrides) : RolesReady (grammar.scope preferences overrides) #[]
      (grammar.firstDraft preferences overrides) (grammar.firstDraft preferences overrides) where
  fits := ⟨by simp [RuleRole.class?], by simp [RuleRole.class?], by simp, by simp [RuleRole.class?]⟩
  quiet := .refl _ _
  no_field := rfl
  class_of c hc := absurd hc (Nat.not_lt_zero c)
  origin_of c hc := absurd hc (Nat.not_lt_zero c)
  no_variants c := rfl

theorem getD_push_role (roles : Array RuleRole) (role : RuleRole) (r : RuleId) :
    (roles.push role).getD r .passthrough =
      if r = roles.size then role else roles.getD r .passthrough := by
  simp only [Array.getD_eq_getD_getElem?, Array.getElem?_push]
  split <;> rfl

/-- One more rule gets its role. -/
theorem RolesReady.push {roles : Array RuleRole} {first : Draft} (h : RolesReady sc roles first d)
    (hrule : sc.rules[roles.size]? = some rule) (hmade : RoleMade rule role d d') :
    RolesReady sc (roles.push role) first d' := by
  have hframe := hmade.quiet.plain
  have hlt {r : RuleId} {c : ClassId} (hclass : (roles.getD r .passthrough).class? = some c) :
      r ≠ roles.size := by
    rintro rfl
    rw [Array.getD_eq_getD_getElem?, Array.getElem?_eq_none (Nat.le_refl _)] at hclass
    cases hclass
  have hnew {c : ClassId} (hclass : role.class? = some c) : c = d.classes.size ∧
      d'.classes.size = d.classes.size + 1 := by
    obtain ⟨kind, r, -, hid, hsize, -⟩ := hmade.made c hclass
    exact ⟨hid, hsize⟩
  refine ⟨⟨fun r c hclass => ?_, fun r c hclass => ?_, fun r c rule' hrule' hrole => ?_,
    fun r r' c hclass hclass' => ?_⟩, h.quiet.trans hmade.quiet, ?_, fun c hc => ?_,
    fun c hc => ?_, fun c => ?_⟩
  · rw [getD_push_role] at hclass
    split at hclass
    · rename_i heq
      subst heq
      obtain ⟨rfl, hsize⟩ := hnew hclass
      exact ⟨(Array.getElem?_eq_some_iff.mp hrule).1, hsize ▸ Nat.lt_succ_self _⟩
    · exact ⟨(h.fits.class_lt r c hclass).1,
        Nat.lt_of_lt_of_le (h.fits.class_lt r c hclass).2 hframe.classes_le⟩
  · rw [getD_push_role] at hclass ⊢
    split at hclass
    · rename_i heq
      rw [if_pos heq]
      obtain ⟨kind, r, hkind, hmade⟩ := hmade.made c hclass
      rw [hmade.kind_eq]
      exact hkind
    · rename_i hne
      rw [if_neg hne, hframe.kind_eq c (h.fits.class_lt r c hclass).2]
      exact h.fits.kind_eq r c hclass
  · rw [getD_push_role] at hrole
    split at hrole
    · rename_i heq
      subst heq
      obtain rfl : rule = rule' := Option.some.inj (hrule.symm.trans hrule')
      exact hmade.alternatives c hrole
    · exact h.fits.alternatives r c rule' hrule' hrole
  · rw [getD_push_role] at hclass hclass'
    split at hclass <;> split at hclass'
    · rename_i heq heq'
      exact heq.trans heq'.symm
    · obtain ⟨rfl, -⟩ := hnew hclass
      exact absurd (h.fits.class_lt r' _ hclass').2 (Nat.lt_irrefl _)
    · obtain ⟨rfl, -⟩ := hnew hclass'
      exact absurd (h.fits.class_lt r _ hclass).2 (Nat.lt_irrefl _)
    · exact h.fits.class_inj r r' c hclass hclass'
  · cases hclass : role.class? with
    | none => exact (hmade.none hclass).2.trans h.no_field
    | some c =>
      obtain ⟨kind, r, -, hmade⟩ := hmade.made c hclass
      exact hmade.fields_eq.trans h.no_field
  · by_cases hbefore : c < d.classes.size
    · obtain ⟨r, hclass⟩ := h.class_of c hbefore
      refine ⟨r, ?_⟩
      rw [getD_push_role, if_neg (hlt hclass)]
      exact hclass
    · cases hclass : role.class? with
      | none =>
        rw [(hmade.none hclass).1] at hc
        exact absurd hc hbefore
      | some c' =>
        obtain ⟨rfl, hsize⟩ := hnew hclass
        obtain rfl : c = d.classes.size :=
          Nat.le_antisymm (Nat.le_of_lt_succ (Nat.lt_of_lt_of_eq hc hsize)) (Nat.not_lt.mp hbefore)
        refine ⟨roles.size, ?_⟩
        rw [getD_push_role, if_pos rfl]
        exact hclass
  · by_cases hbefore : c < d.classes.size
    · obtain ⟨r, horigin⟩ := h.origin_of c hbefore
      exact ⟨r, (hframe.origin_eq c hbefore).trans horigin⟩
    · cases hclass : role.class? with
      | none =>
        rw [(hmade.none hclass).1] at hc
        exact absurd hc hbefore
      | some c' =>
        obtain ⟨kind, r, -, hmade⟩ := hmade.made c' hclass
        obtain rfl : c = c' := by
          rw [hmade.id_eq]
          exact Nat.le_antisymm (Nat.le_of_lt_succ (Nat.lt_of_lt_of_eq hc hmade.size_eq))
            (Nat.not_lt.mp hbefore)
        exact ⟨r, hmade.origin_eq⟩
  · by_cases hbefore : c < d.classes.size
    · have hsame : (Cell.variants c).Same d d' := hmade.quiet.same hbefore fun h => h
      exact hsame.trans (h.no_variants c)
    · by_cases hc : c < d'.classes.size
      · cases hclass : role.class? with
        | none =>
          rw [(hmade.none hclass).1] at hc
          exact absurd hc hbefore
        | some c' =>
          obtain ⟨kind, r, -, hmade⟩ := hmade.made c' hclass
          obtain rfl : c = c' := by
            rw [hmade.id_eq]
            exact Nat.le_antisymm (Nat.le_of_lt_succ (Nat.lt_of_lt_of_eq hc hmade.size_eq))
              (Nat.not_lt.mp hbefore)
          exact hmade.variants_eq
      · unfold Draft.classAt
        rw [Array.getD_eq_getD_getElem?, Array.getElem?_eq_none (Nat.not_lt.mp hc)]
        rfl

theorem Build.assignRoles_ready {roles roles' : Array RuleRole} {rules : List Rule} {first : Draft}
    (h : assignRoles sc roles rules d = (roles', d')) (hrules : sc.RulesFrom roles.size rules)
    (hready : RolesReady sc roles first d) : RolesReady sc roles' first d' := by
  induction rules generalizing roles d with
  | nil =>
    rw [assignRoles] at h
    obtain ⟨rfl, rfl⟩ := pure_eq.mp h
    exact hready
  | cons rule rest ih =>
    rw [assignRoles] at h
    obtain ⟨role, d₁, hrole, hrest⟩ := bind_eq.mp h
    refine ih hrest ?_ (hready.push hrules.head (assignRole_made hrole))
    rw [Array.size_push]
    exact hrules.tail

end

/-- The rules of a parsed grammar are separate. -/
theorem Grammar.IsParsed.separate {grammar : Grammar} (h : grammar.IsParsed) {sc : Scope}
    (hrules : sc.rules = grammar.rules) : sc.Separate := by
  have hget {r : RuleId} {rule : Rule} (hrule : sc.rules[r]? = some rule) :
      grammar.rules.toList[r]? = some rule := by
    rw [hrules] at hrule
    rw [Array.getElem?_toList]
    exact hrule
  refine ⟨fun r rule hrule => ⟨h.shaped rule (List.mem_of_getElem? (hget hrule)), ?_⟩,
    fun r r' rule rule' hrule hrule' hne id hid hid' => ?_⟩
  · exact (List.nodup_flatMap.mp h.nodup).1 rule (List.mem_of_getElem? (hget hrule))
  · have hpairwise := (List.nodup_flatMap.mp h.nodup).2
    rw [List.pairwise_iff_getElem] at hpairwise
    obtain ⟨hlt, heq⟩ := List.getElem?_eq_some_iff.mp (hget hrule)
    obtain ⟨hlt', heq'⟩ := List.getElem?_eq_some_iff.mp (hget hrule')
    rcases Nat.lt_or_gt_of_ne hne with hbefore | hafter
    · have hdisjoint := hpairwise r r' hlt hlt' hbefore
      rw [heq, heq'] at hdisjoint
      exact hdisjoint hid hid'
    · have hdisjoint := hpairwise r' r hlt' hlt hafter
      rw [heq, heq'] at hdisjoint
      exact hdisjoint hid' hid

section

variable {sc : Scope} {roles : Array RuleRole} {d : Draft}

/-- Nothing was recorded in a draft yet, apart from classes. -/
structure Draft.Blank (d : Draft) : Prop where
  wellFormed : d.WellFormed
  unreported : d.Unreported
  no_claim : ∀ id, (Cell.value id).Fresh d
  no_class : ∀ id, (Cell.nodeClass id).Fresh d

theorem Draft.Blank.claimed (h : d.Blank) : d.Claimed :=
  fun claim hclaim => absurd rfl (h.no_claim claim.node claim hclaim)

theorem Draft.empty_blank (ruleCount nodeCount : Nat) (errors : List SemanticError) :
    (Draft.empty ruleCount nodeCount errors).Blank where
  wellFormed := by
    refine ⟨fun f hf => ?_, fun f hf => ?_, fun c hc => ?_⟩
    all_goals exact absurd ‹_› (Nat.not_lt_zero _)
  unreported r hr := by
    simp [Draft.empty, Array.getElem?_replicate] at hr
  no_claim id claim hclaim := by
    simp [Draft.empty] at hclaim
  no_class id := NodeTable.get?_empty _ _

theorem RolesReady.blank {first : Draft} (h : RolesReady sc roles first d) (hfirst : first.Blank) :
    d.Blank where
  wellFormed := h.quiet.plain.wellFormed hfirst.wellFormed
  unreported r := by
    rw [h.quiet.progress_eq]
    exact hfirst.unreported r
  no_claim id := h.quiet.plain.fresh (hfirst.no_claim id) (fun h => h) trivial
    fun ⟨_, _, hid⟩ => by cases hid
  no_class id := h.quiet.plain.fresh (hfirst.no_class id) (fun h => h) trivial
    fun ⟨_, _, hid⟩ => by cases hid

/-- There are never more rules waiting than there are rules. -/
theorem Draft.waiting_lt_succ (hsize : d.progress.size = sc.rules.size) :
    (d.waiting sc roles).card < sc.rules.size + 1 := by
  refine Nat.lt_succ_of_le (Nat.le_trans (Finset.card_filter_le _ _) ?_)
  rw [Finset.card_range, hsize]

/-- Once all roles are there, the analysis of the bodies may begin. -/
theorem RolesReady.sound {first : Draft} (h : RolesReady sc roles first d) (hfirst : first.Blank)
    (hsize : d.progress.size = sc.rules.size) : d.Sound sc roles (sc.rules.size + 1) where
  wellFormed := (h.blank hfirst).wellFormed
  unreported := (h.blank hfirst).unreported
  claimed := (h.blank hfirst).claimed
  untouched id _ := ⟨(h.blank hfirst).no_claim id, (h.blank hfirst).no_class id⟩
  roles_lt r c hclass := (h.fits.class_lt r c hclass).2
  waiting_lt := d.waiting_lt_succ hsize

theorem RolesReady.rules_open {first : Draft} {rules : List Rule} (h : RolesReady sc roles first d)
    (hfirst : first.Blank) (hseparate : sc.Separate) (hrules : sc.RulesFrom 0 rules) :
    d.Open (sc.lazyIds roles) (rulesCells roles 0 rules) := by
  rintro cell ⟨i, rule, hrule, hcell⟩
  rw [Nat.zero_add] at hcell
  have hget := hrules i rule hrule
  rw [Nat.zero_add] at hget
  obtain ⟨c, hclass, hcell⟩ := ruleCells_cases hcell
  have hc := (h.fits.class_lt i c hclass).2
  have hfree {id : NodeId} (hid : id ∈ rule.body.ids) : ¬d.Reserved (sc.lazyIds roles) id := by
    rintro ⟨r, -, hmem⟩
    obtain ⟨body, hbody, hid'⟩ := Scope.mem_lazyIds.mp hmem
    obtain ⟨hlazy, rule', hrule', rfl⟩ := Scope.lazyBody?_eq_some.mp hbody
    refine hseparate.disjoint i r rule rule' hget hrule' ?_ id hid hid'
    rintro rfl
    rw [hclass] at hlazy
    cases hlazy
  rcases hcell with ⟨id, hid, rfl | rfl | rfl⟩ | rfl
  · exact ⟨(h.blank hfirst).no_claim id, hfree hid, trivial⟩
  · exact ⟨(h.blank hfirst).no_class id, hfree hid, trivial⟩
  · refine ⟨fun f hf => ?_, hfree hid, hc⟩
    rw [h.no_field] at hf
    exact absurd hf (Nat.not_lt_zero _)
  · exact ⟨h.no_variants c, fun h => h, hc⟩

end

end AnnotatedGrammar
