import AnnotatedGrammar.Proofs.Analysis.Conclusion
import AnnotatedGrammar.Proofs.Coverage.Rules

/-!
# Whatever a model holds is reached

Classes of rules are made first, and nothing fills a field then. So every class of a model, and
every expression that fills a field of a class with instances, is reached by a walk through the
rules.
-/

namespace AnnotatedGrammar

open Build AnnotatedGrammar.Expr

/-! ## Names that markers give -/

namespace Marker

/-- Without errors every marker has a value that is fit for its key. -/
theorem hasUsableValue_of_eachErrors {site : MarkerSite} {seen markers : List Marker}
    (h : eachErrors site seen markers = []) {marker : Marker} (hmarker : marker ∈ markers)
    {key : MarkerKey} (hkey : MarkerKey.ofWord? marker.key = some key) {raw : String}
    (hraw : marker.value = some raw) : hasUsableValue key raw = true := by
  induction markers generalizing seen with
  | nil => cases hmarker
  | cons first rest ih =>
    unfold eachErrors at h
    cases hfirst : MarkerKey.ofWord? first.key with
    | none =>
      rw [hfirst] at h
      cases h
    | some key' =>
      rw [hfirst] at h
      dsimp only at h
      split at h
      · cases h
      split at h
      · cases h
      obtain ⟨hsite, hrest⟩ := List.append_eq_nil_iff.mp h
      rcases List.mem_cons.mp hmarker with rfl | hmarker
      · obtain rfl := Option.some.inj (hfirst.symm.trans hkey)
        unfold siteErrors at hsite
        have hvalue := (List.append_eq_nil_iff.mp hsite).2
        rw [hraw] at hvalue
        dsimp only at hvalue
        split at hvalue
        · assumption
        · cases hvalue
      · split at hrest
        · split at hrest
          · exact ih hrest hmarker
          · cases hrest
        · exact ih hrest hmarker

end Marker

namespace Expr

theorem namesField_of_errors {site : MarkerSite} {e : Expr}
    (h : Marker.errors site e.markers = []) : e.NamesField := by
  intro raw hraw
  obtain ⟨marker, hmarker, hvalue⟩ := Option.bind_eq_some_iff.mp hraw
  have hkey : MarkerKey.ofWord? marker.key = some .field := by
    have hfound := List.find?_some hmarker
    rw [beq_iff_eq.mp hfound]
    decide
  exact Marker.hasUsableValue_of_eachErrors (List.append_eq_nil_iff.mp h).1
    (List.mem_of_find?_eq_some hmarker) hkey hvalue

/-- Without errors about markers, every marker in an expression gives a name. -/
theorem throughout_namesField :
    (∀ site e, markerErrors site e = [] → e.Throughout NamesField) ∧
      (∀ es, markerErrorsOfBranches es = [] → ∀ e ∈ es, e.Throughout NamesField) ∧
        ∀ es, markerErrorsOfItems es = [] → ∀ e ∈ es, e.Throughout NamesField := by
  have hwhole {site : MarkerSite} {e : Expr} {inner : List SemanticError}
      (h : Marker.errors site e.markers ++ inner = [])
      (hinner : inner = [] → ∀ child ∈ e.children, child.Throughout NamesField) :
      e.Throughout NamesField := by
    obtain ⟨hself, hrest⟩ := List.append_eq_nil_iff.mp h
    exact throughout_iff.mpr ⟨namesField_of_errors hself, hinner hrest⟩
  have hbody {body : Expr} (h : body.Throughout NamesField) :
      ∀ child ∈ [body], child.Throughout NamesField := by
    simpa using h
  apply markerErrors.mutual_induct
  case case1 =>
    intro site info terminal h
    exact throughout_iff.mpr ⟨namesField_of_errors h, nofun⟩
  case case2 =>
    intro site info name h
    exact throughout_iff.mpr ⟨namesField_of_errors h, nofun⟩
  case case3 | case4 =>
    intro site info es ih h
    exact hwhole h ih
  case case5 =>
    intro site info body ih h
    exact hwhole h fun hinner => hbody (ih hinner)
  case case6 =>
    intro site info body kind ih h
    exact hwhole h fun hinner => hbody (ih hinner)
  case case7 =>
    intro site info body ih h
    exact hwhole h fun hinner => hbody (ih hinner)
  case case8 | case10 =>
    intro _ e he
    cases he
  case case9 | case11 =>
    intro e rest ih ihrest h
    obtain ⟨hfirst, hrest⟩ := List.append_eq_nil_iff.mp h
    exact List.forall_mem_cons.mpr ⟨ih hfirst, ihrest hrest⟩

end Expr

/-! ## Classes of rules -/

section

variable {sc : Scope} {roles roles' : Array RuleRole} {d d' : Draft}

theorem RolesReady.rolesHost {first : Draft} (h : RolesReady sc roles first d) :
    RolesHost sc roles d :=
  ⟨h.fits, fun r c hclass => h.origin_of c (h.fits.class_lt r c hclass).2⟩

/-- Before the bodies are analyzed, no expression fills a field. -/
theorem RolesReady.not_fills {first : Draft} (h : RolesReady sc roles first d) {f : FieldId}
    {c : ClassId} {node : NodeId} : ¬d.Fills f c node := by
  intro hfills
  have hlt := hfills.field_lt
  rw [h.no_field] at hlt
  exact absurd hlt (Nat.not_lt_zero _)

theorem RolesReady.idle {first : Draft} {rules : List Rule} (h : RolesReady sc roles first d)
    (hseparate : sc.Separate) (hrules : sc.RulesFrom 0 rules) :
    d.Idle (sc.lazyIds roles) (Rule.classIdsFrom roles 0 rules) := by
  refine ⟨fun node hnode => ?_, fun node _ f c => h.not_fills, fun node _ f c => h.not_fills⟩
  obtain ⟨i, rule, hrule, hclass, hmem⟩ := Rule.mem_classIdsFrom hnode
  rintro ⟨r, -, hlazy⟩
  obtain ⟨body, hbody, hmem'⟩ := Scope.mem_lazyIds.mp hlazy
  obtain ⟨hnone, rule', hrule', rfl⟩ := Scope.lazyBody?_eq_some.mp hbody
  refine hseparate.disjoint (0 + i) r rule rule' (hrules i rule hrule) hrule' ?_ node hmem hmem'
  rintro rfl
  rw [hnone] at hclass
  cases hclass

end

/-! ## Models -/

namespace Grammar

variable {grammar : Grammar} {preferences : ModelPreferences} {overrides : Overrides}
  {assigned analyzed : Draft}

/-- The bodies of the rules are as the walks need them. -/
theorem Analyzed.usable (h : grammar.Analyzed preferences overrides assigned analyzed)
    (hparsed : grammar.IsParsed) {r : RuleId} {rule : Rule}
    (hrule : grammar.rules[r]? = some rule) :
    rule.body.Usable := by
  have hmem : rule ∈ grammar.rules.toList :=
    List.mem_of_getElem? ((Array.getElem?_toList).trans hrule)
  have hseparate : (grammar.scope preferences overrides).Separate := hparsed.separate rfl
  refine ⟨hseparate.proper r rule hrule, ?_⟩
  have herrors := (h.ruleErrors_eq hmem).1
  unfold Rule.markerErrors at herrors
  exact throughout_namesField.1 _ _ (List.append_eq_nil_iff.mp herrors).2

theorem Analyzed.covers (h : grammar.Analyzed preferences overrides assigned analyzed)
    (hparsed : grammar.IsParsed) :
    Covers (grammar.scope preferences overrides) (grammar.draft preferences overrides).roles
      (Rule.classIdsFrom (grammar.draft preferences overrides).roles 0 grammar.rules.toList)
      (Rule.classIdsFrom (grammar.draft preferences overrides).roles 0 grammar.rules.toList)
      (fun _ => True) assigned analyzed :=
  analyzeRules_covers (hparsed.separate rfl) (fun _ _ hrule => h.usable hparsed hrule)
    h.ready.rolesHost (grammar.rulesFrom_scope preferences overrides) h.analyze
    (h.ready.blank (Draft.empty_blank _ _ _)).wellFormed

theorem Analyzed.filed (h : grammar.Analyzed preferences overrides assigned analyzed)
    (hparsed : grammar.IsParsed) : analyzed.Filed :=
  (h.covers hparsed).filed
    (h.ready.idle (hparsed.separate rfl) (grammar.rulesFrom_scope preferences overrides))
    ⟨fun hfills => absurd hfills h.ready.not_fills, fun hfills => absurd hfills h.ready.not_fills⟩

/-- What fills a field of the model filled it when the analysis was done. -/
theorem Analyzed.fills (h : grammar.Analyzed preferences overrides assigned analyzed) {f : FieldId}
    {c : ClassId} {node : NodeId}
    (hfills : ((grammar.draft preferences overrides).model grammar).Fills f c node) :
    analyzed.Fills f c node := by
  obtain ⟨⟨cls, hcls, hkind⟩, field, hfield, howner, hnode⟩ := hfills
  obtain ⟨hc, rfl⟩ := DraftedModel.class?_eq_some grammar hcls
  obtain ⟨hf, rfl⟩ := DraftedModel.field?_eq_some grammar hfield
  obtain ⟨-, howner', -, hnodes⟩ := h.concludes.field_kept f
  exact ⟨h.concludes.fields_size ▸ hf, h.concludes.classes_size ▸ hc,
    (h.concludes.class_kept c).1 ▸ hkind, howner' ▸ howner, hnodes ▸ hnode⟩

end Grammar
end AnnotatedGrammar
