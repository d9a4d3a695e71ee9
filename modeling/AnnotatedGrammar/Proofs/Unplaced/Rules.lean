import AnnotatedGrammar.Proofs.Analysis.Stages
import AnnotatedGrammar.Proofs.Unplaced.Walk

/-!
# Models without places

Building the model of a grammar without places gives the model of the grammar without places, or the
same errors. Two grammars that differ in places only therefore have models that differ in places
only.
-/

namespace AnnotatedGrammar

namespace Build

theorem IgnoresPlaces.forM_map {γ : Type} {erase : γ → γ} {g g' : γ → Build PUnit}
    (h : ∀ a, IgnoresPlaces (g a) (g' (erase a))) (as : List γ) :
    IgnoresPlaces (as.forM g) ((as.map erase).forM g') := by
  induction as with
  | nil => exact pure _
  | cons a rest ih => exact (h a).bind fun _ => ih

variable {sc sc' : Scope}

/-! ## Roles -/

theorem assignRole_ignoresPlaces (hsc : sc.Unplaced sc') (id : RuleId) (rule : Rule) :
    IgnoresPlaces (assignRole sc id rule) (assignRole sc' id rule.unplaced) := by
  have hnew := newClass_ignoresPlaces hsc.classPrefix hsc.summaries
  have hnamed (name : String) (isNamed : Bool) (kind : ClassKind) (role : ClassId → RuleRole) :
      IgnoresPlaces
        (do return role (← newClass sc name isNamed kind (.rule id) rule.nameSpan))
        (do return role (← newClass sc' name isNamed kind (.rule id) default)) :=
    (hnew name isNamed kind (.rule id) rule.nameSpan).bind fun c => .pure (role c)
  unfold assignRole
  rw [Rule.body_unplaced, Expr.core_unplaced, Rule.markerValue?_unplaced, Rule.marker?_unplaced,
    Rule.markerValue?_unplaced, Expr.stripGroups_unplaced]
  dsimp only [Rule.name_unplaced, Rule.nameSpan_unplaced]
  rw [hsc.isPolymorphic]
  cases rule.markerValue? .classOf with
  | some name =>
    have hmade : IgnoresPlaces
        (if sc.isPolymorphic rule.body.core then do
            return RuleRole.polymorphic (← newClass sc name true .abstract (.rule id) rule.nameSpan)
          else return RuleRole.builds (← newClass sc name true .concrete (.rule id) rule.nameSpan))
        (if sc.isPolymorphic rule.body.core then do
            return RuleRole.polymorphic (← newClass sc' name true .abstract (.rule id) default)
          else return RuleRole.builds (← newClass sc' name true .concrete (.rule id) default)) :=
      .ite (fun _ => hnamed _ _ _ .polymorphic) fun _ => hnamed _ _ _ .builds
    cases rule.marker? .typeOf with
    | none => exact hmade
    | some marker => exact (fault_ignoresPlaces rfl marker.span).bind fun _ => hmade
  | none =>
    refine .ite (fun _ => hnamed _ _ _ .polymorphic) fun _ => ?_
    cases rule.body.core with
    | alternation info branches => exact hnamed _ _ _ .tagged
    | _ =>
      cases rule.marker? .typeOf with
      | none => exact .pure RuleRole.passthrough
      | some marker =>
        exact (fault_ignoresPlaces rfl marker.span).bind fun _ => .pure RuleRole.passthrough

theorem assignRoles_ignoresPlaces (hsc : sc.Unplaced sc') (roles : Array RuleRole)
    (rules : List Rule) :
    IgnoresPlaces (assignRoles sc roles rules)
      (assignRoles sc' roles (rules.map Rule.unplaced)) := by
  induction rules generalizing roles with
  | nil => exact .pure roles
  | cons rule rest ih =>
    exact (assignRole_ignoresPlaces hsc roles.size rule).bind fun role => ih (roles.push role)

/-! ## Values of rules -/

theorem setProgress_ignoresPlaces (id : RuleId) (progress : RuleProgress) :
    IgnoresPlaces (setProgress id progress) (setProgress id progress) :=
  .modify fun _ => rfl

theorem scopeOf_unplaced (hsc : sc.Unplaced sc') (roles : Array RuleRole) (rule : Rule) :
    (scopeOf sc roles rule).Unplaced (scopeOf sc' roles rule.unplaced) where
  toUnplaced := hsc
  roles := rfl
  ruleName := rfl

theorem ruleValue_ignoresPlaces (hsc : sc.Unplaced sc') (roles : Array RuleRole) (depth : Nat)
    (id : RuleId) : IgnoresPlaces (ruleValue sc roles depth id) (ruleValue sc' roles depth id) := by
  induction depth generalizing id with
  | zero => exact .pure none
  | succ depth ih =>
    unfold ruleValue
    rw [hsc.rules, Array.getElem?_map]
    cases (roles.getD id .passthrough).class? with
    | some c => exact .pure _
    | none =>
      cases sc.rules[id]? with
      | none => exact .pure none
      | some rule =>
        refine .get_bind fun d => ?_
        rw [Draft.progress_unplaced]
        cases d.progress.getD id (.done none) with
        | done value => exact .pure value
        | inProgress reported =>
          refine .ite (fun _ => ?_) fun _ => .pure none
          refine .bind (fault_ignoresPlaces rfl rule.nameSpan) fun _ => ?_
          exact (setProgress_ignoresPlaces id _).bind fun _ => .pure none
        | pending =>
          refine (setProgress_ignoresPlaces id _).bind fun _ => ?_
          have hwalk := walkIgnoresPlaces (scopeOf_unplaced hsc roles rule) ih
          exact (hwalk.elementValue rule.body false).bind fun value =>
            (setProgress_ignoresPlaces id _).bind fun _ => .pure value

theorem analyzeRule_ignoresPlaces (hsc : sc.Unplaced sc') (roles : Array RuleRole) (id : RuleId)
    (rule : Rule) :
    IgnoresPlaces (analyzeRule sc roles id rule) (analyzeRule sc' roles id rule.unplaced) := by
  have hsize : sc'.rules.size = sc.rules.size := by rw [hsc.rules, Array.size_map]
  have hwalk := walkIgnoresPlaces (scopeOf_unplaced hsc roles rule)
    (ruleValue_ignoresPlaces hsc roles sc.rules.size)
  unfold analyzeRule
  rw [hsize, Rule.body_unplaced, Expr.core_unplaced, Expr.id_unplaced]
  cases roles.getD id .passthrough with
  | builds c => exact hwalk.fillClass c rule.body false
  | polymorphic base =>
    refine (recordClass_ignoresPlaces rule.body.core.id base).bind fun _ => ?_
    cases rule.body.core with
    | alternation info branches =>
      rw [Expr.unplaced, Expr.unplacedAll_eq_map]
      exact hwalk.polymorphicBranches base 0 branches
    | _ => exact .pure ()
  | tagged c =>
    refine (recordClass_ignoresPlaces rule.body.core.id c).bind fun _ => ?_
    cases rule.body.core with
    | alternation info branches =>
      rw [Expr.unplaced, Expr.unplacedAll_eq_map]
      refine (hwalk.elementValues branches).bind fun values => ?_
      rw [List.zip_map_left]
      exact addVariants_ignoresPlaces c 0 (branches.zip values)
    | _ => exact .pure ()
  | passthrough => exact (ruleValue_ignoresPlaces hsc roles (sc.rules.size + 1) id).discard

theorem analyzeRules_ignoresPlaces (hsc : sc.Unplaced sc') (roles : Array RuleRole) (id : RuleId)
    (rules : List Rule) :
    IgnoresPlaces (analyzeRules sc roles id rules)
      (analyzeRules sc' roles id (rules.map Rule.unplaced)) := by
  induction rules generalizing id with
  | nil => exact .pure ()
  | cons rule rest ih =>
    exact (analyzeRule_ignoresPlaces hsc roles id rule).bind fun _ => ih (id + 1)

/-! ## Checks that need every class -/

theorem applyKey_ignoresPlaces (role : RuleRole) (rule : Rule) :
    IgnoresPlaces (applyKey role rule) (applyKey role rule.unplaced) := by
  unfold applyKey
  rw [Rule.marker?_unplaced, Rule.marker?_unplaced]
  cases rule.marker? .keyOf with
  | none => exact .pure ()
  | some marker =>
    cases rule.marker? .classOf with
    | none => exact .pure ()
    | some classMarker =>
      cases role.class? with
      | none => exact .pure ()
      | some c =>
        dsimp only [Option.map_some]
        rw [Marker.value_unplaced]
        cases marker.value with
        | none => exact .pure ()
        | some raw =>
          refine .get_bind fun d => ?_
          have hname : (d.unplaced.classAt c).name = (d.classAt c).name := by
            rw [Draft.classAt_unplaced]
            rfl
          rw [Draft.fieldsOf_unplaced, hname, Marker.span_unplaced]
          split
          · exact fault_ignoresPlaces rfl marker.span
          · refine .ite (fun _ => fault_ignoresPlaces rfl marker.span) fun _ => ?_
            exact updateClass_ignoresPlaces c fun _ => by rfl

theorem checkTypeClaim_ignoresPlaces (claim : TypeClaim) :
    IgnoresPlaces (checkTypeClaim claim) (checkTypeClaim claim.unplaced) := by
  unfold checkTypeClaim
  refine .get_bind fun d => ?_
  have hname (c : ClassId) : (d.unplaced.classAt c).name = (d.classAt c).name := by
    rw [Draft.classAt_unplaced]
    rfl
  have hfind (expected : String) :
      d.unplaced.classes.findIdx?
          (fun c => c.model.sourceName == expected || c.model.name == expected) =
        d.classes.findIdx? fun c => c.model.sourceName == expected || c.model.name == expected := by
    rw [Draft.classes_unplaced, Array.findIdx?_map]
    rfl
  obtain ⟨node, expected, value, span⟩ := claim
  simp only [TypeClaim.unplaced, Draft.elementName_unplaced, hname, hfind,
    Draft.isAncestor_unplaced,
    Draft.nodeFields_unplaced]
  cases Primitive.ofWord? expected with
  | some p => exact .ite (fun _ => .pure ()) fun _ => fault_ignoresPlaces rfl span
  | none =>
    dsimp only
    cases d.classes.findIdx? fun c => c.model.sourceName == expected ||
        c.model.name == expected with
    | none => exact fault_ignoresPlaces rfl span
    | some target =>
      dsimp only
      cases value.element with
      | primitive p => exact fault_ignoresPlaces rfl span
      | «instance» c =>
        refine .ite (fun _ => .pure ()) fun _ =>
          .ite (fun _ => ?_) fun _ => fault_ignoresPlaces rfl span
        refine (recordValue_ignoresPlaces node _).bind fun _ => ?_
        cases d.nodeFields.get? node with
        | none => exact .pure ()
        | some field => exact updateField_ignoresPlaces field _

theorem baseCycle?_unplaced (d : Draft) (start : ClassId) (seen : List ClassId) (steps : Nat)
    (c : Option ClassId) :
    baseCycle? d.unplaced start seen steps c = baseCycle? d start seen steps c := by
  induction steps generalizing seen c with
  | zero => rfl
  | succ steps ih =>
    cases c with
    | none => rfl
    | some c =>
      have hbase : (d.classAt c).unplaced.base = (d.classAt c).base := rfl
      simp only [baseCycle?, ih, Draft.classAt_unplaced, hbase]

theorem checkCycles_ignoresPlaces (reported classes : List ClassId) :
    IgnoresPlaces (checkCycles reported classes) (checkCycles reported classes) := by
  induction classes generalizing reported with
  | nil => exact .pure ()
  | cons start rest ih =>
    unfold checkCycles
    refine .get_bind fun d => ?_
    have hbase : (d.unplaced.classAt start).base = (d.classAt start).base := by
      rw [Draft.classAt_unplaced]
      rfl
    have hname (c : ClassId) : (d.unplaced.classAt c).name = (d.classAt c).name := by
      rw [Draft.classAt_unplaced]
      rfl
    have hspan (c : ClassId) : (d.unplaced.classAt c).span = default := by
      rw [Draft.classAt_unplaced]
      rfl
    rw [hbase, baseCycle?_unplaced, Draft.classes_unplaced, Array.size_map]
    cases baseCycle? d start [start] (d.classes.size + 1) (d.classAt start).base with
    | none => exact ih reported
    | some members =>
      refine .ite (fun _ => ih reported) fun _ => ?_
      rw [hname, hspan]
      exact (fault_ignoresPlaces rfl _).bind fun _ => ih _

end Build

namespace Grammar

/-- Everything that is built, and every error on the way, does not depend on places. -/
theorem build_ignoresPlaces {sc sc' : Scope} (hsc : sc.Unplaced sc') :
    Build.IgnoresPlaces (build sc) (build sc') := by
  have hrules : sc'.rules.toList = sc.rules.toList.map Rule.unplaced := by
    rw [hsc.rules, Array.toList_map]
  unfold build
  dsimp only
  rw [hrules]
  refine (Build.assignRoles_ignoresPlaces hsc #[] _).bind fun roles => ?_
  refine (Build.analyzeRules_ignoresPlaces hsc roles 0 _).bind fun _ => ?_
  rw [List.zip_map_right]
  refine .bind (.forM_map (fun entry => ?_) _) fun _ => ?_
  · exact Build.applyKey_ignoresPlaces entry.1 entry.2
  refine .get_bind fun d => ?_
  rw [show d.unplaced.typeClaims.toList = d.typeClaims.toList.map TypeClaim.unplaced from
    Array.toList_map]
  refine .bind (.forM_map Build.checkTypeClaim_ignoresPlaces _) fun _ => .get_bind fun d => ?_
  rw [Draft.classes_unplaced, Array.size_map]
  exact (Build.checkCycles_ignoresPlaces [] _).bind fun _ => .pure roles

end Grammar
end AnnotatedGrammar
