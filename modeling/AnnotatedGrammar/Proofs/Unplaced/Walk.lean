import Mathlib.Tactic.MkIffOfInductiveProp
import AnnotatedGrammar.Proofs.Analysis.Footprint
import AnnotatedGrammar.Proofs.Unplaced.Draft

/-!
# Walks without places

A walk through an expression without places does what the walk through the expression does, apart
from the places.
-/

namespace AnnotatedGrammar

/-- `sc'` is the scope `sc` without places. -/
structure Scope.Unplaced (sc sc' : Scope) : Prop where
  symbols : sc.symbols.Agrees sc'.symbols
  rules : sc'.rules = sc.rules.map Rule.unplaced
  paths : sc'.paths = sc.paths
  classPrefix : sc'.classPrefix = sc.classPrefix
  summaries : sc'.summaries = sc.summaries

namespace Scope.Unplaced

variable {sc sc' : Scope}

theorem rule? (h : sc.Unplaced sc') (name : String) :
    sc'.rule? name = (sc.rule? name).map Rule.unplaced := by
  rw [Scope.rule?, h.symbols.ruleId?, h.rules, Scope.rule?]
  cases sc.symbols.ruleId? name with
  | none => rfl
  | some id => exact Array.getElem?_map

theorem isClassBearing (h : sc.Unplaced sc') (branch : Expr) :
    sc'.isClassBearing branch.unplaced = sc.isClassBearing branch := by
  simp only [Scope.isClassBearing, Expr.core_unplaced, Expr.hasMarker_unplaced]
  congr 1
  cases branch.core with
  | reference info name =>
    simp only [Expr.unplaced, h.rule?]
    cases sc.rule? name with
    | none => rfl
    | some rule => simp only [Option.map_some, Rule.marker?_unplaced, Option.isSome_map]
  | _ => rfl

theorem isPolymorphic (h : sc.Unplaced sc') (e : Expr) :
    sc'.isPolymorphic e.unplaced = sc.isPolymorphic e := by
  cases e with
  | alternation info branches =>
    simp only [Expr.unplaced, Expr.unplacedAll_eq_map, Scope.isPolymorphic, List.countP_map,
      Function.comp_def, h.isClassBearing]
  | _ => rfl

end Scope.Unplaced

/-- `sc'` is the scope `sc` without places. -/
structure RuleScope.Unplaced (sc sc' : RuleScope) : Prop extends
    Scope.Unplaced sc.toScope sc'.toScope where
  roles : sc'.roles = sc.roles
  ruleName : sc'.ruleName = sc.ruleName

namespace RuleScope.Unplaced

variable {sc sc' : RuleScope}

theorem referencedClass? (h : sc.Unplaced sc') (e : Expr) :
    sc'.referencedClass? e.unplaced = sc.referencedClass? e := by
  cases e with
  | reference info name =>
    simp only [Expr.unplaced, RuleScope.referencedClass?, h.symbols.ruleId?, h.rules, h.roles,
      Array.getElem?_map]
    congr 1
    funext id
    cases sc.rules[id]? with
    | none => rfl
    | some rule =>
      simp only [Option.map_some, Option.bind_some, Rule.marker?_unplaced, Option.isSome_map]
  | _ => rfl

theorem derivedClassName (h : sc.Unplaced sc') (node : NodeId) :
    sc'.derivedClassName node = sc.derivedClassName node := by
  rw [RuleScope.derivedClassName, h.paths, h.ruleName, RuleScope.derivedClassName]

theorem isUnresolved (h : sc.Unplaced sc') (e : Expr) :
    sc'.isUnresolved e.unplaced = sc.isUnresolved e := by
  induction e using RuleScope.isUnresolved.induct with
  | case1 info name => exact congrArg (!·) (h.symbols.contains name)
  | case2 info body ih | case3 info body ih | case4 info body kind ih =>
    simpa only [Expr.unplaced, RuleScope.isUnresolved] using ih
  | case5 e hreference hgroup hoptional hrepeated =>
    cases e with
    | reference info name => exact (hreference info name rfl).elim
    | optional info body => exact (hoptional info body rfl).elim
    | repeated info body kind => exact (hrepeated info body kind rfl).elim
    | group info body => exact (hgroup info body rfl).elim
    | _ => rfl

end RuleScope.Unplaced

namespace Build

theorem faultMarkers_ignoresPlaces (e : Expr) (keys : List MarkerKey) (place : MarkerPlace) :
    IgnoresPlaces (faultMarkers e keys place) (faultMarkers e.unplaced keys place) := by
  refine .forM (fun key => ?_) keys
  rw [Expr.marker?_unplaced]
  cases e.marker? key with
  | none => exact .pure _
  | some marker => exact fault_ignoresPlaces rfl marker.span

theorem finishElement_ignoresPlaces {sc sc' : RuleScope} (hsc : sc.Unplaced sc') (e : Expr)
    (value : Option Value) (fieldAllowed : Bool) :
    IgnoresPlaces (finishElement sc e value fieldAllowed)
      (finishElement sc' e.unplaced value fieldAllowed) := by
  unfold finishElement
  have hany : Expr.fieldMarkers.any e.unplaced.hasMarker = Expr.fieldMarkers.any e.hasMarker := by
    simp [Expr.fieldMarkers]
  have hclaim : (if e.unplaced.namesAlternatives then none else e.unplaced.marker? .typeOf) =
      (if e.namesAlternatives then none else e.marker? .typeOf).map Marker.unplaced := by
    rw [Expr.namesAlternatives_unplaced, Expr.marker?_unplaced]
    split <;> rfl
  have hrecorded : IgnoresPlaces (do recordValue e.id value; return value)
      (do recordValue e.id value; return value) :=
    (recordValue_ignoresPlaces e.id value).bind fun _ => .pure value
  rw [hany, hclaim, Expr.hasMarker_unplaced, hsc.isUnresolved, Expr.marker?_unplaced,
    Expr.id_unplaced]
  generalize (if e.namesAlternatives then none else e.marker? .typeOf) = claim
  dsimp only
  rw [Option.isSome_map]
  refine .guarded (faultMarkers_ignoresPlaces e _ _) ?_
  cases value with
  | none => exact .guarded (faultMarkers_ignoresPlaces e _ _) hrecorded
  | some v =>
    have hclaimed (marker : Marker) : IgnoresPlaces
        (modify fun d : Draft => { d with
          typeClaims := d.typeClaims.push ⟨e.id, marker.value.getD "", v, marker.span⟩ })
        (modify fun d : Draft => { d with
          typeClaims := d.typeClaims.push ⟨e.id, marker.value.getD "", v, default⟩ }) := by
      refine .modify fun d => ?_
      simp only [Draft.unplaced, Array.map_push]
      rfl
    have hlists (marker : Marker) {rest rest' : Build (Option Value)}
        (hrest : IgnoresPlaces rest rest') :
        IgnoresPlaces (fault (.conflictingMarkers .optionalList) marker.span >>= fun _ => rest)
          (fault (.conflictingMarkers .optionalList) default >>= fun _ => rest') :=
      (fault_ignoresPlaces rfl marker.span).bind fun _ => hrest
    dsimp only
    -- only a list that is declared optional is at fault
    cases e.marker? .optional with
    | none =>
      cases claim with
      | none => cases v.cardinality <;> exact hrecorded
      | some marker =>
        cases v.cardinality <;> exact (hclaimed marker).bind fun _ => hrecorded
    | some optional =>
      cases claim with
      | none =>
        cases v.cardinality with
        | list => exact hlists optional hrecorded
        | _ => exact hrecorded
      | some marker =>
        cases v.cardinality with
        | list => exact hlists optional ((hclaimed marker).bind fun _ => hrecorded)
        | _ => exact (hclaimed marker).bind fun _ => hrecorded

theorem addField_ignoresPlaces (c : ClassId) (e : Expr) (value : Option Value)
    (outer : Cardinality) (branch : Nat) (ownMarkers : Bool) :
    IgnoresPlaces (addField c e value outer branch ownMarkers)
      (addField c e.unplaced value outer branch ownMarkers) := by
  unfold addField
  cases value with
  | none => exact .pure ()
  | some v =>
    have hsource (cls : ClassId) (d : Draft) :
        (d.unplaced.classAt cls).sourceName = (d.classAt cls).sourceName := by
      rw [Draft.classAt_unplaced]
      rfl
    simp only [Expr.hasMarker_unplaced, Expr.markerValue?_unplaced, Expr.span_unplaced,
      Expr.fieldSubject?_unplaced, Expr.id_unplaced]
    split
    · next raw _ =>
      refine (namedField_ignoresPlaces c raw _ _ branch e.span).bind fun field => ?_
      cases field with
      | none => exact .pure ()
      | some id => exact recordField_ignoresPlaces e.id id branch
    · refine .get_bind fun d => ?_
      simp only [hsource]
      refine (derivedField_ignoresPlaces c _ _ _ branch e.span).bind fun field => ?_
      cases field with
      | none => exact .pure ()
      | some id => exact recordField_ignoresPlaces e.id id branch

theorem singleValue_ignoresPlaces {sc sc' : RuleScope} (hsc : sc.Unplaced sc') (info : NodeInfo)
    (values : List (Option Value)) :
    IgnoresPlaces (singleValue sc info values) (singleValue sc' info.unplaced values) := by
  unfold singleValue
  rw [hsc.ruleName]
  split
  · exact .pure none
  · exact .pure _
  · exact (fault_ignoresPlaces rfl info.span).bind fun _ => .pure none

/-! ## The walks -/

/-- Every walk through an expression without places does what the walk through the expression
does. -/
@[mk_iff]
structure WalkIgnoresPlaces (visit visit' : RuleId → Build (Option Value)) (sc sc' : RuleScope) :
    Prop where
  elementValue : ∀ e allowed, IgnoresPlaces (elementValue visit sc e allowed)
    (elementValue visit' sc' e.unplaced allowed)
  structuralValue : ∀ e, IgnoresPlaces (structuralValue visit sc e)
    (structuralValue visit' sc' e.unplaced)
  alternationValue : ∀ info branches hint,
    IgnoresPlaces (alternationValue visit sc info branches hint)
      (alternationValue visit' sc' info.unplaced (branches.map Expr.unplaced) hint)
  elementValues : ∀ es, IgnoresPlaces (elementValues visit sc es)
    (elementValues visit' sc' (es.map Expr.unplaced))
  polymorphicBranches : ∀ base index branches,
    IgnoresPlaces (polymorphicBranches visit sc base index branches)
      (polymorphicBranches visit' sc' base index (branches.map Expr.unplaced))
  collectFields : ∀ e c outer branch isBearer,
    IgnoresPlaces (collectFields visit sc e c outer branch isBearer)
      (collectFields visit' sc' e.unplaced c outer branch isBearer)
  ownValue : ∀ e isBearer, IgnoresPlaces (ownValue visit sc e isBearer)
    (ownValue visit' sc' e.unplaced isBearer)
  collectItems : ∀ items c outer branch,
    IgnoresPlaces (collectItems visit sc items c outer branch)
      (collectItems visit' sc' (items.map Expr.unplaced) c outer branch)
  bearerClass : ∀ e, IgnoresPlaces (bearerClass visit sc e) (bearerClass visit' sc' e.unplaced)
  fillClass : ∀ c content isBearer, IgnoresPlaces (fillClass visit sc c content isBearer)
    (fillClass visit' sc' c content.unplaced isBearer)
  collectBranches : ∀ c index branches,
    IgnoresPlaces (collectBranches visit sc c index branches)
      (collectBranches visit' sc' c index (branches.map Expr.unplaced))
  groupValue : ∀ body hint, IgnoresPlaces (groupValue visit sc body hint)
    (groupValue visit' sc' body.unplaced hint)

theorem isUnit_unplaced {e : Expr} (h : e.IsUnit) : e.unplaced.IsUnit := by
  cases e with
  | optional info body => exact (Expr.isSimpleChain_unplaced (.optional info body)).trans h
  | repeated info body kind =>
    exact (Expr.isSimpleChain_unplaced (.repeated info body kind)).trans h
  | _ => exact h

/-- The walks ignore places, if finding the value of a rule does. -/
theorem walkIgnoresPlaces {visit visit' : RuleId → Build (Option Value)} {sc sc' : RuleScope}
    (hsc : sc.Unplaced sc') (hvisit : ∀ id, IgnoresPlaces (visit id) (visit' id)) :
    WalkIgnoresPlaces visit visit' sc sc' := by
  have hnew := newClass_ignoresPlaces hsc.classPrefix hsc.summaries
  have hunit {e : Expr} {c : ClassId} {outer : Cardinality} {branch : Nat} {isBearer : Bool}
      (hunit : e.IsUnit) (hskip : ¬(!isBearer && e.hasMarker .skip) = true)
      (hfield : ¬(!isBearer && e.isFieldElement) = true)
      (ih : IgnoresPlaces (Build.ownValue visit sc e isBearer)
        (Build.ownValue visit' sc' e.unplaced isBearer)) :
      IgnoresPlaces (Build.collectFields visit sc e c outer branch isBearer)
        (Build.collectFields visit' sc' e.unplaced c outer branch isBearer) := by
    rw [collectFields_unit hskip hfield hunit,
      collectFields_unit (by rwa [Expr.hasMarker_unplaced]) (by rwa [Expr.isFieldElement_unplaced])
        (isUnit_unplaced hunit)]
    exact ih.bind fun value => addField_ignoresPlaces c e value outer branch _
  rw [walkIgnoresPlaces_iff]
  apply elementValue.mutual_induct visit sc
  case case1 =>
    intro e allowed hskip
    rw [Build.elementValue, Build.elementValue, Expr.hasMarker_unplaced, if_pos hskip, if_pos hskip]
    exact .bind (.pure none) fun value => finishElement_ignoresPlaces hsc e value allowed
  case case2 =>
    intro e allowed hskip hclass ih
    rw [Build.elementValue, Build.elementValue, Expr.hasMarker_unplaced, if_neg hskip, if_neg hskip,
      Expr.hasMarker_unplaced, if_pos hclass, if_pos hclass]
    exact (ih.map _).bind fun value => finishElement_ignoresPlaces hsc e value allowed
  case case3 =>
    intro e allowed hskip hclass ih
    rw [Build.elementValue, Build.elementValue, Expr.hasMarker_unplaced, if_neg hskip, if_neg hskip,
      Expr.hasMarker_unplaced, if_neg hclass, if_neg hclass]
    exact ih.bind fun value => finishElement_ignoresPlaces hsc e value allowed
  case case4 =>
    intro info text
    have hfield := Expr.hasMarker_unplaced (.terminal info (.literal text)) .field
    rw [Expr.unplaced] at hfield ⊢
    rw [Build.structuralValue, Build.structuralValue, hfield]
    exact .pure _
  case case5 =>
    intro info p
    rw [Expr.unplaced, Build.structuralValue, Build.structuralValue]
    exact .pure _
  case case6 =>
    intro info name p hname
    have hname' := (hsc.symbols name).trans hname
    rw [Expr.unplaced, Build.structuralValue, Build.structuralValue, hname, hname']
    exact .pure _
  case case7 =>
    intro info name id hname
    have hname' := (hsc.symbols name).trans hname
    rw [Expr.unplaced, Build.structuralValue, Build.structuralValue, hname, hname']
    exact hvisit id
  case case8 =>
    intro info name hname
    have hname' := (hsc.symbols name).trans hname
    rw [Expr.unplaced, Build.structuralValue, Build.structuralValue, hname, hname']
    exact .pure none
  case case9 =>
    intro info body ih
    have htype := Expr.markerValue?_unplaced (.group info body) .typeOf
    rw [Expr.unplaced] at htype ⊢
    rw [Build.structuralValue, Build.structuralValue, htype]
    exact ih
  case case10 =>
    intro info items ih
    rw [Expr.unplaced, Expr.unplacedAll_eq_map, Build.structuralValue, Build.structuralValue]
    exact ih.bind fun values => singleValue_ignoresPlaces hsc info values
  case case11 =>
    intro info branches ih
    rw [Expr.unplaced, Expr.unplacedAll_eq_map, Build.structuralValue, Build.structuralValue]
    exact ih
  case case12 =>
    intro info body ih
    rw [Expr.unplaced, Build.structuralValue, Build.structuralValue]
    exact ih.bind fun value => .pure _
  case case13 =>
    intro info body kind ih
    rw [Expr.unplaced, Build.structuralValue, Build.structuralValue]
    exact ih.bind fun value => .pure _
  case case14 =>
    intro info branches hint hpolymorphic ih
    have hpolymorphic' := (hsc.isPolymorphic (.alternation info branches)).trans hpolymorphic
    rw [Expr.unplaced, Expr.unplacedAll_eq_map] at hpolymorphic'
    rw [Build.alternationValue, Build.alternationValue, if_pos hpolymorphic, if_pos hpolymorphic',
      hsc.derivedClassName]
    refine (hnew _ _ _ _ info.span).bind fun base => ?_
    exact (recordClass_ignoresPlaces info.id base).bind fun _ => (ih base).bind fun _ => .pure _
  case case15 =>
    intro info branches hint hpolymorphic ih
    have hpolymorphic' := hpolymorphic
    rw [← hsc.isPolymorphic, Expr.unplaced, Expr.unplacedAll_eq_map] at hpolymorphic'
    rw [Build.alternationValue, Build.alternationValue, if_neg hpolymorphic, if_neg hpolymorphic',
      hsc.derivedClassName]
    refine ih.bind fun values => .ite (fun _ => .pure none) fun _ => ?_
    refine (hnew _ _ _ _ info.span).bind fun c => ?_
    refine (recordClass_ignoresPlaces info.id c).bind fun _ => ?_
    rw [List.zip_map_left]
    exact (addVariants_ignoresPlaces c 0 (branches.zip values)).bind fun _ => .pure _
  case case16 =>
    rw [List.map_nil, Build.elementValues, Build.elementValues]
    exact .pure []
  case case17 =>
    intro e rest ih ihRest
    rw [List.map_cons, Build.elementValues, Build.elementValues]
    exact ih.bind fun value => ihRest.bind fun values => .pure _
  case case18 =>
    intro base index
    rw [List.map_nil, Build.polymorphicBranches, Build.polymorphicBranches]
    exact .pure ()
  case case19 =>
    intro base index branch rest hclass ihRest ih
    rw [List.map_cons, Build.polymorphicBranches, Build.polymorphicBranches, Expr.core_unplaced,
      Expr.hasMarker_unplaced, if_pos hclass, if_pos hclass, Expr.id_unplaced, Expr.id_unplaced,
      Expr.span_unplaced]
    refine ih.bind fun c => (setBase_ignoresPlaces c base branch.core.span).bind fun _ => ?_
    refine (finishElement_ignoresPlaces hsc branch.core _ false).bind fun value => ?_
    exact .guarded (recordValue_ignoresPlaces branch.id value) ihRest
  case case20 =>
    intro base index branch rest hclass c hreferenced ihRest ih
    rw [List.map_cons, Build.polymorphicBranches, Build.polymorphicBranches, Expr.core_unplaced,
      Expr.hasMarker_unplaced, if_neg hclass, if_neg hclass, hsc.referencedClass?, hreferenced,
      Expr.span_unplaced]
    refine (setBase_ignoresPlaces c base branch.span).bind fun _ => ?_
    exact ih.discard.bind fun _ => ihRest
  case case21 =>
    intro base index branch rest hclass hreferenced ihRest ih
    rw [List.map_cons, Build.polymorphicBranches, Build.polymorphicBranches, Expr.core_unplaced,
      Expr.hasMarker_unplaced, if_neg hclass, if_neg hclass, hsc.referencedClass?, hreferenced,
      Expr.id_unplaced, Expr.span_unplaced, branchTag_unplaced]
    refine .get_bind fun d => ?_
    have hsource : (d.unplaced.classAt base).sourceName = (d.classAt base).sourceName := by
      rw [Draft.classAt_unplaced]
      rfl
    rw [hsource]
    refine (hnew _ _ _ _ branch.span).bind fun c => ?_
    refine (setBase_ignoresPlaces c base branch.span).bind fun _ => ?_
    refine (recordClass_ignoresPlaces branch.id c).bind fun _ => ?_
    refine (recordValue_ignoresPlaces branch.id _).bind fun _ => ?_
    exact (ih c).bind fun _ => ihRest
  case case22 =>
    intro e c outer branch isBearer hskip
    rw [collectFields_skip hskip, collectFields_skip (by rwa [Expr.hasMarker_unplaced]),
      Expr.id_unplaced]
    exact recordValue_ignoresPlaces e.id none
  case case23 =>
    intro e c outer branch isBearer hskip hfield ih
    rw [collectFields_field hskip hfield, collectFields_field (by rwa [Expr.hasMarker_unplaced])
      (by rwa [Expr.isFieldElement_unplaced])]
    exact ih.bind fun value => addField_ignoresPlaces c e value outer branch true
  case case24 =>
    intro c outer branch isBearer info items hskip hfield ih
    have hskip' := hskip
    have hfield' := hfield
    rw [← Expr.hasMarker_unplaced, Expr.unplaced] at hskip'
    rw [← Expr.isFieldElement_unplaced, Expr.unplaced] at hfield'
    rw [Expr.unplaced, Build.collectFields, Build.collectFields, if_neg hskip, if_neg hskip',
      if_neg hfield, if_neg hfield', Expr.unplacedAll_eq_map]
    exact ih
  case case25 =>
    intro c outer branch isBearer info body hskip hfield ih
    have hskip' := hskip
    have hfield' := hfield
    rw [← Expr.hasMarker_unplaced, Expr.unplaced] at hskip'
    rw [← Expr.isFieldElement_unplaced, Expr.unplaced] at hfield'
    rw [Expr.unplaced, Build.collectFields, Build.collectFields, if_neg hskip, if_neg hskip',
      if_neg hfield, if_neg hfield']
    exact ih
  case case26 =>
    intro c outer branch isBearer info body hsimple hskip hfield ih
    exact hunit (e := .optional info body) hsimple hskip hfield ih
  case case27 =>
    intro c outer branch isBearer info body hsimple hskip hfield ih
    have hsimple' := hsimple
    have hskip' := hskip
    have hfield' := hfield
    rw [← Expr.isSimpleChain_unplaced, Expr.unplaced] at hsimple'
    rw [← Expr.hasMarker_unplaced, Expr.unplaced] at hskip'
    rw [← Expr.isFieldElement_unplaced, Expr.unplaced] at hfield'
    rw [Expr.unplaced, Build.collectFields, Build.collectFields, if_neg hskip, if_neg hskip',
      if_neg hfield, if_neg hfield', if_neg hsimple, if_neg hsimple']
    exact ih
  case case28 =>
    intro c outer branch isBearer info body kind hsimple hskip hfield ih
    exact hunit (e := .repeated info body kind) hsimple hskip hfield ih
  case case29 =>
    intro c outer branch isBearer info body kind hsimple hskip hfield ih
    have hsimple' := hsimple
    have hskip' := hskip
    have hfield' := hfield
    rw [← Expr.isSimpleChain_unplaced, Expr.unplaced] at hsimple'
    rw [← Expr.hasMarker_unplaced, Expr.unplaced] at hskip'
    rw [← Expr.isFieldElement_unplaced, Expr.unplaced] at hfield'
    rw [Expr.unplaced, Build.collectFields, Build.collectFields, if_neg hskip, if_neg hskip',
      if_neg hfield, if_neg hfield', if_neg hsimple, if_neg hsimple']
    exact ih
  case case30 =>
    intro c outer branch isBearer e hsequence hgroup hoptional hrepeated hskip hfield ih
    exact hunit (Expr.isUnit_of_other hsequence hgroup hoptional hrepeated) hskip hfield ih
  case case31 =>
    intro e ih
    rw [Build.ownValue, Build.ownValue]
    exact ih
  case case32 =>
    intro e isBearer hbearer ih
    rw [Build.ownValue, Build.ownValue, if_neg hbearer, if_neg hbearer]
    exact ih
  case case33 =>
    intro c outer branch
    rw [List.map_nil, Build.collectItems, Build.collectItems]
    exact .pure ()
  case case34 =>
    intro c outer branch e rest ih ihRest
    rw [List.map_cons, Build.collectItems, Build.collectItems]
    exact ih.bind fun _ => ihRest
  case case35 =>
    intro e ihBranches ihFill ihFill'
    have hcontent := Expr.classContent_unplaced e
    have hsame : sc'.isPolymorphic e.unplaced.classContent.1.core =
        sc.isPolymorphic e.classContent.1.core := by
      rw [hcontent, Expr.core_unplaced, hsc.isPolymorphic]
    by_cases hpolymorphic : sc.isPolymorphic e.classContent.1.core = true
    · obtain ⟨info, branches, hcore⟩ : ∃ info branches,
          e.classContent.1.core = .alternation info branches := by
        generalize e.classContent.1.core = core at hpolymorphic
        cases core with
        | alternation info branches => exact ⟨info, branches, rfl⟩
        | _ => cases hpolymorphic
      have hcore' : e.unplaced.classContent.1.core =
          .alternation info.unplaced (branches.map Expr.unplaced) := by
        rw [hcontent, Expr.core_unplaced, hcore, Expr.unplaced, Expr.unplacedAll_eq_map]
      rw [hpolymorphic, hcore'] at hsame
      rw [hcore] at hpolymorphic
      rw [bearerClass_of_polymorphic hcore hpolymorphic, bearerClass_of_polymorphic hcore' hsame]
      refine .get_bind fun d => ?_
      rw [Draft.nodeClasses_unplaced, Expr.id_unplaced, Expr.markerValue?_unplaced,
        Expr.span_unplaced]
      cases d.nodeClasses.get? e.id with
      | some c => exact .pure c
      | none =>
        refine (hnew _ _ _ _ e.span).bind fun base => ?_
        refine (recordClass_ignoresPlaces e.id base).bind fun _ => ?_
        refine (recordClass_ignoresPlaces info.id base).bind fun _ => ?_
        exact (ihBranches _ _ rfl info branches hcore base).bind fun _ => .pure base
    · rw [bearerClass_of_concrete hpolymorphic, bearerClass_of_concrete (by rwa [hsame])]
      refine .get_bind fun d => ?_
      rw [Draft.nodeClasses_unplaced, Expr.id_unplaced, Expr.markerValue?_unplaced,
        Expr.span_unplaced, hcontent]
      cases d.nodeClasses.get? e.id with
      | some c => exact .pure c
      | none =>
        refine (hnew _ _ _ _ e.span).bind fun c => ?_
        refine (recordClass_ignoresPlaces e.id c).bind fun _ => ?_
        exact (ihFill' _ _ rfl e c).bind fun _ => .pure c
  case case36 =>
    intro c content isBearer branches hbranches ih
    have hbranches' := Expr.classAlternatives?_unplaced content
    rw [hbranches, Option.map_some] at hbranches'
    rw [fillClass_of_branches hbranches, fillClass_of_branches hbranches', List.length_map]
    exact ih.bind fun _ => relaxPartial_ignoresPlaces c branches.length
  case case37 =>
    intro c content isBearer hbranches ih
    have hbranches' := Expr.classAlternatives?_unplaced content
    rw [hbranches, Option.map_none] at hbranches'
    rw [fillClass_of_none hbranches, fillClass_of_none hbranches']
    exact ih
  case case38 =>
    intro c index
    rw [List.map_nil, Build.collectBranches, Build.collectBranches]
    exact .pure ()
  case case39 =>
    intro c index e rest ih ihRest
    rw [List.map_cons, Build.collectBranches, Build.collectBranches]
    exact ih.bind fun _ => ihRest
  case case40 =>
    intro hint info branches ih
    rw [Expr.unplaced, Expr.unplacedAll_eq_map, Build.groupValue, Build.groupValue]
    exact ih.bind fun value => (recordValue_ignoresPlaces info.id value).bind fun _ => .pure value
  case case41 =>
    intro hint info inner hkeeps ih
    have hkeeps' := (Expr.keepsGroup_unplaced (.group info inner)).trans hkeeps
    rw [Expr.unplaced] at hkeeps' ih ⊢
    rw [Build.groupValue, Build.groupValue, if_pos hkeeps, if_pos hkeeps']
    exact ih
  case case42 =>
    intro hint info inner hkeeps ih
    have hkeeps' := hkeeps
    have htype := Expr.markerValue?_unplaced (.group info inner) .typeOf
    rw [← Expr.keepsGroup_unplaced, Expr.unplaced] at hkeeps'
    rw [Expr.unplaced] at htype ⊢
    rw [Build.groupValue, Build.groupValue, if_neg hkeeps, if_neg hkeeps', htype]
    exact ih.bind fun value => (recordValue_ignoresPlaces info.id value).bind fun _ => .pure value
  case case43 =>
    intro hint e halternation hgroup ih
    rw [groupValue_other halternation hgroup]
    cases e with
    | alternation info branches => exact (halternation info branches rfl).elim
    | group info inner => exact (hgroup info inner rfl).elim
    | _ =>
      rw [groupValue_other (by rintro _ _ ⟨⟩) (by rintro _ _ ⟨⟩)]
      exact ih

end Build
end AnnotatedGrammar
