import Mathlib
import AnnotatedGrammar.Proofs.Unplaced.Productions

/-!
# Production sets of models that differ in places only

Two models that are the same without places both have production sets, which are the same without
places, or both have the same fault.
-/

namespace AnnotatedGrammar

variable {m m' : GrammarModel} {symbols : SymbolTable} (preferences : LoweringPreferences)

namespace Lowering

/-! ## Rules -/

theorem ruleProductions_ignoresPlaces (sc : LoweringScope)
    (hsymbols : sc.model.symbols.Agrees symbols) (body : Expr) :
    IgnoresPlaces (ruleProductions sc body)
      (ruleProductions (sc.unplaced symbols) body.unplaced) := by
  obtain ⟨-, -, -, -, hflatten, -, -, halternatives, -, -, -, -, -, -, -, hbearer, hclass, -⟩ :=
    valued_ignoresPlaces hsymbols
  have hrole : (sc.unplaced symbols).rule.role = sc.rule.role := rfl
  unfold ruleProductions
  rw [hrole, Expr.core_unplaced, Expr.hasMarker_unplaced, Expr.hasMarker_unplaced, Expr.id_unplaced]
  cases sc.rule.role with
  | builds c => exact hclass _ c body false
  | polymorphic c | tagged c => exact halternatives _ c body.core
  | passthrough =>
    dsimp only
    split
    · exact (bearerClass_ignoresPlaces body).bind fun c => hbearer _ c body
    · refine (hflatten body #[]).bind ?_
      rintro ⟨terms, position⟩
      exact (forwarding_ignoresPlaces _ position body).bind fun action =>
        produce_ignoresPlaces _ terms.toList action body.id

theorem declareRules_ignoresPlaces (m : GrammarModel) (symbols : SymbolTable) :
    IgnoresPlaces (declareRules m) (declareRules (m.unplaced symbols)) := by
  have hrules : (m.unplaced symbols).rules.toList = m.rules.toList.map RuleModel.unplaced :=
    Array.toList_map
  unfold declareRules
  rw [hrules, List.forM_eq_forM, List.forM_map]
  exact .forM (fun rule => .discard (declare_ignoresPlaces _ _ _)) _

theorem lowerRules_ignoresPlaces (hsymbols : m.symbols.Agrees symbols) :
    IgnoresPlaces (lowerRules m preferences) (lowerRules (m.unplaced symbols) preferences) := by
  have hrules : (m.unplaced symbols).rules.toList = m.rules.toList.map RuleModel.unplaced :=
    Array.toList_map
  have hsources : (m.unplaced symbols).grammar.rules.toList =
      m.grammar.rules.toList.map Rule.unplaced := Array.toList_map
  unfold lowerRules
  rw [hrules, hsources, List.zip_map, List.forM_eq_forM, List.forM_map]
  refine .forM ?_ _
  rintro ⟨rule, source⟩
  refine .get_bind fun d => ?_
  exact ruleProductions_ignoresPlaces ⟨m, rule, _, _⟩ hsymbols source.body

theorem declareAccept_ignoresPlaces (m : GrammarModel) (symbols : SymbolTable) :
    IgnoresPlaces (declareAccept m) (declareAccept (m.unplaced symbols)) :=
  .get_bind fun _ => (declare_ignoresPlaces _ _ _).bind fun _ =>
    (produce_ignoresPlaces _ _ _ _).bind fun _ => .pure _

theorem lowerModel_ignoresPlaces (hsymbols : m.symbols.Agrees symbols) :
    IgnoresPlaces (lowerModel m preferences) (lowerModel (m.unplaced symbols) preferences) :=
  (declareRules_ignoresPlaces m symbols).bind fun _ =>
    (lowerRules_ignoresPlaces preferences hsymbols).bind fun _ =>
      declareAccept_ignoresPlaces m symbols

end Lowering

/-! ## Checking -/

namespace ProductionSet

/-- The production set without places. -/
def unplaced (set : ProductionSet) : ProductionSet :=
  { set with warnings := set.warnings.map NestedQuantifiers.unplaced }

theorem checkProduction_unplaced (set : ProductionSet) (m : GrammarModel) (symbols : SymbolTable)
    (p : Production) : set.unplaced.checkProduction (m.unplaced symbols) p =
      set.checkProduction m p := by
  have hclass (c : ClassId) :
      checkClass (m.unplaced symbols) c = ClassModel.unplaced <$> checkClass m c := by
    rw [checkClass, GrammarModel.class?_unplaced, checkClass]
    cases m.class? c <;> rfl
  unfold checkProduction
  cases p.action with
  | construct c steps =>
    dsimp only
    rw [hclass]
    cases checkClass m c <;> rfl
  | choose c index payload =>
    dsimp only
    rw [hclass]
    cases checkClass m c <;> rfl
  | _ => rfl

/-- The check does not look at places. -/
theorem check_unplaced (set : ProductionSet) (m : GrammarModel) (symbols : SymbolTable) :
    set.unplaced.check (m.unplaced symbols) = set.check m := by
  have hproduction : set.unplaced.checkProduction (m.unplaced symbols) = set.checkProduction m :=
    funext (set.checkProduction_unplaced m symbols)
  rw [check, hproduction, check]
  rfl

end ProductionSet

theorem ProductionDraft.finish_unplaced (d : ProductionDraft) (start : NonterminalId) :
    d.unplaced.finish start = (d.finish start).unplaced := by
  simp only [finish, unplaced, ProductionSet.unplaced, Array.toList_map]

/-! ## The production set of a model -/

theorem GrammarModel.lower_result (m : GrammarModel) :
    (m.lower preferences).result =
      match Lowering.lowerModel m preferences default with
      | .error fault _ => .error fault
      | .ok start d =>
        match (d.finish start).check m with
        | .error fault => .error fault
        | .ok () => .ok (d.finish start) := by
  unfold lower
  cases Lowering.lowerModel m preferences default with
  | error fault d => rfl
  | ok start d =>
    dsimp only
    cases (d.finish start).check m <;> rfl

/-- Lowering two models that differ in places only gives production sets that differ in places
only, or faults that differ in places only. -/
theorem GrammarModel.SameButPlaces.lower (h : m.SameButPlaces m') :
    (∃ set set', (m.lower preferences).result = .ok set ∧
      (m'.lower preferences).result = .ok set' ∧ set.unplaced = set'.unplaced) ∨
    ∃ fault fault', (m.lower preferences).result = .error fault ∧
      (m'.lower preferences).result = .error fault' ∧ fault.unplaced = fault'.unplaced := by
  obtain ⟨symbols, hsymbols, hsymbols', hmodels⟩ := h
  have hrun := Lowering.lowerModel_ignoresPlaces preferences hsymbols default
  have hrun' := Lowering.lowerModel_ignoresPlaces preferences hsymbols' default
  rw [← hmodels, hrun] at hrun'
  rw [lower_result, lower_result]
  cases hlowered : Lowering.lowerModel m preferences default with
  | error fault d =>
    cases hlowered' : Lowering.lowerModel m' preferences default with
    | ok start d' =>
      rw [hlowered, hlowered'] at hrun'
      cases hrun'
    | error fault' d' =>
      rw [hlowered, hlowered'] at hrun'
      exact .inr ⟨fault, fault', rfl, rfl, (EStateM.Result.error.inj hrun').1⟩
  | ok start d =>
    cases hlowered' : Lowering.lowerModel m' preferences default with
    | error fault' d' =>
      rw [hlowered, hlowered'] at hrun'
      cases hrun'
    | ok start' d' =>
      rw [hlowered, hlowered'] at hrun'
      obtain ⟨rfl, hdrafts⟩ := EStateM.Result.ok.inj hrun'
      have hsets : (d.finish start).unplaced = (d'.finish start).unplaced := by
        rw [← ProductionDraft.finish_unplaced, hdrafts, ProductionDraft.finish_unplaced]
      have hcheck : (d.finish start).check m = (d'.finish start).check m' := by
        rw [← ProductionSet.check_unplaced _ m symbols, hsets, hmodels,
          ProductionSet.check_unplaced]
      dsimp only
      rw [hcheck]
      cases (d'.finish start).check m' with
      | ok _ => exact .inl ⟨_, _, rfl, rfl, hsets⟩
      | error fault => exact .inr ⟨fault, fault, rfl, rfl, rfl⟩

end AnnotatedGrammar
