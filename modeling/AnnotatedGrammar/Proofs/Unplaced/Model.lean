import AnnotatedGrammar.Proofs.Unplaced.Rules

/-!
# Models of grammars that differ in places only

Two grammars that are the same without places both have models, which are the same without places,
or both have errors, which are the same without places.
-/

namespace AnnotatedGrammar

/-- The rule without its place. -/
def RuleModel.unplaced (rule : RuleModel) : RuleModel := { rule with span := default }

/-- The model without places, with a table of names that knows no places either. -/
def GrammarModel.unplaced (m : GrammarModel) (symbols : SymbolTable) : GrammarModel :=
  { m with
    grammar := m.grammar.unplaced
    symbols := symbols
    rules := m.rules.map RuleModel.unplaced
    classes := m.classes.map ClassModel.unplaced }

namespace DraftedModel

/-- The finished draft without places, with a table of names that knows no places either. -/
def unplaced (drafted : DraftedModel) (symbols : SymbolTable) : DraftedModel :=
  { drafted with
    symbols := symbols
    draft := drafted.draft.unplaced }

theorem ruleModels_unplaced (drafted : DraftedModel) (symbols : SymbolTable) (id : RuleId)
    (rules : List Rule) : (drafted.ruleModels id rules).map RuleModel.unplaced =
      (drafted.unplaced symbols).ruleModels id (rules.map Rule.unplaced) := by
  induction rules generalizing id with
  | nil => rfl
  | cons rule rest ih =>
    rw [ruleModels, List.map_cons, ih]
    rfl

end DraftedModel

/-- The two models differ in places only. -/
def GrammarModel.SameButPlaces (m m' : GrammarModel) : Prop :=
  ∃ symbols, m.symbols.Agrees symbols ∧ m'.symbols.Agrees symbols ∧
    m.unplaced symbols = m'.unplaced symbols

namespace Grammar

variable {g g' : Grammar} (preferences : ModelPreferences) (overrides : Overrides)

theorem scope_unplaced (g : Grammar) :
    (g.scope preferences overrides).Unplaced (g.unplaced.scope preferences overrides) where
  symbols := (SymbolTable.ofGrammar_unplaced g preferences.builtinPatterns).1
  rules := rfl
  paths := g.paths_unplaced
  classPrefix := congrArg Settings.classPrefix (Settings.ofDirectives_unplaced g.directives
    (SymbolTable.ofGrammar_unplaced g preferences.builtinPatterns).1 overrides).1
  summaries := rfl

theorem firstDraft_unplaced (g : Grammar) :
    (g.unplaced.firstDraft preferences overrides).unplaced =
      (g.firstDraft preferences overrides).unplaced := by
  obtain ⟨hsymbols, hnames⟩ := SymbolTable.ofGrammar_unplaced g preferences.builtinPatterns
  have hdirectives := (Settings.ofDirectives_unplaced g.directives hsymbols overrides).2
  have hrules := g.ruleErrors_unplaced hsymbols
  have hsize : g.unplaced.rules.size = g.rules.size := Array.size_map
  rw [firstDraft, firstDraft, Draft.unplaced_empty, Draft.unplaced_empty, hsize]
  congr 1
  rw [List.map_append, List.map_append, hnames, hrules, SemanticError.map_unplaced_map_unplaced,
    List.map_append, List.map_append]
  exact congrArg (_ ++ · ++ _) hdirectives

/-- What is built of two grammars that differ in places only differs in places only. -/
theorem draft_sameButPlaces (h : g.unplaced = g'.unplaced) :
    (g.draft preferences overrides).roles = (g'.draft preferences overrides).roles ∧
      (g.draft preferences overrides).draft.unplaced =
        (g'.draft preferences overrides).draft.unplaced := by
  have hbuild (g : Grammar) := build_ignoresPlaces (g.scope_unplaced preferences overrides)
    (g.firstDraft preferences overrides)
  have hg := hbuild g
  have hg' := hbuild g'
  rw [draft_eq, ← firstDraft_unplaced] at hg hg'
  rw [← h] at hg'
  exact Prod.mk.inj (hg.symm.trans hg')

theorem scope_symbols_sameButPlaces (h : g.unplaced = g'.unplaced) :
    ∃ symbols, (g.scope preferences overrides).symbols.Agrees symbols ∧
      (g'.scope preferences overrides).symbols.Agrees symbols :=
  ⟨_, (g.scope_unplaced preferences overrides).symbols,
    h ▸ (g'.scope_unplaced preferences overrides).symbols⟩

theorem limitErrors_unplaced {errors errors' : List SemanticError}
    (h : errors.map SemanticError.unplaced = errors'.map SemanticError.unplaced) :
    (limitErrors errors).map SemanticError.unplaced =
      (limitErrors errors').map SemanticError.unplaced := by
  have hlength : errors.length = errors'.length := by
    simpa using congrArg List.length h
  unfold limitErrors
  rw [hlength]
  split
  · rw [List.map_append, List.map_append, List.map_take, List.map_take, h]
    rfl
  · exact h

theorem settings_sameButPlaces (h : g.unplaced = g'.unplaced) :
    (g.draft preferences overrides).settings = (g'.draft preferences overrides).settings := by
  have hsettings (g : Grammar) := (Settings.ofDirectives_unplaced g.directives
    (SymbolTable.ofGrammar_unplaced g preferences.builtinPatterns).1 overrides).1
  have hdirectives : g.directives.map Directive.unplaced = g'.directives.map Directive.unplaced :=
    congrArg directives h
  refine (hsettings g).symm.trans (Eq.trans ?_ (hsettings g'))
  rw [h, hdirectives]

theorem model_unplaced (drafted : DraftedModel) (g : Grammar) (symbols : SymbolTable) :
    (drafted.model g).unplaced symbols = (drafted.unplaced symbols).model g.unplaced := by
  have hrules : ((drafted.ruleModels 0 g.rules.toList).toArray).map RuleModel.unplaced =
      ((drafted.unplaced symbols).ruleModels 0 g.unplaced.rules.toList).toArray := by
    rw [List.map_toArray, drafted.ruleModels_unplaced symbols, toList_rules_unplaced]
  have hclasses : (drafted.draft.classes.map (·.model)).map ClassModel.unplaced =
      drafted.draft.unplaced.classes.map (·.model) := by
    rw [Draft.classes_unplaced, Array.map_map, Array.map_map]
    rfl
  simp only [GrammarModel.unplaced, DraftedModel.model, hrules, hclasses, paths_unplaced]
  rfl

/-- The models of drafts that differ in places only differ in places only. -/
theorem model_sameButPlaces (h : g.unplaced = g'.unplaced) :
    ((g.draft preferences overrides).model g).SameButPlaces
      ((g'.draft preferences overrides).model g') := by
  obtain ⟨hroles, hdraft⟩ := draft_sameButPlaces preferences overrides h
  obtain ⟨symbols, hsymbols, hsymbols'⟩ := scope_symbols_sameButPlaces preferences overrides h
  have hsettings := settings_sameButPlaces preferences overrides h
  refine ⟨symbols, hsymbols, hsymbols', ?_⟩
  rw [model_unplaced, model_unplaced, h]
  simp only [DraftedModel.unplaced, hroles, hdraft, hsettings]

theorem buildModel_result (hrules : ¬g.rules.isEmpty = true) :
    (g.buildModel preferences overrides).result =
      match limitErrors (g.draft preferences overrides).draft.errors.toList with
      | [] => .ok ((g.draft preferences overrides).model g)
      | errors => .error errors := by
  rw [buildModel, if_neg hrules]
  dsimp only
  cases limitErrors (g.draft preferences overrides).draft.errors.toList <;> rfl

/-- Building the models of two grammars that differ in places only gives models that differ in
places only, or errors that differ in places only. -/
theorem buildModel_sameButPlaces (h : g.unplaced = g'.unplaced) :
    (∃ m m', (g.buildModel preferences overrides).result = .ok m ∧
      (g'.buildModel preferences overrides).result = .ok m' ∧ m.SameButPlaces m') ∨
    ∃ errors errors', (g.buildModel preferences overrides).result = .error errors ∧
      (g'.buildModel preferences overrides).result = .error errors' ∧
        errors.map SemanticError.unplaced = errors'.map SemanticError.unplaced := by
  have hempty : g'.rules.isEmpty = g.rules.isEmpty := by
    have hsize : g.rules.size = g'.rules.size := by
      simpa [unplaced] using congrArg (fun g : Grammar => g.rules.size) h
    rw [Array.isEmpty, Array.isEmpty, hsize]
  by_cases hrules : g.rules.isEmpty = true
  · have hnames (g : Grammar) := (SymbolTable.ofGrammar_unplaced g preferences.builtinPatterns).2
    have hsame := (hnames g).symm.trans ((congrArg (fun g : Grammar =>
      (SymbolTable.ofGrammar g preferences.builtinPatterns).2.map SemanticError.unplaced) h).trans
        (hnames g'))
    rw [buildModel, if_pos hrules, buildModel, if_pos (hempty.trans hrules)]
    refine .inr ⟨_, _, rfl, rfl, limitErrors_unplaced ?_⟩
    rw [List.map_append, List.map_append, hsame]
  · have herrors : (g.draft preferences overrides).draft.errors.toList.map SemanticError.unplaced =
        (g'.draft preferences overrides).draft.errors.toList.map SemanticError.unplaced := by
      have hdraft := (draft_sameButPlaces preferences overrides h).2
      simpa [Draft.unplaced] using congrArg (fun d : Draft => d.errors.toList) hdraft
    have hlimited := limitErrors_unplaced herrors
    rw [buildModel_result preferences overrides hrules,
      buildModel_result preferences overrides (by rwa [hempty])]
    generalize limitErrors (g.draft preferences overrides).draft.errors.toList = errors at hlimited
    generalize limitErrors (g'.draft preferences overrides).draft.errors.toList = errors'
      at hlimited
    cases errors with
    | nil =>
      obtain rfl := List.map_eq_nil_iff.mp hlimited.symm
      exact .inl ⟨_, _, rfl, rfl, model_sameButPlaces preferences overrides h⟩
    | cons error rest =>
      cases errors' with
      | nil => cases hlimited
      | cons error' rest' => exact .inr ⟨_, _, rfl, rfl, hlimited⟩

end Grammar
end AnnotatedGrammar
