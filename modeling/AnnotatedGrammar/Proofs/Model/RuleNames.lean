import AnnotatedGrammar.Proofs.Analysis.Conclusion

/-!
# Names of rules

A grammar that has a model names all its rules differently, and every rule of the model has the
nonterminal that its name asks for.
-/

namespace AnnotatedGrammar

namespace SymbolTable

theorem contains_declareRule {t : SymbolTable} {id : RuleId} {rule : Rule} {name : String}
    {errors : List SemanticError} (h : (declareRule (t, errors) id rule).1.contains name = false) :
    t.contains name = false ∧ (t.contains rule.name = false → name ≠ rule.name) := by
  unfold declareRule at h
  dsimp only at h
  split at h
  · rename_i existing hexisting
    refine ⟨h, fun hnone => ?_⟩
    simp [contains, hexisting] at hnone
  · simp only [contains, entry?, Std.TreeMap.getElem?_insert] at h ⊢
    split at h
    · cases h
    · rename_i hne
      refine ⟨h, fun _ heq => hne ?_⟩
      simp [heq]

/-- Rules that are declared without an error have different names, none of which was declared
before. -/
theorem nodup_of_declareRules {state : SymbolTable × List SemanticError} {id : RuleId}
    {rules : List Rule} (h : (declareRules state id rules).2 = []) :
    state.2 = [] ∧ (rules.map (·.name)).Nodup ∧
      ∀ rule ∈ rules, state.1.contains rule.name = false := by
  induction rules generalizing state id with
  | nil => exact ⟨h, List.nodup_nil, by simp⟩
  | cons rule rest ih =>
    obtain ⟨t, errors⟩ := state
    obtain ⟨herrors, hnodup, hnew⟩ := ih h
    have hrule : t.contains rule.name = false ∧ errors = [] := by
      unfold declareRule at herrors
      dsimp only at herrors
      split at herrors
      · cases herrors
      · exact ⟨by rw [contains, ‹t.entry? rule.name = none›]; rfl, herrors⟩
    refine ⟨hrule.2, List.nodup_cons.mpr ⟨fun hmem => ?_, hnodup⟩,
      List.forall_mem_cons.mpr ⟨hrule.1, fun other hother =>
        (contains_declareRule (hnew other hother)).1⟩⟩
    obtain ⟨other, hother, hname⟩ := List.mem_map.mp hmem
    exact (contains_declareRule (hnew other hother)).2 hrule.1 hname

theorem nodup_of_ofGrammar {grammar : Grammar} {builtins : Bool}
    (h : (ofGrammar grammar builtins).2 = []) : (grammar.rules.toList.map (·.name)).Nodup := by
  unfold ofGrammar at h
  dsimp only at h
  rw [List.reverse_eq_nil_iff] at h
  exact (nodup_of_declareRules h).2.1

end SymbolTable

theorem DraftedModel.map_symbol_ruleModels (drafted : DraftedModel) (id : RuleId)
    (rules : List Rule) : (drafted.ruleModels id rules).map (·.symbol) =
      rules.map fun rule => Naming.nonterminalSymbol rule.name := by
  induction rules generalizing id with
  | nil => rfl
  | cons rule rest ih => rw [ruleModels, List.map_cons, List.map_cons, ih]

theorem DraftedModel.map_name_ruleModels (drafted : DraftedModel) (id : RuleId)
    (rules : List Rule) : (drafted.ruleModels id rules).map (·.name) = rules.map (·.name) := by
  induction rules generalizing id with
  | nil => rfl
  | cons rule rest ih => rw [ruleModels, List.map_cons, List.map_cons, ih]

namespace GenerationOptions

variable {o : GenerationOptions} {source : List Char} {m : GrammarModel}

theorem ruleNames_nodup (h : (o.frontEnd source).result = .ok m) :
    (m.grammar.rules.toList.map (·.name)).Nodup := by
  obtain ⟨tokens, -, grammar, hgrammar, hmodel⟩ := frontEnd_eq_ok.mp h
  obtain ⟨-, herrors, rfl⟩ := Grammar.buildModel_eq_ok hmodel
  obtain ⟨assigned, analyzed, hanalyzed⟩ :=
    Grammar.exists_analyzed (TokenStream.isParsed_of_parse hgrammar) herrors
  have hstarted := hanalyzed.started
  simp only [Grammar.firstDraft, Draft.empty, List.toArray_eq_iff, List.append_eq_nil_iff]
    at hstarted
  exact SymbolTable.nodup_of_ofGrammar hstarted.1.1

theorem map_symbol_rules (h : (o.frontEnd source).result = .ok m) :
    m.rules.toList.map (·.symbol) =
      m.grammar.rules.toList.map fun rule => Naming.nonterminalSymbol rule.name := by
  obtain ⟨tokens, -, grammar, -, hmodel⟩ := frontEnd_eq_ok.mp h
  obtain ⟨-, -, rfl⟩ := Grammar.buildModel_eq_ok hmodel
  exact DraftedModel.map_symbol_ruleModels _ 0 _

theorem map_name_rules (h : (o.frontEnd source).result = .ok m) :
    m.rules.toList.map (·.name) = m.grammar.rules.toList.map (·.name) := by
  obtain ⟨tokens, -, grammar, -, hmodel⟩ := frontEnd_eq_ok.mp h
  obtain ⟨-, -, rfl⟩ := Grammar.buildModel_eq_ok hmodel
  exact DraftedModel.map_name_ruleModels _ 0 _

end GenerationOptions

end AnnotatedGrammar
