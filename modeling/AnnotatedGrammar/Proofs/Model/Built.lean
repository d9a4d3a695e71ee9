import AnnotatedGrammar.Generation

/-!
# Accepted grammars

What the front end accepts: a text that is scanned and parsed without an error, and of which a model
was built. The rules of a model are those of the grammar in the same order, the names of rules stand
for rules, and the start rule is one of them.
-/

namespace AnnotatedGrammar

namespace SymbolTable

/-- Every rule that a name stands for has an index below a bound. -/
def NamesBelow (t : SymbolTable) (bound : RuleId) : Prop :=
  ∀ name id, t.resolve? name = some (.rule id) → id < bound

variable {t : SymbolTable} {bound : RuleId}

theorem resolve?_insert (t : SymbolTable) (name other : String) (entry : SymbolEntry)
    (count : Nat) : (⟨t.entries.insert name entry, count⟩ : SymbolTable).resolve? other =
      if name = other then some entry.symbol else t.resolve? other := by
  unfold resolve? entry?
  rw [Std.TreeMap.getElem?_insert]
  by_cases h : name = other <;> simp [h]

theorem NamesBelow.mono {bound' : RuleId} (h : t.NamesBelow bound) (hle : bound ≤ bound') :
    t.NamesBelow bound' :=
  fun name id hid => Nat.lt_of_lt_of_le (h name id hid) hle

theorem NamesBelow.declareRule (h : t.NamesBelow bound) (errors : List SemanticError)
    (rule : Rule) : (SymbolTable.declareRule (t, errors) bound rule).1.NamesBelow (bound + 1) := by
  unfold SymbolTable.declareRule
  dsimp only
  split
  · exact h.mono (Nat.le_succ bound)
  · intro name id hid
    rw [resolve?_insert] at hid
    split at hid
    · cases hid
      exact Nat.lt_succ_self bound
    · exact Nat.lt_succ_of_lt (h name id hid)

theorem NamesBelow.declareRules {state : SymbolTable × List SemanticError}
    (h : state.1.NamesBelow bound) (rules : List Rule) :
    (SymbolTable.declareRules state bound rules).1.NamesBelow (bound + rules.length) := by
  induction rules generalizing state bound with
  | nil => exact h
  | cons rule rest ih =>
    have hrest := ih (h.declareRule state.2 rule)
    rw [Nat.add_assoc, Nat.add_comm 1] at hrest
    exact hrest

theorem NamesBelow.declareBuiltin (h : t.NamesBelow bound) (p : Pattern) :
    (SymbolTable.declareBuiltin t p).NamesBelow bound := by
  unfold SymbolTable.declareBuiltin
  split
  · exact h
  · intro name id hid
    rw [resolve?_insert] at hid
    split at hid
    · cases hid
    · exact h name id hid

theorem namesBelow_ofGrammar (grammar : Grammar) (builtins : Bool) :
    (ofGrammar grammar builtins).1.NamesBelow grammar.rules.size := by
  have hrules (errors : List SemanticError) :
      (SymbolTable.declareRules (⟨∅, 0⟩, errors) 0 grammar.rules.toList).1.NamesBelow
        grammar.rules.size := by
    have hempty : (⟨∅, 0⟩ : SymbolTable).NamesBelow 0 := by
      intro name id hid
      simp [resolve?, entry?] at hid
    have hall : (SymbolTable.declareRules (⟨∅, 0⟩, errors) 0 grammar.rules.toList).1.NamesBelow _ :=
      NamesBelow.declareRules hempty _
    simpa using hall
  have hbuiltins (patterns : List Pattern) (t : SymbolTable)
      (h : t.NamesBelow grammar.rules.size) :
      (patterns.foldl SymbolTable.declareBuiltin t).NamesBelow grammar.rules.size := by
    induction patterns generalizing t with
    | nil => exact h
    | cons p rest ih => exact ih _ (h.declareBuiltin p)
  unfold ofGrammar
  dsimp only
  split
  · exact hbuiltins _ _ (hrules _)
  · exact hrules _

end SymbolTable

theorem Settings.start_lt (directives : List Directive) {symbols : SymbolTable}
    (overrides : Overrides) {bound : RuleId} (hnames : symbols.NamesBelow bound)
    (hpos : 0 < bound) : (Settings.ofDirectives directives symbols overrides).1.start < bound := by
  unfold Settings.ofDirectives
  dsimp only
  split
  · exact hpos
  · split
    · rename_i id hid
      unfold SymbolTable.ruleId? at hid
      split at hid
      · cases hid
        exact hnames _ _ ‹_›
      · cases hid
    · exact hpos

namespace DraftedModel

theorem ruleModels_length (drafted : DraftedModel) (id : RuleId) (rules : List Rule) :
    (drafted.ruleModels id rules).length = rules.length := by
  induction rules generalizing id with
  | nil => rfl
  | cons rule rest ih => simp [ruleModels, ih]

theorem ruleModels_id (drafted : DraftedModel) (first : RuleId) (rules : List Rule) (i : Nat)
    (h : i < (drafted.ruleModels first rules).length) :
    (drafted.ruleModels first rules)[i].id = first + i := by
  induction rules generalizing first i with
  | nil => exact absurd h (Nat.not_lt_zero i)
  | cons rule rest ih =>
    cases i with
    | zero => rfl
    | succ i =>
      simp only [ruleModels, List.getElem_cons_succ]
      rw [ih]
      exact Nat.add_right_comm first 1 i

end DraftedModel

namespace GrammarModel

/-- The rules of a model are numbered like those of its grammar, and what refers to a rule refers to
one of them. -/
structure Numbered (m : GrammarModel) : Prop where
  rules_size : m.rules.size = m.grammar.rules.size
  rule_id : ∀ (i : Nat) (h : i < m.rules.size), m.rules[i].id = i
  names : m.symbols.NamesBelow m.rules.size
  start_lt : m.start < m.rules.size

end GrammarModel

namespace Grammar

variable {grammar : Grammar} {preferences : ModelPreferences} {overrides : Overrides}
  {m : GrammarModel}

theorem limitErrors_eq_nil {errors : List SemanticError} :
    limitErrors errors = [] ↔ errors = [] := by
  unfold limitErrors
  split
  · rename_i hmany
    have hsome : errors ≠ [] := by
      rintro rfl
      exact absurd hmany (Nat.not_lt_zero _)
    simp [hsome]
  · rfl

theorem mem_of_mem_limitErrors {errors : List SemanticError} {e : SemanticError}
    (h : e ∈ limitErrors errors) : e ∈ errors ∨ e.value = .tooManyErrors := by
  unfold limitErrors at h
  split at h
  · rcases List.mem_append.mp h with h | h
    · exact .inl (List.mem_of_mem_take h)
    · exact .inr (congrArg Located.value (List.mem_singleton.mp h))
  · exact .inl h

/-- The first error is never cut off. -/
theorem head_mem_limitErrors (e : SemanticError) (errors : List SemanticError) :
    e ∈ limitErrors (e :: errors) := by
  unfold limitErrors
  split
  · exact List.mem_append_left _ List.mem_cons_self
  · exact List.mem_cons_self

/-- A model is that of a draft without errors. -/
theorem buildModel_eq_ok (h : (grammar.buildModel preferences overrides).result = .ok m) :
    grammar.rules.size ≠ 0 ∧ (grammar.draft preferences overrides).draft.errors = #[] ∧
      m = (grammar.draft preferences overrides).model grammar := by
  unfold buildModel at h
  split at h
  · simp at h
  · rename_i hrules
    dsimp only at h
    split at h
    · rename_i herrors
      rw [limitErrors_eq_nil] at herrors
      have hm : (grammar.draft preferences overrides).model grammar = m := by simpa using h
      exact ⟨by simpa [Array.isEmpty_iff] using hrules, by simpa using herrors, hm.symm⟩
    · simp at h

theorem buildModel_numbered (h : (grammar.buildModel preferences overrides).result = .ok m) :
    m.Numbered := by
  obtain ⟨hsize, -, rfl⟩ := buildModel_eq_ok h
  have hrules : ((grammar.draft preferences overrides).model grammar).rules.size =
      grammar.rules.size := by
    simp [DraftedModel.model, DraftedModel.ruleModels_length]
  have hnames := SymbolTable.namesBelow_ofGrammar grammar preferences.builtinPatterns
  refine ⟨hrules, fun i hi => ?_, ?_, ?_⟩
  · simp [DraftedModel.model, DraftedModel.ruleModels_id]
  · rw [hrules]
    exact hnames
  · rw [hrules]
    exact Settings.start_lt _ overrides hnames (Nat.pos_of_ne_zero hsize)

end Grammar

namespace GenerationOptions

/-- Everything up to the model of a grammar text. -/
def frontEnd (o : GenerationOptions) (source : List Char) : Outcome GrammarModel := do
  let tokens ← o.scan source
  let grammar ← o.parse tokens
  o.model grammar

end GenerationOptions

namespace Outcome

variable {α β ε : Type}

@[simp] theorem bind_result_eq_ok {x : Outcome α} {f : α → Outcome β} {b : β} :
    (x >>= f).result = .ok b ↔ ∃ a, x.result = .ok a ∧ (f a).result = .ok b := by
  change (Outcome.bind x f).result = .ok b ↔ _
  unfold Outcome.bind
  cases hx : x.result <;> simp

theorem exists_of_isOk {x : Outcome α} (h : x.result.isOk = true) : ∃ a, x.result = .ok a := by
  cases hx : x.result with
  | ok a => exact ⟨a, rfl⟩
  | error ds =>
    rw [hx] at h
    cases h

theorem exists_of_map {x : Outcome α} (f : α → β) {b : β}
    (h : x.result.toOption.map f = some b) : ∃ a, x.result = .ok a ∧ f a = b := by
  cases hx : x.result with
  | error diagnostics =>
    rw [hx] at h
    cases h
  | ok a =>
    rw [hx] at h
    exact ⟨a, rfl, Option.some.inj h⟩

@[simp] theorem ofStage_result_eq_ok {diagnostics : ε → List Diagnostic} {result : Except ε α}
    {entries : List Log.Entry} {a : α} :
    (ofStage diagnostics result entries).result = .ok a ↔ result = .ok a := by
  unfold ofStage
  cases result <;> simp

end Outcome

namespace GenerationOptions

variable {o : GenerationOptions} {source : List Char} {m : GrammarModel}

theorem frontEnd_eq_ok :
    (o.frontEnd source).result = .ok m ↔
      ∃ tokens, (Scan.ofText source).result = .ok tokens ∧
        ∃ grammar, ((TokenStream.ofTokens tokens).parse o.preferences.parsing).result =
          .ok grammar ∧ (grammar.buildModel o.preferences.model o.overrides).result = .ok m := by
  simp only [frontEnd, scan, parse, model, Outcome.bind_result_eq_ok,
    Outcome.ofStage_result_eq_ok]

theorem frontEnd_numbered (h : (o.frontEnd source).result = .ok m) : m.Numbered := by
  obtain ⟨_, _, _, _, hbuild⟩ := frontEnd_eq_ok.mp h
  exact Grammar.buildModel_numbered hbuild

end GenerationOptions
end AnnotatedGrammar
