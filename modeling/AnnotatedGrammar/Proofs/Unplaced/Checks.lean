import AnnotatedGrammar.Proofs.Model.Built
import AnnotatedGrammar.Proofs.Unplaced.Tree

/-!
# Checks without places

What the checks before the model find in a grammar without places is what they find in the grammar,
apart from the places. Names stand for the same things.
-/

namespace AnnotatedGrammar

/-- The fault without places. -/
def SemanticFault.unplaced : SemanticFault → SemanticFault
  | duplicateRule name _ => duplicateRule name default
  | fault => fault

/-- The error without places, those in its advice included. -/
def SemanticError.unplaced (e : SemanticError) : SemanticError := ⟨e.value.unplaced, default⟩

@[simp] theorem SemanticFault.message_unplaced (fault : SemanticFault) :
    fault.unplaced.message = fault.message := by
  cases fault <;> rfl

@[simp] theorem SemanticFault.code_unplaced (fault : SemanticFault) :
    fault.unplaced.code = fault.code := by
  cases fault <;> rfl

@[simp] theorem SemanticError.unplaced_unplaced (e : SemanticError) :
    SemanticError.unplaced (SemanticError.unplaced e) = SemanticError.unplaced e := by
  obtain ⟨fault, span⟩ := e
  cases fault <;> rfl

theorem SemanticError.map_unplaced_map_unplaced (errors : List SemanticError) :
    (errors.map SemanticError.unplaced).map SemanticError.unplaced =
      errors.map SemanticError.unplaced := by
  rw [List.map_map]
  exact List.map_congr_left fun e _ => e.unplaced_unplaced

/-! ## Names -/

namespace SymbolTable

/-- In both tables every name stands for the same thing. -/
def Agrees (t t' : SymbolTable) : Prop := ∀ name, t'.resolve? name = t.resolve? name

variable {t t' : SymbolTable}

theorem contains_eq (t : SymbolTable) (name : String) :
    t.contains name = (t.resolve? name).isSome := by
  rw [contains, resolve?, Option.isSome_map]

theorem Agrees.contains (h : t.Agrees t') (name : String) : t'.contains name = t.contains name := by
  rw [contains_eq, h name, contains_eq]

theorem Agrees.ruleId? (h : t.Agrees t') (name : String) : t'.ruleId? name = t.ruleId? name := by
  rw [SymbolTable.ruleId?, h name, SymbolTable.ruleId?]

theorem Agrees.insert (h : t.Agrees t') (name : String) {entry entry' : SymbolEntry}
    (hentry : entry'.symbol = entry.symbol) (count count' : Nat) :
    Agrees ⟨t.entries.insert name entry, count⟩ ⟨t'.entries.insert name entry', count'⟩ := by
  intro other
  rw [resolve?_insert, resolve?_insert, hentry, h other]

/-- Two tables agree, and the errors found with them are the same apart from places. -/
def DeclaredAlike (state state' : SymbolTable × List SemanticError) : Prop :=
  state.1.Agrees state'.1 ∧
    state'.2.map SemanticError.unplaced = state.2.map SemanticError.unplaced

theorem DeclaredAlike.declareRule {state state' : SymbolTable × List SemanticError}
    (h : DeclaredAlike state state') (id : RuleId) (rule : Rule) :
    DeclaredAlike (SymbolTable.declareRule state id rule)
      (SymbolTable.declareRule state' id rule.unplaced) := by
  obtain ⟨t, errors⟩ := state
  obtain ⟨t', errors'⟩ := state'
  obtain ⟨hagrees, herrors⟩ := h
  have hdeclared : (t'.entry? rule.name).isSome = (t.entry? rule.name).isSome :=
    hagrees.contains rule.name
  unfold SymbolTable.declareRule
  dsimp only [Rule.name_unplaced]
  cases hentry : t.entry? rule.name with
  | none =>
    rw [hentry] at hdeclared
    rw [Option.isNone_iff_eq_none.mp (Option.isSome_eq_false_iff.mp hdeclared)]
    refine ⟨Agrees.insert hagrees rule.name ?_ _ _, herrors⟩
    rfl
  | some existing =>
    rw [hentry] at hdeclared
    obtain ⟨existing', hentry'⟩ := Option.isSome_iff_exists.mp hdeclared
    rw [hentry']
    exact ⟨hagrees, congrArg
      ((⟨.duplicateRule rule.name default, default⟩ : SemanticError) :: ·) herrors⟩

theorem DeclaredAlike.declareRules {state state' : SymbolTable × List SemanticError}
    (h : DeclaredAlike state state') (id : RuleId) (rules : List Rule) :
    DeclaredAlike (SymbolTable.declareRules state id rules)
      (SymbolTable.declareRules state' id (rules.map Rule.unplaced)) := by
  induction rules generalizing state state' id with
  | nil => exact h
  | cons rule rest ih => exact ih (h.declareRule id rule) (id + 1)

theorem Agrees.declareBuiltin (h : t.Agrees t') (p : Pattern) :
    (SymbolTable.declareBuiltin t p).Agrees (SymbolTable.declareBuiltin t' p) := by
  rw [SymbolTable.declareBuiltin, SymbolTable.declareBuiltin, h.contains]
  split
  · exact h
  · exact h.insert p.builtinName rfl _ _

theorem Agrees.declareBuiltins (h : t.Agrees t') (patterns : List Pattern) :
    (patterns.foldl SymbolTable.declareBuiltin t).Agrees
      (patterns.foldl SymbolTable.declareBuiltin t') := by
  induction patterns generalizing t t' with
  | nil => exact h
  | cons p rest ih => exact ih (h.declareBuiltin p)

/-- What names stand for, and what is wrong with the names of rules, does not depend on places. -/
theorem ofGrammar_unplaced (grammar : Grammar) (builtins : Bool) :
    DeclaredAlike (ofGrammar grammar builtins) (ofGrammar grammar.unplaced builtins) := by
  have hrules (tooMany tooMany' : List SemanticError)
      (h : tooMany'.map SemanticError.unplaced = tooMany.map SemanticError.unplaced) :
      DeclaredAlike (declareRules (⟨∅, 0⟩, tooMany) 0 grammar.rules.toList)
        (declareRules (⟨∅, 0⟩, tooMany') 0 (grammar.rules.toList.map Rule.unplaced)) :=
    DeclaredAlike.declareRules (show DeclaredAlike (⟨∅, 0⟩, tooMany) (⟨∅, 0⟩, tooMany') from
      ⟨fun _ => rfl, h⟩) 0 grammar.rules.toList
  have hbuiltins {state state' : SymbolTable × List SemanticError}
      (h : DeclaredAlike state state') : DeclaredAlike
        (if builtins then Pattern.all.foldl declareBuiltin state.1 else state.1, state.2.reverse)
        (if builtins then Pattern.all.foldl declareBuiltin state'.1 else state'.1,
          state'.2.reverse) := by
    refine ⟨?_, by rw [List.map_reverse, List.map_reverse]; exact congrArg List.reverse h.2⟩
    cases builtins with
    | false => exact h.1
    | true => exact h.1.declareBuiltins Pattern.all
  have hlist : grammar.unplaced.rules.toList = grammar.rules.toList.map Rule.unplaced :=
    Array.toList_map
  have hlimit : grammar.unplaced.rules[Limits.rules]? =
      grammar.rules[Limits.rules]?.map Rule.unplaced := Array.getElem?_map
  unfold ofGrammar
  rw [hlist, hlimit]
  cases grammar.rules[Limits.rules]? with
  | none => exact hbuiltins (hrules _ _ rfl)
  | some rule => exact hbuiltins (hrules _ _ rfl)

end SymbolTable

/-! ## Directives -/

namespace Settings

/-- The directives found, without places. -/
def unplacedSeen (seen : List (DirectiveKind × Directive)) : List (DirectiveKind × Directive) :=
  seen.map fun entry => (entry.1, entry.2.unplaced)

theorem lookup_unplacedSeen (seen : List (DirectiveKind × Directive)) (kind : DirectiveKind) :
    (unplacedSeen seen).lookup kind = (seen.lookup kind).map Directive.unplaced := by
  induction seen with
  | nil => rfl
  | cons entry rest ih =>
    obtain ⟨kind', d⟩ := entry
    simp only [unplacedSeen, List.map_cons, List.lookup_cons] at ih ⊢
    cases kind == kind' with
    | true => rfl
    | false => exact ih

theorem gather_unplaced (seen : List (DirectiveKind × Directive)) (errors : List SemanticError)
    (directives : List Directive) :
    gather (unplacedSeen seen) (errors.map SemanticError.unplaced)
        (directives.map Directive.unplaced) =
      (unplacedSeen (gather seen errors directives).1,
        (gather seen errors directives).2.map SemanticError.unplaced) := by
  fun_induction gather seen errors directives with
  | case1 seen errors => rfl
  | case2 seen errors d rest hkind ih =>
    rw [List.map_cons, gather, show d.unplaced.name = d.name from rfl, hkind]
    exact ih
  | case3 seen errors d rest kind hkind earlier hseen ih =>
    rw [List.map_cons, gather, show d.unplaced.name = d.name from rfl, hkind]
    dsimp only
    rw [lookup_unplacedSeen, hseen]
    exact ih
  | case4 seen errors d rest kind hkind hseen ih =>
    rw [List.map_cons, gather, show d.unplaced.name = d.name from rfl, hkind]
    dsimp only
    rw [lookup_unplacedSeen, hseen]
    exact ih

/-- What the directives settle, and what is wrong with them, does not depend on places. -/
theorem ofDirectives_unplaced (directives : List Directive) {symbols symbols' : SymbolTable}
    (hsymbols : symbols.Agrees symbols') (overrides : Overrides) :
    (ofDirectives (directives.map Directive.unplaced) symbols' overrides).1 =
        (ofDirectives directives symbols overrides).1 ∧
      (ofDirectives (directives.map Directive.unplaced) symbols' overrides).2.map
          SemanticError.unplaced =
        (ofDirectives directives symbols overrides).2.map SemanticError.unplaced := by
  have hgather := gather_unplaced [] [] directives
  rw [List.map_nil, show unplacedSeen [] = [] from rfl] at hgather
  unfold ofDirectives
  rw [hgather]
  generalize gather [] [] directives = gathered
  obtain ⟨seen, errors⟩ := gathered
  have hvalue (kind : DirectiveKind) :
      (((unplacedSeen seen).lookup kind).map fun d => d.value) =
        (seen.lookup kind).map fun d => d.value := by
    rw [lookup_unplacedSeen, Option.map_map]
    rfl
  have herrors : (errors.map SemanticError.unplaced).reverse.map SemanticError.unplaced =
      errors.reverse.map SemanticError.unplaced := by
    rw [← List.map_reverse, SemanticError.map_unplaced_map_unplaced]
  have hoption (valid : Prop) [Decidable valid] (fault : SemanticFault) (span span' : Span) :
      (if valid then [] else [(⟨fault, span⟩ : SemanticError)]).map SemanticError.unplaced =
        (if valid then [] else [(⟨fault, span'⟩ : SemanticError)]).map SemanticError.unplaced := by
    split <;> rfl
  have hstart := lookup_unplacedSeen seen .start
  cases hd : seen.lookup .start with
  | none =>
    rw [hd] at hstart
    simp only [hvalue, hstart, hd, Option.map_none, List.map_append, herrors, true_and]
    congr 1
    congr 1
    · congr 1
      exact hoption _ _ _ _
    · exact hoption _ _ _ _
  | some d =>
    rw [hd] at hstart
    simp only [hvalue, hstart, hd, Option.map_some, List.map_append, herrors]
    rw [show d.unplaced.value = d.value from rfl, hsymbols.ruleId?]
    refine ⟨by cases symbols.ruleId? d.value <;> rfl, ?_⟩
    congr 1
    · congr 1
      · congr 1
        exact hoption _ _ _ _
      · exact hoption _ _ _ _
    · cases symbols.ruleId? d.value <;> rfl

end Settings

/-! ## Markers -/

namespace Marker

theorem siteErrors_unplaced (m : Marker) (key : MarkerKey) (site : MarkerSite) :
    m.unplaced.siteErrors key site = (m.siteErrors key site).map SemanticError.unplaced := by
  obtain ⟨word, value, span⟩ := m
  simp only [siteErrors, unplaced, List.map_append]
  congr 1
  · split <;> rfl
  · cases value with
    | none => rfl
    | some value =>
      dsimp only
      split <;> rfl

theorem eachErrors_unplaced (site : MarkerSite) (seen markers : List Marker) :
    eachErrors site (seen.map unplaced) (markers.map unplaced) =
      (eachErrors site seen markers).map SemanticError.unplaced := by
  have hearlier (seen : List Marker) (m : Marker) :
      (seen.map unplaced).find? (fun earlier => earlier.key == m.key) =
        (seen.find? fun earlier => earlier.key == m.key).map unplaced :=
    find?_map_unplaced seen m.key
  induction markers generalizing seen with
  | nil => rfl
  | cons m rest ih =>
    simp only [List.map_cons, eachErrors, hearlier, siteErrors_unplaced, key_unplaced,
      value_unplaced, span_unplaced]
    cases MarkerKey.ofWord? m.key with
    | none => exact congrArg (_ :: ·) (ih seen)
    | some key =>
      dsimp only
      split
      · exact congrArg (_ :: ·) (ih seen)
      split
      · exact congrArg (_ :: ·) (ih seen)
      rw [List.map_append]
      congr 1
      cases seen.find? fun earlier => earlier.key == m.key with
      | none =>
        have hrest := ih (seen ++ [m])
        rw [List.map_append] at hrest
        exact hrest
      | some earlier =>
        dsimp only [Option.map_some, value_unplaced]
        by_cases hsame : earlier.value = m.value
        · refine (if_pos hsame).trans ?_
          rw [if_pos hsame]
          exact ih seen
        · refine (if_neg hsame).trans ?_
          rw [if_neg hsame]
          exact congrArg (_ :: ·) (ih seen)

theorem togetherErrors_unplaced (markers : List Marker) :
    togetherErrors (markers.map unplaced) =
      (togetherErrors markers).map SemanticError.unplaced := by
  have hhas (key : MarkerKey) : (markers.map unplaced).any (fun m => m.key == key.word) =
      markers.any fun m => m.key == key.word := by
    rw [List.any_map]
    rfl
  cases markers with
  | nil => rfl
  | cons first rest =>
    simp only [List.map_cons] at hhas
    simp only [List.map_cons, togetherErrors, hhas, List.map_append, span_unplaced]
    congr 1
    · split <;> rfl
    · split
      · rw [List.map_map]
        rfl
      · rfl

theorem errors_unplaced (site : MarkerSite) (markers : List Marker) :
    errors site (markers.map unplaced) = (errors site markers).map SemanticError.unplaced := by
  have heach := eachErrors_unplaced site [] markers
  rw [List.map_nil] at heach
  rw [errors, heach, togetherErrors_unplaced, ← List.map_append, errors]

end Marker

namespace Expr

@[simp] theorem elementSite_unplaced (e : Expr) : e.unplaced.elementSite = e.elementSite := by
  cases e <;> rfl

@[simp] theorem contentSite_unplaced (e : Expr) : e.unplaced.contentSite = e.contentSite := by
  cases e <;> rfl

theorem markerErrors_unplaced :
    (∀ (site : MarkerSite) (e : Expr), e.unplaced.markerErrors site =
      (e.markerErrors site).map SemanticError.unplaced) ∧
    (∀ es : List Expr, markerErrorsOfBranches (es.map unplaced) =
      (markerErrorsOfBranches es).map SemanticError.unplaced) ∧
    ∀ es : List Expr, markerErrorsOfItems (es.map unplaced) =
      (markerErrorsOfItems es).map SemanticError.unplaced := by
  apply markerErrors.mutual_induct
  case case1 | case2 =>
    intro site info _
    exact Marker.errors_unplaced site info.markers
  case case3 | case4 =>
    intro site info es ih
    simp only [unplaced, unplacedAll_eq_map, markerErrors, NodeInfo.unplaced,
      Marker.errors_unplaced, ih, List.map_append]
  case case5 | case7 =>
    intro site info body ih
    simp only [unplaced, markerErrors, NodeInfo.unplaced, Marker.errors_unplaced,
      elementSite_unplaced, contentSite_unplaced, ih, List.map_append]
  case case6 =>
    intro site info body kind ih
    simp only [unplaced, markerErrors, NodeInfo.unplaced, Marker.errors_unplaced,
      elementSite_unplaced, ih, List.map_append]
  case case8 | case10 => rfl
  case case9 =>
    intro e rest ih ihRest
    simp only [List.map_cons, markerErrorsOfBranches, ih, ihRest, List.map_append]
  case case11 =>
    intro e rest ih ihRest
    simp only [List.map_cons, markerErrorsOfItems, elementSite_unplaced, ih, ihRest,
      List.map_append]

theorem paths_unplaced :
    (∀ (path : String) (e : Expr), e.unplaced.paths path = e.paths path) ∧
    ∀ (step : String) (number : Nat) (es : List Expr),
      pathsOfAll step number (es.map unplaced) = pathsOfAll step number es := by
  apply paths.mutual_induct
  case case1 | case2 =>
    intros
    rfl
  case case3 | case4 =>
    intro path info items ih
    simp only [unplaced, unplacedAll_eq_map, paths, NodeInfo.unplaced, ih]
  case case5 | case7 =>
    intro path info body ih
    simp only [unplaced, paths, NodeInfo.unplaced, ih]
  case case6 =>
    intro path info body kind ih
    simp only [unplaced, paths, NodeInfo.unplaced, ih]
  case case8 =>
    intros
    rfl
  case case9 =>
    intro step number e rest ih ihRest
    simp only [List.map_cons, pathsOfAll, ih, ihRest]

theorem references_unplaced (e : Expr) :
    e.unplaced.references = e.references.map fun reference => (reference.1, default) := by
  rw [references, preorder_unplaced, List.filterMap_map, references, List.map_filterMap]
  congr 1
  funext e
  cases e <;> rfl

end Expr

namespace Rule

theorem markerErrors_unplaced (rule : Rule) :
    rule.unplaced.markerErrors = rule.markerErrors.map SemanticError.unplaced := by
  simp only [markerErrors, marker?_unplaced, body_unplaced, Expr.contentSite_unplaced,
    Expr.markerErrors_unplaced.1, List.map_append]
  congr 2
  · exact Marker.errors_unplaced .rule rule.markers
  · cases rule.marker? .keyOf with
    | none => rfl
    | some key =>
      dsimp only [Option.map_some]
      rw [Option.isNone_map]
      split <;> rfl

theorem referenceErrors_unplaced (rule : Rule) {symbols symbols' : SymbolTable}
    (hsymbols : symbols.Agrees symbols') : rule.unplaced.referenceErrors symbols' =
      (rule.referenceErrors symbols).map SemanticError.unplaced := by
  simp only [referenceErrors, body_unplaced, Expr.references_unplaced, List.filter_map,
    List.map_map, hsymbols.contains, Function.comp_def]
  rfl

end Rule

namespace Grammar

theorem toList_rules_unplaced (grammar : Grammar) :
    grammar.unplaced.rules.toList = grammar.rules.toList.map Rule.unplaced :=
  Array.toList_map

theorem ruleErrors_unplaced (grammar : Grammar) {symbols symbols' : SymbolTable}
    (hsymbols : symbols.Agrees symbols') : grammar.unplaced.ruleErrors symbols' =
      (grammar.ruleErrors symbols).map SemanticError.unplaced := by
  simp only [ruleErrors, toList_rules_unplaced, List.flatMap_map, Rule.markerErrors_unplaced,
    Rule.referenceErrors_unplaced _ hsymbols, List.map_flatMap, List.map_append]

@[simp] theorem paths_unplaced (grammar : Grammar) : grammar.unplaced.paths = grammar.paths := by
  simp only [paths, toList_rules_unplaced, List.flatMap_map, Rule.body_unplaced,
    Expr.paths_unplaced.1]
  rfl

end Grammar
end AnnotatedGrammar
