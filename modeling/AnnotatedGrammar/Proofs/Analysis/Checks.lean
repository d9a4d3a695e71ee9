import AnnotatedGrammar.Proofs.Analysis.Passage
import AnnotatedGrammar.Proofs.Analysis.Stages
import AnnotatedGrammar.Proofs.Model.Built

/-!
# The checks before the analysis

Names, directives and markers are checked before any value is asked for and any field is named. So
the errors that depend on these are not among those found here.
-/

namespace AnnotatedGrammar

namespace SemanticError

/-- None of the errors says that a rule needs its own value, or that a field name is taken. -/
def Plain (errors : List SemanticError) : Prop := ∀ e ∈ errors, e.value.isPlain = true

variable {e : SemanticError} {errors errors' : List SemanticError}

@[simp] theorem plain_nil : Plain [] := by simp [Plain]

@[simp] theorem plain_cons :
    Plain (e :: errors) ↔ e.value.isPlain = true ∧ Plain errors :=
  List.forall_mem_cons

@[simp] theorem plain_append :
    Plain (errors ++ errors') ↔ Plain errors ∧ Plain errors' :=
  List.forall_mem_append

@[simp] theorem plain_reverse : Plain errors.reverse ↔ Plain errors := by
  simp [Plain]

end SemanticError

open SemanticError

/-! ## Names and directives -/

namespace SymbolTable

theorem declareRules_plain {rules : List Rule} {state : SymbolTable × List SemanticError}
    {id : RuleId} (h : Plain state.2) : Plain (declareRules state id rules).2 := by
  induction rules generalizing state id with
  | nil => exact h
  | cons rule rest ih =>
    refine ih ?_
    obtain ⟨t, errors⟩ := state
    unfold declareRule
    dsimp only
    split
    · exact plain_cons.mpr ⟨rfl, h⟩
    · exact h

theorem ofGrammar_plain (grammar : Grammar) (builtins : Bool) :
    Plain (ofGrammar grammar builtins).2 := by
  refine plain_reverse.mpr (declareRules_plain ?_)
  dsimp only
  split
  · exact plain_cons.mpr ⟨rfl, plain_nil⟩
  · exact plain_nil

end SymbolTable

namespace Settings

theorem gather_plain {directives : List Directive} {seen : List (DirectiveKind × Directive)}
    {errors : List SemanticError} (h : Plain errors) :
    Plain (gather seen errors directives).2 := by
  induction directives generalizing seen errors with
  | nil => exact h
  | cons directive rest ih =>
    unfold gather
    split
    · exact ih (plain_cons.mpr ⟨rfl, h⟩)
    · split
      · exact ih (plain_cons.mpr ⟨rfl, h⟩)
      · exact ih h

theorem ofDirectives_plain (directives : List Directive) (symbols : SymbolTable)
    (overrides : Overrides) : Plain (ofDirectives directives symbols overrides).2 := by
  have hone {p : Prop} [Decidable p] {e : SemanticError} (he : e.value.isPlain = true) :
      Plain (if p then [] else [e]) := by
    split
    · exact plain_nil
    · exact plain_cons.mpr ⟨he, plain_nil⟩
  have hgather : Plain (gather [] [] directives).2 := gather_plain plain_nil
  unfold ofDirectives
  simp only [plain_append, plain_reverse]
  refine ⟨⟨⟨hgather, hone rfl⟩, hone rfl⟩, ?_⟩
  split
  · exact plain_nil
  · split
    · exact plain_nil
    · exact plain_cons.mpr ⟨rfl, plain_nil⟩

end Settings

/-! ## Markers and references -/

namespace Marker

theorem siteErrors_plain (m : Marker) (key : MarkerKey) (site : MarkerSite) :
    Plain (m.siteErrors key site) := by
  unfold siteErrors
  refine plain_append.mpr ⟨?_, ?_⟩
  · split
    · exact plain_nil
    · exact plain_cons.mpr ⟨rfl, plain_nil⟩
  · split
    · exact plain_nil
    · split
      · exact plain_nil
      · exact plain_cons.mpr ⟨rfl, plain_nil⟩

theorem eachErrors_plain {site : MarkerSite} {seen markers : List Marker} :
    Plain (eachErrors site seen markers) := by
  induction markers generalizing seen with
  | nil => exact plain_nil
  | cons m rest ih =>
    unfold eachErrors
    split
    · exact plain_cons.mpr ⟨rfl, ih⟩
    · split
      · exact plain_cons.mpr ⟨rfl, ih⟩
      · split
        · exact plain_cons.mpr ⟨rfl, ih⟩
        · refine plain_append.mpr ⟨siteErrors_plain _ _ _, ?_⟩
          split
          · split
            · exact ih
            · exact plain_cons.mpr ⟨rfl, ih⟩
          · exact ih

theorem togetherErrors_plain (markers : List Marker) : Plain (togetherErrors markers) := by
  unfold togetherErrors
  split
  · exact plain_nil
  · refine plain_append.mpr ⟨?_, ?_⟩
    · split
      · exact plain_cons.mpr ⟨rfl, plain_nil⟩
      · exact plain_nil
    · split
      · refine List.forall_mem_map.mpr fun key _ => rfl
      · exact plain_nil

theorem errors_plain (site : MarkerSite) (markers : List Marker) :
    Plain (errors site markers) :=
  plain_append.mpr ⟨eachErrors_plain, togetherErrors_plain markers⟩

end Marker

open Marker

mutual

theorem Expr.markerErrors_plain (site : MarkerSite) (e : Expr) :
    Plain (e.markerErrors site) := by
  cases e with
  | terminal | reference => exact errors_plain site _
  | sequence info items =>
    exact plain_append.mpr ⟨errors_plain site _, markerErrorsOfItems_plain items⟩
  | alternation info branches =>
    exact plain_append.mpr
      ⟨errors_plain site _, markerErrorsOfBranches_plain branches⟩
  | optional info body | repeated info body _ | group info body =>
    exact plain_append.mpr ⟨errors_plain site _, markerErrors_plain _ body⟩

theorem Expr.markerErrorsOfItems_plain (es : List Expr) :
    Plain (markerErrorsOfItems es) := by
  cases es with
  | nil => exact plain_nil
  | cons e rest =>
    exact plain_append.mpr
      ⟨markerErrors_plain _ e, markerErrorsOfItems_plain rest⟩

theorem Expr.markerErrorsOfBranches_plain (es : List Expr) :
    Plain (markerErrorsOfBranches es) := by
  cases es with
  | nil => exact plain_nil
  | cons e rest =>
    exact plain_append.mpr
      ⟨markerErrors_plain _ e, markerErrorsOfBranches_plain rest⟩

end

theorem Rule.markerErrors_plain (rule : Rule) : Plain rule.markerErrors := by
  unfold markerErrors
  simp only [plain_append]
  refine ⟨⟨errors_plain _ _, ?_⟩, Expr.markerErrors_plain _ _⟩
  split
  · split
    · exact plain_cons.mpr ⟨rfl, plain_nil⟩
    · exact plain_nil
  · exact plain_nil

theorem Grammar.ruleErrors_plain (grammar : Grammar) (symbols : SymbolTable) :
    Plain (grammar.ruleErrors symbols) := by
  refine List.forall_mem_flatMap.mpr fun rule _ => ?_
  refine plain_append.mpr ⟨rule.markerErrors_plain, ?_⟩
  exact List.forall_mem_map.mpr fun reference _ => rfl

theorem Grammar.firstDraft_plain (grammar : Grammar) (preferences : ModelPreferences)
    (overrides : Overrides) : Plain (grammar.firstDraft preferences overrides).errors.toList := by
  unfold firstDraft Draft.empty
  simp only [plain_append]
  exact ⟨⟨SymbolTable.ofGrammar_plain _ _, Settings.ofDirectives_plain _ _ _⟩,
    grammar.ruleErrors_plain _⟩

/-- An error that depends on what was found before was found by the analysis. -/
theorem Grammar.mem_draft_of_buildModel {grammar : Grammar} {preferences : ModelPreferences}
    {overrides : Overrides} {errors : List SemanticError} {e : SemanticError}
    (h : (grammar.buildModel preferences overrides).result = .error errors) (he : e ∈ errors)
    (hlate : e.value.isPlain = false) :
    e ∈ (grammar.draft preferences overrides).draft.errors.toList := by
  have hkept {found : List SemanticError} (h : e ∈ limitErrors found) : e ∈ found := by
    refine (mem_of_mem_limitErrors h).resolve_right fun hvalue => ?_
    rw [hvalue] at hlate
    cases hlate
  unfold buildModel at h
  split at h
  · -- a grammar without rules
    obtain rfl := Except.error.inj h
    have hnames := SymbolTable.ofGrammar_plain grammar preferences.builtinPatterns
    rcases List.mem_append.mp (hkept he) with hmem | hmem
    · rw [hnames e hmem] at hlate
      cases hlate
    · obtain rfl := List.mem_singleton.mp hmem
      cases hlate
  · dsimp only at h
    split at h
    · cases h
    · obtain rfl := Except.error.inj h
      exact hkept he

end AnnotatedGrammar
