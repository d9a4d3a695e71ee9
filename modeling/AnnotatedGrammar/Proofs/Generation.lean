import AnnotatedGrammar.Proofs.Analysis.Conclusion
import AnnotatedGrammar.Proofs.Syntax.Shaped

/-!
# Generation succeeds

Whatever the front end accepts is lowered to productions that pass their check, and all four
artifacts are written. A run ends early only for what is wrong with the text, or for warnings that
are to count as errors.
-/

namespace AnnotatedGrammar

namespace Outcome

variable {α β γ : Type}

theorem bind_result (x : Outcome α) (f : α → Outcome β) :
    (x >>= f).result = match x.result with
      | .ok a => (f a).result
      | .error ds => .error ds := by
  change (Outcome.bind x f).result = _
  unfold Outcome.bind
  cases x.result <;> rfl

theorem bind_of_ok {x : Outcome α} {a : α} (h : x.result = .ok a) (f : α → Outcome β) :
    x >>= f = ⟨(f a).result, x.entries ++ (f a).entries⟩ := by
  change Outcome.bind x f = _
  unfold Outcome.bind
  rw [h]

theorem bind_of_error {x : Outcome α} {ds : List Diagnostic} (h : x.result = .error ds)
    (f : α → Outcome β) : x >>= f = ⟨.error ds, x.entries⟩ := by
  change Outcome.bind x f = _
  unfold Outcome.bind
  rw [h]

theorem bind_assoc (x : Outcome α) (f : α → Outcome β) (g : β → Outcome γ) :
    x >>= f >>= g = x >>= fun a => f a >>= g := by
  cases hx : x.result with
  | error ds => rw [bind_of_error hx, bind_of_error hx, bind_of_error rfl]
  | ok a =>
    rw [bind_of_ok hx, bind_of_ok hx]
    cases hf : (f a).result with
    | error ds => rw [bind_of_error rfl, bind_of_error hf]
    | ok b => rw [bind_of_ok rfl, bind_of_ok hf, List.append_assoc]

end Outcome

/-- The model of a text that the front end accepts is settled. -/
theorem GenerationOptions.frontEnd_settled {o : GenerationOptions} {source : List Char}
    {m : GrammarModel} (h : (o.frontEnd source).result = .ok m) : Grammar.IsSettled m := by
  obtain ⟨tokens, -, grammar, hgrammar, hmodel⟩ := frontEnd_eq_ok.mp h
  exact Grammar.buildModel_settled (TokenStream.isParsed_of_parse hgrammar) hmodel

namespace GenerationOptions

/-- What the four artifacts of a model and its productions are written from. -/
def artifactSource (o : GenerationOptions) (m : GrammarModel) (set : ProductionSet) :
    ArtifactSource :=
  ⟨m, set, .ofProductions set, o.baseName, o.preferences.artifacts.banner⟩

/-- The model of a text that the front end accepts is lowered, and all four artifacts of it are
written. -/
theorem exists_written {o : GenerationOptions} {source : List Char} {m : GrammarModel}
    (h : (o.frontEnd source).result = .ok m) :
    ∃ set, (o.lower m).result = .ok set ∧
      ∀ kind, ∃ a, (o.artifactSource m set).write kind = .ok a := by
  have hsettled := frontEnd_settled h
  obtain ⟨set, hlower, hfits, hproductive⟩ := GrammarModel.lower_succeeds o.preferences.lowering
    (frontEnd_numbered h) hsettled.owned hsettled.rules
  exact ⟨set, Outcome.ofStage_result_eq_ok.mpr hlower,
    (o.artifactSource m set).write_succeeds hsettled.tags rfl hfits hproductive⟩

/-- The model of a text that the front end accepts is lowered. -/
theorem exists_lower {o : GenerationOptions} {source : List Char} {m : GrammarModel}
    (h : (o.frontEnd source).result = .ok m) : ∃ set, (o.lower m).result = .ok set :=
  (exists_written h).imp fun _ hset => hset.1

/-- The part of a run after the front end. -/
def backEnd (o : GenerationOptions) (source : List Char) (m : GrammarModel) :
    Outcome Generated := do
  let set ← o.lower m
  let warnings := set.warnings.map Diagnostic.ofNestedQuantifiers
  if o.warningsAsErrors && !warnings.isEmpty then
    Outcome.fail (warnings.map Diagnostic.promoted)
  else
    let catalog := TokenCatalog.ofProductions set
    Outcome.tell [catalog.logEntry]
    let artifacts ← o.write m set catalog
    return ⟨artifacts, statistics source m set catalog, warnings⟩

/-- The first entry of a run. -/
def opening (o : GenerationOptions) (source : List Char) : Log.Entry :=
  Log.Entry.info "Starting generation"
    [("base_name", o.baseName), ("bytes", toString (byteLength source))]

theorem generate_eq (o : GenerationOptions) (source : List Char) :
    o.generate source =
      Outcome.tell [o.opening source] >>= fun _ => o.frontEnd source >>= o.backEnd source := by
  simp only [frontEnd, Outcome.bind_assoc]
  rfl

theorem generate_result (o : GenerationOptions) (source : List Char) :
    (o.generate source).result = (o.frontEnd source >>= o.backEnd source).result := by
  rw [generate_eq, Outcome.bind_of_ok rfl]

theorem backEnd_result {o : GenerationOptions} {source : List Char} {m : GrammarModel}
    {set : ProductionSet} (hlowered : (o.lower m).result = .ok set)
    (hwritten : ∀ kind, ∃ a, (o.artifactSource m set).write kind = .ok a) :
    if o.warningsAsErrors = true ∧ set.warnings ≠ [] then
      (o.backEnd source m).result =
        .error (set.warnings.map fun w => (Diagnostic.ofNestedQuantifiers w).promoted)
    else ∃ g, (o.backEnd source m).result = .ok g := by
  have hwrite : ∃ artifacts, (o.write m set (.ofProductions set)).result = .ok artifacts := by
    have hattempts : ∀ attempt ∈ (o.artifactSource m set).attempts, ∃ a, id attempt = .ok a := by
      intro attempt hattempt
      obtain ⟨kind, -, rfl⟩ := List.mem_map.mp hattempt
      exact hwritten kind
    obtain ⟨artifacts, hall⟩ := mapM_succeeds hattempts
    exact ⟨artifacts, Outcome.ofStage_result_eq_ok.mpr hall⟩
  obtain ⟨artifacts, hartifacts⟩ := hwrite
  unfold backEnd
  rw [Outcome.bind_result, hlowered]
  dsimp only
  have hwarnings : (o.warningsAsErrors &&
      !(set.warnings.map Diagnostic.ofNestedQuantifiers).isEmpty) = true ↔
        o.warningsAsErrors = true ∧ set.warnings ≠ [] := by
    simp
  by_cases hfail : o.warningsAsErrors = true ∧ set.warnings ≠ []
  · rw [if_pos hfail, if_pos (hwarnings.mpr hfail)]
    simp [Outcome.fail]
  · rw [if_neg hfail, if_neg (hwarnings.not.mpr hfail)]
    simp only [Outcome.bind_result, Outcome.tell, hartifacts]
    exact ⟨_, rfl⟩

/-- A text that the front end rejects is rejected with its errors. Any other text is lowered to
productions that pass their check, with one at least for every nonterminal, and all four artifacts
are written; only warnings that are to count as errors can still end the run. -/
theorem generate_complete (o : GenerationOptions) (source : List Char) :
    match (o.frontEnd source).result with
    | .error ds => (o.generate source).result = .error ds
    | .ok m => ∃ set, (o.lower m).result = .ok set ∧ set.check m = .ok () ∧
        (∀ n ∈ set.nonterminals, set.productionsOf n.id ≠ []) ∧
        (∀ kind, ∃ a, (o.artifactSource m set).write kind = .ok a) ∧
        if o.warningsAsErrors = true ∧ set.warnings ≠ [] then
          (o.generate source).result =
            .error (set.warnings.map fun w => (Diagnostic.ofNestedQuantifiers w).promoted)
        else ∃ g, (o.generate source).result = .ok g := by
  rw [generate_result, Outcome.bind_result]
  cases haccepted : (o.frontEnd source).result with
  | error ds => rfl
  | ok m =>
    dsimp only
    have hsettled := frontEnd_settled haccepted
    obtain ⟨set, hlower, hfits, hproductive⟩ := GrammarModel.lower_succeeds o.preferences.lowering
      (frontEnd_numbered haccepted) hsettled.owned hsettled.rules
    have hlowered : (o.lower m).result = .ok set := Outcome.ofStage_result_eq_ok.mpr hlower
    have hwritten := (o.artifactSource m set).write_succeeds hsettled.tags rfl hfits hproductive
    refine ⟨set, hlowered, ?_, fun n hn hnone => ?_, hwritten, backEnd_result hlowered hwritten⟩
    · obtain ⟨accept, d, -, rfl, hcheck⟩ := GrammarModel.lower_eq_ok hlower
      exact hcheck
    · obtain ⟨p, hp, hlhs⟩ := hproductive n hn
      have hmem : p ∈ set.productionsOf n.id :=
        List.mem_filter.mpr ⟨Array.mem_toList_iff.mpr hp, beq_iff_eq.mpr hlhs⟩
      rw [hnone] at hmem
      cases hmem

end GenerationOptions
end AnnotatedGrammar
