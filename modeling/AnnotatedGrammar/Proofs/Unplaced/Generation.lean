import AnnotatedGrammar.Proofs.Generation
import AnnotatedGrammar.Proofs.Unplaced.Artifacts
import AnnotatedGrammar.Proofs.Unplaced.Parse

/-!
# Layout and comments

A run reads nothing of a text but its significant tokens. Two texts with the same significant tokens
give the same artifacts with the same warnings, or the same errors, whatever stands between the
tokens. Only the places that diagnostics speak of differ.
-/

namespace AnnotatedGrammar

/-- The two diagnostics have the same to say, though perhaps of different places. -/
def Diagnostic.SaysTheSame (d d' : Diagnostic) : Prop :=
  d.kind = d'.kind ∧ d.severity = d'.severity ∧ d.code = d'.code ∧ d.message = d'.message

/-- The tokens with a meaning, in order. -/
def significantTokens (tokens : List (Located Token)) : List Token :=
  (tokens.map (·.value)).filter Token.isSignificant

namespace Diagnostic

theorem saysTheSame_of_map {α β : Type} {diagnostic : α → Diagnostic} {erase : α → β}
    (h : ∀ a a', erase a = erase a' → (diagnostic a).SaysTheSame (diagnostic a'))
    {as as' : List α} (hsame : as.map erase = as'.map erase) :
    List.Forall₂ SaysTheSame (as.map diagnostic) (as'.map diagnostic) := by
  induction as generalizing as' with
  | nil =>
    obtain rfl := List.map_eq_nil_iff.mp hsame.symm
    exact .nil
  | cons a rest ih =>
    cases as' with
    | nil => cases hsame
    | cons a' rest' =>
      obtain ⟨hfirst, hrest⟩ := List.cons.inj hsame
      exact .cons (h a a' hfirst) (ih hrest)

theorem ofSyntaxError_saysTheSame (e e' : SyntaxError) (h : e.unplaced = e'.unplaced) :
    (ofSyntaxError e).SaysTheSame (ofSyntaxError e') := by
  have hvalue : e.value = e'.value :=
    show e.unplaced.value = e'.unplaced.value from congrArg Located.value h
  exact ⟨rfl, rfl, congrArg SyntaxFault.code hvalue, congrArg SyntaxFault.message hvalue⟩

theorem ofSemanticError_saysTheSame (e e' : SemanticError)
    (h : SemanticError.unplaced e = SemanticError.unplaced e') :
    (ofSemanticError e).SaysTheSame (ofSemanticError e') := by
  have hvalue : e.value.unplaced = e'.value.unplaced := congrArg Located.value h
  refine ⟨rfl, rfl, ?_, ?_⟩
  · exact e.value.code_unplaced.symm.trans ((congrArg _ hvalue).trans e'.value.code_unplaced)
  · exact e.value.message_unplaced.symm.trans ((congrArg _ hvalue).trans e'.value.message_unplaced)

theorem ofInternalFault_saysTheSame (fault fault' : InternalFault)
    (h : fault.unplaced = fault'.unplaced) :
    (ofInternalFault fault).SaysTheSame (ofInternalFault fault') := by
  refine ⟨rfl, rfl, ?_, ?_⟩
  · exact fault.code_unplaced.symm.trans ((congrArg _ h).trans fault'.code_unplaced)
  · exact fault.message_unplaced.symm.trans ((congrArg _ h).trans fault'.message_unplaced)

theorem ofNestedQuantifiers_saysTheSame (w w' : NestedQuantifiers)
    (h : w.unplaced = w'.unplaced) :
    (ofNestedQuantifiers w).SaysTheSame (ofNestedQuantifiers w') :=
  ⟨rfl, rfl, rfl,
    show w.unplaced.message = w'.unplaced.message from congrArg NestedQuantifiers.message h⟩

theorem promoted_saysTheSame {ds ds' : List Diagnostic} (h : List.Forall₂ SaysTheSame ds ds') :
    List.Forall₂ SaysTheSame (ds.map promoted) (ds'.map promoted) := by
  rw [List.forall₂_map_left_iff, List.forall₂_map_right_iff]
  exact h.imp fun _ _ hsame => ⟨hsame.1, rfl, hsame.2.2⟩

end Diagnostic

theorem exists_of_map_eq_ok {α β ε : Type} {result : Except ε α} {f : α → β} {b : β}
    (h : result.map f = .ok b) : ∃ a, result = .ok a ∧ f a = b := by
  cases result with
  | ok a => exact ⟨a, rfl, Except.ok.inj h⟩
  | error e => cases h

namespace Outcome

variable {α β ε : Type} {R : α → α → Prop} {S : β → β → Prop}

/-- Both outcomes are results that are related, or both are failures whose diagnostics have the
same to say, one by one. -/
def Alike (R : α → α → Prop) (x x' : Outcome α) : Prop :=
  (∃ a a', x.result = .ok a ∧ x'.result = .ok a' ∧ R a a') ∨
    ∃ ds ds', x.result = .error ds ∧ x'.result = .error ds' ∧
      List.Forall₂ Diagnostic.SaysTheSame ds ds'

theorem Alike.bind {x x' : Outcome α} {f f' : α → Outcome β} (hx : Alike R x x')
    (hf : ∀ a a', R a a' → Alike S (f a) (f' a')) : Alike S (x >>= f) (x' >>= f') := by
  unfold Alike
  rw [bind_result, bind_result]
  rcases hx with ⟨a, a', ha, ha', hR⟩ | ⟨ds, ds', hds, hds', hsame⟩
  · rw [ha, ha']
    exact hf a a' hR
  · rw [hds, hds']
    exact .inr ⟨ds, ds', rfl, rfl, hsame⟩

theorem Alike.ofStage_ok {diagnostics : ε → List Diagnostic} {result result' : Except ε α}
    {entries entries' : List Log.Entry} {a a' : α} (ha : result = .ok a) (ha' : result' = .ok a')
    (hR : R a a') : Alike R (ofStage diagnostics result entries)
      (ofStage diagnostics result' entries') := by
  subst ha ha'
  exact .inl ⟨a, a', rfl, rfl, hR⟩

theorem Alike.ofStage_error {diagnostics : ε → List Diagnostic} {result result' : Except ε α}
    {entries entries' : List Log.Entry} {e e' : ε} (he : result = .error e)
    (he' : result' = .error e')
    (hsame : List.Forall₂ Diagnostic.SaysTheSame (diagnostics e) (diagnostics e')) :
    Alike R (ofStage diagnostics result entries) (ofStage diagnostics result' entries') := by
  subst he he'
  exact .inr ⟨_, _, rfl, rfl, hsame⟩

end Outcome

namespace GenerationOptions

open Outcome

variable (o : GenerationOptions) {source source' : List Char}

/-- The grammars of token lists with the same significant tokens differ in places only. -/
theorem parse_alike {tokens tokens' : List (Located Token)}
    (h : significantTokens tokens = significantTokens tokens') :
    Alike (fun g g' => g.unplaced = g'.unplaced) (o.parse tokens) (o.parse tokens') := by
  have hstream :
      (TokenStream.ofTokens tokens).unplaced = (TokenStream.ofTokens tokens').unplaced := by
    rw [TokenStream.unplaced_ofTokens, TokenStream.unplaced_ofTokens]
    exact congrArg (fun values : List Token =>
      (⟨(values.map fun token => ⟨token, default⟩).toArray, some default, 0⟩ : TokenStream)) h
  have hread := (TokenStream.ofTokens tokens).grammar_unplaced o.preferences.parsing
  rw [hstream, TokenStream.grammar_unplaced] at hread
  cases hgrammar : (TokenStream.ofTokens tokens).grammar o.preferences.parsing with
  | ok g =>
    cases hgrammar' : (TokenStream.ofTokens tokens').grammar o.preferences.parsing with
    | ok g' =>
      rw [hgrammar, hgrammar'] at hread
      exact .ofStage_ok hgrammar hgrammar' (Except.ok.inj hread).symm
    | error errors' =>
      rw [hgrammar, hgrammar'] at hread
      cases hread
  | error errors =>
    cases hgrammar' : (TokenStream.ofTokens tokens').grammar o.preferences.parsing with
    | ok g' =>
      rw [hgrammar, hgrammar'] at hread
      cases hread
    | error errors' =>
      rw [hgrammar, hgrammar'] at hread
      exact .ofStage_error hgrammar hgrammar' (Diagnostic.saysTheSame_of_map
        Diagnostic.ofSyntaxError_saysTheSame (Except.error.inj hread).symm)

theorem model_alike {g g' : Grammar} (h : g.unplaced = g'.unplaced) :
    Alike GrammarModel.SameButPlaces (o.model g) (o.model g') := by
  obtain ⟨m, m', hm, hm', hsame⟩ | ⟨errors, errors', herrors, herrors', hsame⟩ :=
    Grammar.buildModel_sameButPlaces o.preferences.model o.overrides h
  · exact .ofStage_ok hm hm' hsame
  · exact .ofStage_error herrors herrors'
      (Diagnostic.saysTheSame_of_map Diagnostic.ofSemanticError_saysTheSame hsame)

theorem lower_alike {m m' : GrammarModel} (h : m.SameButPlaces m') :
    Alike (fun set set' => set.unplaced = set'.unplaced) (o.lower m) (o.lower m') := by
  obtain ⟨set, set', hset, hset', hsame⟩ | ⟨fault, fault', hfault, hfault', hsame⟩ :=
    h.lower o.preferences.lowering
  · exact .ofStage_ok hset hset' hsame
  · exact .ofStage_error hfault hfault'
      (.cons (Diagnostic.ofInternalFault_saysTheSame fault fault' hsame) .nil)

theorem write_alike {m m' : GrammarModel} {set set' : ProductionSet} (h : m.SameButPlaces m')
    (hsets : set.unplaced = set'.unplaced) :
    Alike Eq (o.write m set (.ofProductions set)) (o.write m' set' (.ofProductions set')) := by
  obtain ⟨symbols, -, -, hmodels⟩ := h
  have hcatalog : TokenCatalog.ofProductions set = .ofProductions set' :=
    show TokenCatalog.ofProductions set.unplaced = .ofProductions set'.unplaced from
      congrArg TokenCatalog.ofProductions hsets
  have hsources : (o.artifactSource m set).unplaced symbols =
      (o.artifactSource m' set').unplaced symbols := by
    simp only [ArtifactSource.unplaced, artifactSource, hmodels, hsets, hcatalog]
  have hattempts : (o.artifactSource m set).attempts = (o.artifactSource m' set').attempts := by
    rw [← (o.artifactSource m set).attempts_unplaced symbols, hsources,
      ArtifactSource.attempts_unplaced]
  change Alike Eq (ofStage _ ((o.artifactSource m set).attempts.mapM id) _)
    (ofStage _ ((o.artifactSource m' set').attempts.mapM id) _)
  rw [hattempts]
  cases hwritten : (o.artifactSource m' set').attempts.mapM id with
  | ok artifacts => exact .ofStage_ok rfl rfl rfl
  | error fault =>
    exact .ofStage_error rfl rfl
      (.cons (Diagnostic.ofInternalFault_saysTheSame fault fault rfl) .nil)


/-- What is generated holds the same artifacts and warns of the same. -/
def SameOutput (g g' : Generated) : Prop :=
  g.artifacts = g'.artifacts ∧ List.Forall₂ Diagnostic.SaysTheSame g.warnings g'.warnings

theorem backEnd_alike (source source' : List Char) {m m' : GrammarModel}
    (h : m.SameButPlaces m') : Alike SameOutput (o.backEnd source m) (o.backEnd source' m') := by
  refine (o.lower_alike h).bind fun set set' hsets => ?_
  have hwarnings : List.Forall₂ Diagnostic.SaysTheSame
      (set.warnings.map Diagnostic.ofNestedQuantifiers)
      (set'.warnings.map Diagnostic.ofNestedQuantifiers) :=
    Diagnostic.saysTheSame_of_map Diagnostic.ofNestedQuantifiers_saysTheSame
      (congrArg ProductionSet.warnings hsets)
  have hempty : (set.warnings.map Diagnostic.ofNestedQuantifiers).isEmpty =
      (set'.warnings.map Diagnostic.ofNestedQuantifiers).isEmpty := by
    rw [Bool.eq_iff_iff, List.isEmpty_iff_length_eq_zero, List.isEmpty_iff_length_eq_zero,
      hwarnings.length_eq]
  dsimp only
  rw [hempty]
  split
  · exact .inr ⟨_, _, rfl, rfl, Diagnostic.promoted_saysTheSame hwarnings⟩
  · refine Alike.bind (R := Eq) (.inl ⟨(), (), rfl, rfl, rfl⟩) fun _ _ _ => ?_
    refine (o.write_alike h hsets).bind fun artifacts artifacts' hartifacts => ?_
    exact .inl ⟨_, _, rfl, rfl, hartifacts, hwarnings⟩

/-- Two texts with the same significant tokens, whatever blanks, line breaks and comments stand
between them, give the same artifacts and warnings with the same to say, or both fail with
diagnostics that have the same to say, one by one. -/
theorem generate_ignoresLayout {tokens tokens' : List (Located Token)}
    (htokens : (Scan.ofText source).result = .ok tokens)
    (htokens' : (Scan.ofText source').result = .ok tokens')
    (hsame : significantTokens tokens = significantTokens tokens') :
    (∃ g g', (o.generate source).result = .ok g ∧ (o.generate source').result = .ok g' ∧
      g.artifacts = g'.artifacts ∧
      List.Forall₂ Diagnostic.SaysTheSame g.warnings g'.warnings) ∨
    ∃ ds ds', (o.generate source).result = .error ds ∧ (o.generate source').result = .error ds' ∧
      List.Forall₂ Diagnostic.SaysTheSame ds ds' := by
  have hscan : Alike (fun ts ts' => significantTokens ts = significantTokens ts')
      (o.scan source) (o.scan source') := .ofStage_ok htokens htokens' hsame
  have hfront : Alike GrammarModel.SameButPlaces (o.frontEnd source) (o.frontEnd source') :=
    hscan.bind fun ts ts' hts => (o.parse_alike hts).bind fun g g' hg => o.model_alike hg
  have hrun := hfront.bind fun m m' hm => o.backEnd_alike source source' hm
  unfold Alike at hrun
  rwa [← generate_result, ← generate_result] at hrun

/-- A comment that looks like the end of a rule, blanks, and a comment behind everything. -/
theorem generate_ignoresLayout_commented :
    ∃ tokens tokens',
      (Scan.ofText "@class(C)r=(*;*)'x'@field(f)??;\n".toList).result = .ok tokens ∧
      (Scan.ofText "@class(C) r = 'x' @field(f) ??;//".toList).result = .ok tokens' ∧
      significantTokens tokens = significantTokens tokens' ∧
      let o : GenerationOptions := ⟨default, "sample", false, default⟩
      (∃ g g', (o.generate "@class(C)r=(*;*)'x'@field(f)??;\n".toList).result = .ok g ∧
        (o.generate "@class(C) r = 'x' @field(f) ??;//".toList).result = .ok g' ∧
        g.artifacts = g'.artifacts ∧
        List.Forall₂ Diagnostic.SaysTheSame g.warnings g'.warnings) ∨
      ∃ ds ds', (o.generate "@class(C)r=(*;*)'x'@field(f)??;\n".toList).result = .error ds ∧
        (o.generate "@class(C) r = 'x' @field(f) ??;//".toList).result = .error ds' ∧
        List.Forall₂ Diagnostic.SaysTheSame ds ds' := by
  have hdense : (Scan.ofText "@class(C)r=(*;*)'x'@field(f)??;\n".toList).result.map
        significantTokens = .ok [.atSign, .identifier "class", .leftParen, .identifier "C",
          .rightParen, .identifier "r", .equals, .literal "x", .atSign, .identifier "field",
          .leftParen, .identifier "f", .rightParen, .question, .question, .semicolon,
          .endOfInput] := by
    cbv
  have hspaced : (Scan.ofText "@class(C) r = 'x' @field(f) ??;//".toList).result.map
        significantTokens = .ok [.atSign, .identifier "class", .leftParen, .identifier "C",
          .rightParen, .identifier "r", .equals, .literal "x", .atSign, .identifier "field",
          .leftParen, .identifier "f", .rightParen, .question, .question, .semicolon,
          .endOfInput] := by
    cbv
  obtain ⟨tokens, htokens, hvalues⟩ := exists_of_map_eq_ok hdense
  obtain ⟨tokens', htokens', hvalues'⟩ := exists_of_map_eq_ok hspaced
  have hsame := hvalues.trans hvalues'.symm
  exact ⟨tokens, tokens', htokens, htokens', hsame,
    generate_ignoresLayout _ htokens htokens' hsame⟩

end GenerationOptions
end AnnotatedGrammar
