import AnnotatedGrammar.Generation
import AnnotatedGrammar.Proofs.Lowering.Complete
import AnnotatedGrammar.Proofs.Token.Index

/-!
# Writing succeeds

The four artifacts of a production set are written without a fault if every production fits, every
nonterminal has a production, and every tagged class has variants. The catalog of the set has an
entry for each of its terminals.
-/

namespace AnnotatedGrammar

theorem except_bind_eq_ok {α β : Type} {x : Checked α} {f : α → Checked β} {b : β}
    (h : (x >>= f) = .ok b) : ∃ a, x = .ok a ∧ f a = .ok b := by
  cases x with
  | error fault => cases h
  | ok a => exact ⟨a, rfl, h⟩

theorem bind_succeeds {α β : Type} {x : Checked α} {f : α → Checked β} (hx : ∃ a, x = .ok a)
    (hf : ∀ a, ∃ b, f a = .ok b) : ∃ b, (x >>= f) = .ok b := by
  obtain ⟨a, rfl⟩ := hx
  exact hf a

theorem mapM_succeeds {α β : Type} {f : α → Checked β} {xs : List α}
    (h : ∀ x ∈ xs, ∃ y, f x = .ok y) : ∃ ys, xs.mapM f = .ok ys := by
  induction xs with
  | nil => exact ⟨[], rfl⟩
  | cons x rest ih =>
    obtain ⟨hfirst, hrest⟩ := List.forall_mem_cons.mp h
    rw [List.mapM_cons]
    refine bind_succeeds hfirst fun y => bind_succeeds (ih hrest) fun ys => ?_
    exact ⟨y :: ys, rfl⟩

namespace TokenCatalog

variable {terminals : List Terminal}

theorem lookup_succeeds {t : Terminal} (h : t ∈ terminals) :
    ∃ e, (ofTerminals terminals).lookup (.terminal t) = .ok e := by
  obtain ⟨e, he, hterminal⟩ := List.mem_map.mp (mem_map_terminal_ofTerminals.mpr h)
  simp only [lookup, find?]
  cases hfind : (ofTerminals terminals).entries.find? fun e => e.terminal == t with
  | some found => exact ⟨found, rfl⟩
  | none =>
    rw [List.find?_eq_none] at hfind
    exact absurd (beq_iff_eq.mpr hterminal) (hfind e he)

end TokenCatalog

namespace ProductionSet

variable {set : ProductionSet} {m : GrammarModel} {p : Production}

theorem hasValue_of_isOptionalContent {content : Content} (h : isOptionalContent content = true) :
    content.hasValue = true := by
  cases content with
  | nothing => cases h
  | value | fragment => rfl

theorem hasValue_of_isListContent {content : Content} (h : isListContent content = true) :
    content.hasValue = true := by
  cases content with
  | nothing => cases h
  | value | fragment => rfl

theorem checkProduction_absent (h : set.checkProduction m p = .ok ())
    (haction : p.action = .absent) :
    (set.nonterminal p.lhs).content.hasValue = true := by
  simp only [checkProduction, haction] at h
  by_cases hoptional : isOptionalContent (set.nonterminal p.lhs).content = true
  · exact hasValue_of_isOptionalContent hoptional
  · simp [hoptional, refuse] at h

theorem checkProduction_emptyList (h : set.checkProduction m p = .ok ())
    (haction : p.action = .emptyList) : (set.nonterminal p.lhs).content.hasValue = true := by
  simp only [checkProduction, haction] at h
  by_cases hlist : isListContent (set.nonterminal p.lhs).content = true
  · exact hasValue_of_isListContent hlist
  · simp [hlist, refuse] at h

theorem checkProduction_choose {c : ClassId} {index : Nat} {payload : Option Nat}
    (h : set.checkProduction m p = .ok ()) (haction : p.action = .choose c index payload) :
    ∃ model variant, m.class? c = some model ∧ model.variants[index]? = some variant := by
  simp only [checkProduction, haction] at h
  obtain ⟨model, hclass, h⟩ := except_bind_eq_ok h
  have hmodel : m.class? c = some model := by
    unfold checkClass at hclass
    split at hclass
    next found hfound => rw [hfound, Except.ok.inj hclass]
    next => cases hclass
  cases hvariant : model.variants[index]? with
  | none =>
    rw [hvariant] at h
    cases h
  | some variant => exact ⟨model, variant, hmodel, hvariant⟩

end ProductionSet

/-- Every tagged class has variants. -/
def GrammarModel.TagsHaveVariants (m : GrammarModel) : Prop :=
  ∀ c model, m.class? c = some model → model.kind = .tagged → model.variants ≠ []

namespace ArtifactSource

variable {strict : Prop} {s : ArtifactSource} {p : Production}

theorem definitions_succeed (h : s.model.TagsHaveVariants) : ∃ ds, s.definitions = .ok ds := by
  unfold definitions
  refine mapM_succeeds fun c hc => ?_
  obtain ⟨id, -, hmodel⟩ := List.mem_filterMap.mp hc
  unfold ClassDefinition.ofClass
  rw [if_neg fun hnone => h id c hmodel hnone.1 hnone.2]
  exact ⟨_, rfl⟩

theorem leftType_succeeds (h : (s.productions.nonterminal p.lhs).content.hasValue = true) :
    ∃ type, s.leftType p = .ok type := by
  unfold leftType
  cases hcontent : (s.productions.nonterminal p.lhs).content with
  | nothing =>
    rw [hcontent] at h
    cases h
  | value v =>
    simp only [hcontent]
    exact ⟨_, rfl⟩
  | fragment c many =>
    simp only [hcontent]
    exact ⟨_, rfl⟩

theorem leftType_succeeds_iff :
    (∃ type, s.leftType p = .ok type) ↔
      (s.productions.nonterminal p.lhs).content.hasValue = true := by
  constructor
  · rintro ⟨type, h⟩
    unfold leftType at h
    cases hcontent : (s.productions.nonterminal p.lhs).content with
    | nothing =>
      simp only [hcontent] at h
      cases h
    | value | fragment => rfl
  · exact leftType_succeeds

/-- A checked action has statements, unless it forwards a value to a nonterminal without one. -/
theorem statements_succeed_iff (hcheck : s.productions.checkProduction s.model p = .ok ()) :
    (∃ statements, s.statements p = .ok statements) ↔
      ∀ position, p.action = .forward position →
        (s.productions.nonterminal p.lhs).content.hasValue = true := by
  constructor
  · rintro ⟨statements, h⟩ position haction
    simp only [ArtifactSource.statements, haction] at h
    obtain ⟨type, htype, -⟩ := except_bind_eq_ok h
    exact leftType_succeeds_iff.mp ⟨type, htype⟩
  · intro hforward
    unfold ArtifactSource.statements
    cases haction : p.action with
    | nothing | prepend | singleton | construct | accept => exact ⟨_, rfl⟩
    | forward position =>
      exact bind_succeeds (leftType_succeeds (hforward position haction)) fun type => ⟨_, rfl⟩
    | absent =>
      have hvalue := ProductionSet.checkProduction_absent hcheck haction
      obtain ⟨type, htype⟩ := leftType_succeeds hvalue
      simp only [htype]
      exact ⟨_, rfl⟩
    | emptyList =>
      have hvalue := ProductionSet.checkProduction_emptyList hcheck haction
      obtain ⟨type, htype⟩ := leftType_succeeds hvalue
      simp only [htype]
      exact ⟨_, rfl⟩
    | choose c index payload =>
      obtain ⟨model, variant, hmodel, hvariant⟩ :=
        ProductionSet.checkProduction_choose hcheck haction
      simp only [hmodel, Option.bind_some, hvariant]
      exact ⟨_, rfl⟩

/-- The statements of a production that fits. -/
theorem statements_succeed (h : p.Fits strict s.model s.productions.nonterminals) :
    ∃ statements, s.statements p = .ok statements := by
  refine (statements_succeed_iff (ProductionSet.checkProduction_eq_ok h)).mpr
    fun position haction => ?_
  unfold Production.Fits at h
  simp only [haction] at h
  obtain ⟨v, w, -, htarget, -⟩ := h
  rw [ProductionSet.nonterminal, htarget]
  rfl

/-- The alternative of a production of which the action has statements. -/
theorem blockAlternative_succeeds (hcatalog : s.catalog = .ofProductions s.productions)
    (hp : p ∈ s.productions.productions)
    (hstatements : ∃ statements, s.statements p = .ok statements) :
    ∃ a, s.blockAlternative p = .ok a := by
  unfold blockAlternative
  refine bind_succeeds (mapM_succeeds fun t ht => ?_) fun symbols =>
    bind_succeeds hstatements fun statements => ⟨_, rfl⟩
  cases t with
  | nonterminal n => exact ⟨_, rfl⟩
  | terminal t =>
    obtain ⟨e, he⟩ := TokenCatalog.lookup_succeeds (ProductionSet.mem_terminals.mpr ⟨p, hp, ht⟩)
    refine ⟨e.name, ?_⟩
    simp only [symbolName, hcatalog, TokenCatalog.ofProductions, he]
    rfl

/-- The rule blocks of a set in which every action has statements and every nonterminal a
production. -/
theorem ruleBlocks_of_statements (hcatalog : s.catalog = .ofProductions s.productions)
    (hstatements : ∀ p ∈ s.productions.productions, ∃ statements, s.statements p = .ok statements)
    (hproductive : ∀ n ∈ s.productions.nonterminals,
      ∃ p ∈ s.productions.productions, p.lhs = n.id) :
    ∃ blocks, s.ruleBlocks = .ok blocks := by
  unfold ruleBlocks
  refine mapM_succeeds fun n hn => ?_
  obtain ⟨p, hp, hlhs⟩ := hproductive n (Array.mem_toList_iff.mp hn)
  have hmem : p ∈ s.productions.productionsOf n.id :=
    List.mem_filter.mpr ⟨Array.mem_toList_iff.mpr hp, beq_iff_eq.mpr hlhs⟩
  have hall : ∃ as, (s.productions.productionsOf n.id).mapM s.blockAlternative = .ok as := by
    refine mapM_succeeds fun q hq => ?_
    have hq' := Array.mem_toList_iff.mp (List.mem_filter.mp hq).1
    exact blockAlternative_succeeds hcatalog hq' (hstatements q hq')
  unfold ruleBlock
  cases hproductions : s.productions.productionsOf n.id with
  | nil =>
    rw [hproductions] at hmem
    cases hmem
  | cons first rest =>
    rw [hproductions] at hall
    exact bind_succeeds hall fun as => ⟨_, rfl⟩

/-- The rule blocks of a set in which every production fits and every nonterminal has one. -/
theorem ruleBlocks_succeed (hcatalog : s.catalog = .ofProductions s.productions)
    (hfits : ∀ p ∈ s.productions.productions, p.Fits strict s.model s.productions.nonterminals)
    (hproductive : ∀ n ∈ s.productions.nonterminals,
      ∃ p ∈ s.productions.productions, p.lhs = n.id) :
    ∃ blocks, s.ruleBlocks = .ok blocks :=
  ruleBlocks_of_statements hcatalog (fun p hp => statements_succeed (hfits p hp)) hproductive

/-- Every artifact is written. -/
theorem write_succeeds (htags : s.model.TagsHaveVariants)
    (hcatalog : s.catalog = .ofProductions s.productions)
    (hfits : ∀ p ∈ s.productions.productions, p.Fits strict s.model s.productions.nonterminals)
    (hproductive : ∀ n ∈ s.productions.nonterminals,
      ∃ p ∈ s.productions.productions, p.lhs = n.id) (kind : ArtifactKind) :
    ∃ a, s.write kind = .ok a := by
  have hlayout : ∃ items, s.layout kind = .ok items := by
    cases kind with
    | classDeclarations | scanner => exact ⟨_, rfl⟩
    | classDefinitions => exact bind_succeeds (definitions_succeed htags) fun ds => ⟨_, rfl⟩
    | parserGrammar =>
      exact bind_succeeds (ruleBlocks_succeed hcatalog hfits hproductive) fun blocks => ⟨_, rfl⟩
  exact bind_succeeds hlayout fun items => ⟨_, rfl⟩

end ArtifactSource
end AnnotatedGrammar
