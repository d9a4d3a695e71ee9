import AnnotatedGrammar.Proofs.Artifact.Attempts
import AnnotatedGrammar.Proofs.Artifact.Statements

/-!
# What the check of a production set is worth

The check holds every action against the terms that it reads. Against the nonterminal that it gives
a value to, it holds some actions only: an instance or a forwarded value may still go to a
nonterminal that has no type. What passes the check is therefore written, and assigns to typed
nonterminals alone, exactly if no action gives a value to an untyped nonterminal.
-/

namespace AnnotatedGrammar

/-! ## Values and types of nonterminals -/

/-- Whether the action gives its nonterminal a value. -/
def Action.givesValue : Action → Bool
  | .nothing | .accept _ => false
  | _ => true

/-- Whether the statement assigns to the value of the nonterminal. -/
def Statement.assigns : Statement → Bool
  | .yieldNode | .yieldSlot _ | .yieldNothing | .appendSlot _ | .prependSlot _ => true
  | _ => false

/-- The rule block assigns to the value of its nonterminal. -/
def RuleBlock.Assigns (b : RuleBlock) : Prop :=
  ∃ a ∈ b.alternatives, a.statements.any Statement.assigns = true

/-- The nonterminal has a type in the parser grammar. -/
def Nonterminal.IsTyped (n : Nonterminal) : Prop :=
  n.content.hasValue = true ∧ n.origin ≠ .accept

namespace ProductionSet

variable {set : ProductionSet} {m : GrammarModel} {p : Production}

/-- Every nonterminal to which an action gives a value has a type. -/
def Typed (set : ProductionSet) : Prop :=
  ∀ p ∈ set.productions, p.action.givesValue = true → (set.nonterminal p.lhs).IsTyped

/-- Every nonterminal has its index and a production, and every production has a nonterminal. -/
structure Covered (set : ProductionSet) : Prop where
  id_eq : ∀ (i : NonterminalId) n, set.nonterminals[i]? = some n → n.id = i
  lhs_lt : ∀ p ∈ set.productions, p.lhs < set.nonterminals.size
  productive : ∀ n ∈ set.nonterminals, ∃ p ∈ set.productions, p.lhs = n.id

/-- The nonterminal of a production of one of the nonterminals. -/
theorem Covered.nonterminal_eq (h : set.Covered) {n : Nonterminal} (hn : n ∈ set.nonterminals)
    (hlhs : p.lhs = n.id) : set.nonterminal p.lhs = n := by
  obtain ⟨i, hi, rfl⟩ := Array.mem_iff_getElem.mp hn
  have hid := h.id_eq i _ (Array.getElem?_eq_getElem hi)
  rw [hlhs, hid, nonterminal, Array.getD_eq_getD_getElem?, Array.getElem?_eq_getElem hi]
  rfl

theorem Covered.nonterminal_mem (h : set.Covered) (hp : p ∈ set.productions) :
    set.nonterminal p.lhs ∈ set.nonterminals ∧ (set.nonterminal p.lhs).id = p.lhs := by
  have hlt := h.lhs_lt p hp
  have hget : set.nonterminals[p.lhs]? = some (set.nonterminal p.lhs) := by
    rw [nonterminal, Array.getD_eq_getD_getElem?, Array.getElem?_eq_getElem hlt]
    rfl
  exact ⟨Array.mem_of_getElem? hget, h.id_eq p.lhs _ hget⟩

/-- The check of a set is the check of each of its productions. -/
theorem check_eq_ok_iff :
    set.check m = .ok () ↔ ∀ p ∈ set.productions, set.checkProduction m p = .ok () := by
  rw [check, forM_eq_ok]
  simp only [Array.mem_toList_iff]

end ProductionSet

/-- What a model with settled rules is lowered to passes the check and is covered. -/
theorem GrammarModel.lower_covered {strict : Prop} {m : GrammarModel}
    {preferences : LoweringPreferences} {set : ProductionSet} (hm : m.Numbered)
    (howned : m.FieldsOwned)
    (hsettled : ∀ entry ∈ m.rules.toList.zip m.grammar.rules.toList,
      Settled.Rule strict m entry.1 entry.2.body ∧ entry.2.body.Regular strict m)
    (h : (m.lower preferences).result = .ok set) : set.check m = .ok () ∧ set.Covered := by
  obtain ⟨-, -, hproductive⟩ := lower_fits hm howned hsettled h
  obtain ⟨accept, d, hlower, rfl, hcheck⟩ := lower_eq_ok h
  obtain ⟨start, d', hlower', hscoped, -⟩ := lowerModel_succeeds preferences hm howned hsettled
  rw [hlower] at hlower'
  cases hlower'
  exact ⟨hcheck, hscoped.id_eq, fun p hp => hscoped.lhs_lt p (ProductionDraft.mem_finish.mp hp),
    hproductive⟩

namespace ArtifactSource

variable {s : ArtifactSource} {p : Production} {statements : List Statement}

/-! ## Statements of one action -/

/-- The statements of an action assign to its nonterminal exactly if the action gives a value. -/
theorem any_assigns_statements (h : s.statements p = .ok statements) :
    statements.any Statement.assigns = p.action.givesValue := by
  unfold ArtifactSource.statements at h
  cases haction : p.action with
  | nothing | accept | prepend | singleton =>
    simp only [haction] at h
    obtain rfl := Except.ok.inj h
    rfl
  | construct c steps =>
    simp only [haction] at h
    obtain rfl := Except.ok.inj h
    simp [Statement.assigns, Action.givesValue]
  | forward position =>
    simp only [haction] at h
    obtain ⟨type, -, h⟩ := except_bind_eq_ok h
    obtain rfl := Except.ok.inj h
    split <;> rfl
  | absent | emptyList =>
    simp only [haction] at h
    obtain ⟨type, -, h⟩ := except_bind_eq_ok h
    obtain rfl := Except.ok.inj h
    rfl
  | choose c index payload =>
    simp only [haction] at h
    split at h
    · cases h
    · obtain rfl := Except.ok.inj h
      simp [Statement.assigns, Action.givesValue]

/-! ## The parser grammar -/

/-- The types that the parser grammar declares are those of its typed nonterminals. -/
theorem mem_nonterminalTypes {type name : String} :
    (type, name) ∈ s.nonterminalTypes ↔
      ∃ n ∈ s.productions.nonterminals, n.IsTyped ∧
        s.model.contentType? n.content = some type ∧ n.name = name := by
  unfold nonterminalTypes Nonterminal.IsTyped
  simp only [List.mem_filterMap, Array.mem_toList_iff]
  refine exists_congr fun n => and_congr_right fun _ => ?_
  by_cases horigin : n.origin = .accept
  · simp [horigin]
  · cases hcontent : n.content <;>
      simp [horigin, GrammarModel.contentType?, Content.hasValue]

theorem ruleBlock_of_ruleBlocks {blocks : List RuleBlock} (h : s.ruleBlocks = .ok blocks)
    {n : Nonterminal} (hn : n ∈ s.productions.nonterminals) : ∃ b, s.ruleBlock n = .ok b := by
  obtain ⟨b, -, hb⟩ := exists_mem_of_mapM_eq_ok h (Array.mem_toList_iff.mpr hn)
  exact ⟨b, hb⟩

theorem mem_productionsOf {n : NonterminalId} :
    p ∈ s.productions.productionsOf n ↔ p ∈ s.productions.productions ∧ p.lhs = n := by
  simp [ProductionSet.productionsOf]

/-- Every production of a nonterminal with a rule block has an alternative there. -/
theorem exists_alternative {n : Nonterminal} {b : RuleBlock} (h : s.ruleBlock n = .ok b)
    (hp : p ∈ s.productions.productions) (hlhs : p.lhs = n.id) :
    ∃ a ∈ b.alternatives, s.statements p = .ok a.statements := by
  obtain ⟨a, ha, halternative⟩ :=
    exists_mem_of_mapM_eq_ok (ruleBlock_parts h).2 (mem_productionsOf.mpr ⟨hp, hlhs⟩)
  exact ⟨a, ha, (blockAlternative_parts halternative).2⟩

/-- Every alternative of a rule block is that of a production of its nonterminal. -/
theorem exists_production {n : Nonterminal} {b : RuleBlock} {a : BlockAlternative}
    (h : s.ruleBlock n = .ok b) (ha : a ∈ b.alternatives) :
    ∃ p ∈ s.productions.productions, p.lhs = n.id ∧ s.statements p = .ok a.statements := by
  obtain ⟨p, hp, halternative⟩ := exists_of_mapM_eq_ok (ruleBlock_parts h).2 a ha
  obtain ⟨hmem, hlhs⟩ := mem_productionsOf.mp hp
  exact ⟨p, hmem, hlhs, (blockAlternative_parts halternative).2⟩

/-- The parser grammar of a checked set is written exactly if no value is forwarded to a nonterminal
without one. -/
theorem write_parserGrammar_iff (hcatalog : s.catalog = .ofProductions s.productions)
    (hcheck : s.productions.check s.model = .ok ()) (hcovered : s.productions.Covered) :
    (∃ a, s.write .parserGrammar = .ok a) ↔
      ∀ p ∈ s.productions.productions, ∀ position, p.action = .forward position →
        (s.productions.nonterminal p.lhs).content.hasValue = true := by
  have hproductions := ProductionSet.check_eq_ok_iff.mp hcheck
  constructor
  · rintro ⟨a, h⟩ p hp
    obtain ⟨items, hlayout, -⟩ := except_bind_eq_ok h
    obtain ⟨blocks, hblocks, -⟩ := except_bind_eq_ok hlayout
    obtain ⟨b, hb⟩ := ruleBlock_of_ruleBlocks hblocks (hcovered.nonterminal_mem hp).1
    obtain ⟨a, -, hstatements⟩ := exists_alternative hb hp (hcovered.nonterminal_mem hp).2.symm
    exact (statements_succeed_iff (hproductions p hp)).mp ⟨a.statements, hstatements⟩
  · intro hforward
    have hblocks : ∃ blocks, s.ruleBlocks = .ok blocks :=
      ruleBlocks_of_statements hcatalog
        (fun p hp => (statements_succeed_iff (hproductions p hp)).mpr (hforward p hp))
        hcovered.productive
    exact bind_succeeds (bind_succeeds hblocks fun blocks => ⟨_, rfl⟩) fun items => ⟨_, rfl⟩

/-- The parser grammar of a checked set is written and assigns to typed nonterminals alone exactly
if every nonterminal that is given a value has a type. -/
theorem assigns_typed_iff (hcatalog : s.catalog = .ofProductions s.productions)
    (hcheck : s.productions.check s.model = .ok ()) (hcovered : s.productions.Covered) :
    ((∃ a, s.write .parserGrammar = .ok a) ∧
      ∀ n ∈ s.productions.nonterminals, ∀ b, s.ruleBlock n = .ok b → b.Assigns → n.IsTyped) ↔
        s.productions.Typed := by
  rw [write_parserGrammar_iff hcatalog hcheck hcovered]
  constructor
  · rintro ⟨hforward, htyped⟩ p hp hgives
    obtain ⟨hn, hid⟩ := hcovered.nonterminal_mem hp
    have hblocks : ∃ blocks, s.ruleBlocks = .ok blocks :=
      ruleBlocks_of_statements hcatalog (fun q hq => (statements_succeed_iff
        (ProductionSet.check_eq_ok_iff.mp hcheck q hq)).mpr (hforward q hq)) hcovered.productive
    obtain ⟨blocks, hblocks⟩ := hblocks
    obtain ⟨b, hb⟩ := ruleBlock_of_ruleBlocks hblocks hn
    obtain ⟨a, ha, hstatements⟩ := exists_alternative hb hp hid.symm
    exact htyped _ hn b hb ⟨a, ha, (any_assigns_statements hstatements).trans hgives⟩
  · intro htyped
    constructor
    · intro p hp position haction
      exact (htyped p hp (by rw [haction]; rfl)).1
    · rintro n hn b hb ⟨a, ha, hassigns⟩
      obtain ⟨p, hp, hlhs, hstatements⟩ := exists_production hb ha
      have hgives := (any_assigns_statements hstatements).symm.trans hassigns
      rw [← hcovered.nonterminal_eq hn hlhs]
      exact htyped p hp hgives

end ArtifactSource

/-- A value that is forwarded to a nonterminal without a type passes the check. -/
example :
    let set : ProductionSet :=
      { nonterminals := #[⟨0, "A", .nothing, .rule 0⟩]
        productions := #[⟨0, [.terminal (.pattern .number)], .forward 0, none⟩]
        start := 0
        warnings := [] }
    set.check default = .ok () ∧ ¬set.Typed := by
  refine ⟨rfl, fun htyped => ?_⟩
  have hvalue := (htyped _ (Array.mem_singleton.mpr rfl) rfl).1
  cases hvalue

end AnnotatedGrammar
