import Mathlib
import AnnotatedGrammar.Proofs.Language.Lowering
import AnnotatedGrammar.Proofs.Lowering.Whole

/-!
# Production sets keep the language of the grammar

The nonterminal of a rule derives exactly what the rule denotes, and the nonterminal of whole texts
what the start rule denotes. One inclusion reads the production set by the languages of the rules;
the other reads the rules by what the production set derives, and the languages of the rules are the
least ones.
-/

namespace AnnotatedGrammar

open ProductionDraft

namespace Lowering

variable {count : Nat} {σ : RuleReading} {d d' : ProductionDraft}

/-- Whatever a rule makes of its text, its productions have the language of its body. -/
theorem ruleProductions_makesProductions {sc : LoweringScope}
    (hnames : sc.model.symbols.NamesBelow count) (body : Expr) :
    MakesProductions count σ (ruleProductions sc body) sc.rule.id (meaning sc body) := by
  intro d u d' h
  unfold ruleProductions at h
  cases hrole : sc.rule.role with
  | builds c =>
    simp only [hrole] at h
    exact classProductions_makesProductions hnames c body false h
  | polymorphic c =>
    simp only [hrole] at h
    rw [← meaning_core]
    exact alternativeProductions_makesProductions hnames c body.core h
  | tagged c =>
    simp only [hrole] at h
    rw [← meaning_core]
    exact alternativeProductions_makesProductions hnames c body.core h
  | passthrough =>
    simp only [hrole] at h
    split at h
    · simp only [bind_eq_ok] at h
      obtain ⟨c, d₁, hc, hproductions⟩ := h
      obtain ⟨rfl, -⟩ := bearerClass_eq_ok hc
      exact bearerProductions_makesProductions hnames c body hproductions
    · simp only [bind_eq_ok] at h
      obtain ⟨⟨terms, position⟩, d₁, hterms, _, d₂, haction, hproduce⟩ := h
      obtain rfl := forwarding_eq_ok haction
      exact .ofLowersTo (flatten_addsTerms hnames body #[] hterms).lowersTo
        (produce_eq_ok hproduce)

/-- Work that gives each of several rules the productions of its body. -/
structure FillsRules (m : GrammarModel) (count : Nat) (σ : RuleReading) (d d' : ProductionDraft)
    (entries : List (RuleModel × Rule)) : Prop extends Grows d d' where
  inScope : d.Scoped count → (∀ entry ∈ entries, entry.1.id < count) → d'.Scoped count
  complete : ∀ ρ : TermReading, ρ.Closed d'.productions →
    ∀ entry ∈ entries, entry.2.body.language m.symbols ρ ≤ ρ entry.1.id
  sound : d.Scoped count → (∀ entry ∈ entries, entry.1.id < count) →
    (∀ entry ∈ entries, entry.2.body.language m.symbols σ ≤ σ entry.1.id) →
    ∀ ρ, d.Reads count σ ρ → ∃ ρ', d'.Reads count σ ρ'

theorem FillsRules.nil (m : GrammarModel) : FillsRules m count σ d d [] where
  toGrows := .refl d
  inScope h _ := h
  complete := by simp
  sound _ _ _ ρ h := ⟨ρ, h⟩

theorem FillsRules.cons {m : GrammarModel} {d₁ : ProductionDraft} {entry : RuleModel × Rule}
    {rest : List (RuleModel × Rule)}
    (h : Fills count σ d d₁ entry.1.id fun σ => entry.2.body.language m.symbols σ)
    (h' : FillsRules m count σ d₁ d' rest) : FillsRules m count σ d d' (entry :: rest) where
  toGrows := h.toGrows.trans h'.toGrows
  inScope hscoped hids := by
    rw [List.forall_mem_cons] at hids
    have hlhs := Nat.lt_of_lt_of_le hids.1 hscoped.count_le
    exact h'.inScope (h.inScope hscoped hlhs) hids.2
  complete ρ hclosed :=
    List.forall_mem_cons.mpr
      ⟨h.complete ρ (h'.toGrows.closed hclosed), h'.complete ρ hclosed⟩
  sound hscoped hids hbodies ρ hreads := by
    rw [List.forall_mem_cons] at hids hbodies
    have hlhs := Nat.lt_of_lt_of_le hids.1 hscoped.count_le
    have hle : entry.2.body.language m.symbols σ ≤ ρ entry.1.id := by
      rw [hreads.rules _ hids.1]
      exact hbodies.1
    obtain ⟨ρ₁, -, hreads₁⟩ := h.sound hscoped hlhs ρ hreads hle
    exact h'.sound (h.inScope hscoped hlhs) hids.2 hbodies.2 ρ₁ hreads₁

theorem lowerRules_fillsRules {m : GrammarModel} {preferences : LoweringPreferences}
    (hnames : m.symbols.NamesBelow count) {u : Unit} (h : lowerRules m preferences d = .ok u d') :
    FillsRules m count σ d d' (m.rules.toList.zip m.grammar.rules.toList) := by
  unfold lowerRules at h
  generalize m.rules.toList.zip m.grammar.rules.toList = entries at h ⊢
  induction entries generalizing d with
  | nil =>
    simp only [List.forM_eq_forM, List.forM_nil, pure_eq_ok] at h
    obtain ⟨-, rfl⟩ := h
    exact .nil m
  | cons entry rest ih =>
    simp only [List.forM_eq_forM, List.forM_cons, bind_eq_ok, get_eq_ok] at h
    obtain ⟨_, d₁, ⟨_, _, ⟨rfl, rfl⟩, hrule⟩, hrest⟩ := h
    exact .cons (ruleProductions_makesProductions (σ := σ) hnames _ hrule) (ih hrest)

theorem declareAccept_lowersTo {m : GrammarModel} {accept : NonterminalId}
    (hstart : m.start < count) (h : declareAccept m d = .ok accept d') :
    LowersTo count σ d d' [.nonterminal accept] (· m.start) := by
  obtain ⟨d₁, action, hdeclare, hproduce⟩ := declareAccept_eq_ok h
  refine .ofFills hdeclare (.ofLowersTo ?_ hproduce)
  refine ⟨.refl d₁, fun hs => ⟨hs, ?_⟩, fun ρ _ => ?_, fun _ ρ hr => ⟨ρ, fun _ _ => rfl, hr, ?_⟩⟩
  · simpa [Term.Below] using Nat.lt_of_lt_of_le hstart hs.count_le
  · simp [Term.language]
  · simp [Term.language, hr.rules m.start hstart]

end Lowering

namespace GrammarModel

variable {m : GrammarModel} {preferences : LoweringPreferences} {set : ProductionSet}

/-- What a production set derives is what the rules of its grammar denote. -/
theorem lower_language (hm : m.Numbered) (h : (m.lower preferences).result = .ok set) :
    (∀ id < m.rules.size, set.language id = m.ruleLanguage id) ∧
      set.language set.start = m.ruleLanguage m.start := by
  obtain ⟨accept, d, hlower, rfl, -⟩ := lower_eq_ok h
  obtain ⟨d₁, d₂, hdeclare, ⟨u, hrules⟩, haccept⟩ := Lowering.lowerModel_eq_ok hlower
  have hfills (σ : RuleReading) := Lowering.lowerRules_fillsRules (σ := σ) hm.names hrules
  have hlowers (σ : RuleReading) :=
    Lowering.declareAccept_lowersTo (σ := σ) hm.start_lt haccept
  have hfixed : m.bodyLanguages m.ruleLanguage = m.ruleLanguage := m.bodyLanguages.map_lfp
  -- the rules have nonterminals and no productions yet
  have hscoped : d₁.Scoped m.rules.size := hdeclare.inScope
  have hreads : d₁.Reads m.rules.size m.ruleLanguage m.ruleLanguage := by
    have hnone : d₁.productions = #[] := hdeclare.productions_eq
    exact ⟨by simp [TermReading.Closed, hnone], fun _ _ => rfl⟩
  have hids : ∀ entry ∈ m.rules.toList.zip m.grammar.rules.toList, entry.1.id < m.rules.size :=
    fun entry hentry => (hm.of_mem_zip hentry).1
  have hbodies : ∀ entry ∈ m.rules.toList.zip m.grammar.rules.toList,
      entry.2.body.language m.symbols m.ruleLanguage ≤ m.ruleLanguage entry.1.id := by
    intro entry hentry
    rw [← bodyLanguage_some (hm.of_mem_zip hentry).2]
    exact le_of_eq (congrFun hfixed _)
  -- a closed reading that reads the rules as they should be read
  obtain ⟨ρ₂, hreads₂⟩ := (hfills m.ruleLanguage).sound hscoped hids hbodies _ hreads
  have hscoped₂ := (hfills m.ruleLanguage).inScope hscoped hids
  obtain ⟨ρ, -, hreads₃, hle⟩ := (hlowers m.ruleLanguage).sound hscoped₂ ρ₂ hreads₂
  have hclosed : ρ.Closed (d.finish accept).productions :=
    fun p hp => hreads₃.closed p (ProductionDraft.mem_finish.mp hp)
  -- what is derivable is a closed reading
  have hderivable : TermReading.Closed (d.finish accept).language d.productions :=
    fun p hp => (d.finish accept).closed_language p (ProductionDraft.mem_finish.mpr hp)
  have hcomplete : m.ruleLanguage ≤ (d.finish accept).language := by
    refine m.bodyLanguages.lfp_le fun id => ?_
    change m.bodyLanguage _ id ≤ _
    cases hrule : m.grammar.rules[id]? with
    | none => simp [bodyLanguage_none hrule]
    | some rule =>
      obtain ⟨entry, hentry, rfl, rfl⟩ := hm.exists_mem_zip hrule
      rw [bodyLanguage_some hrule]
      exact (hfills m.ruleLanguage).complete _ ((hlowers m.ruleLanguage).toGrows.closed hderivable)
        entry hentry
  refine ⟨fun id hid => le_antisymm ?_ (hcomplete id), le_antisymm ?_ ?_⟩
  · rw [← hreads₃.rules id hid]
    exact fun text htext => htext.mem_of_closed hclosed
  · intro text htext
    have hmem : text ∈ ρ accept := ProductionSet.Derives.mem_of_closed hclosed htext
    simp only [Term.languageInRow_cons, Term.languageInRow_nil, mul_one, Term.language] at hle
    exact hle hmem
  · have haccepts := (hlowers m.ruleLanguage).complete _ hderivable
    refine (hcomplete m.start).trans (haccepts.trans ?_)
    simp [Term.language, ProductionDraft.finish]

/-- The nonterminals of the rules and of whole texts are where the production set says. -/
theorem lower_origin (hm : m.Numbered) (h : (m.lower preferences).result = .ok set) :
    (∀ id < m.rules.size, (set.nonterminal id).origin = .rule id) ∧
      (set.nonterminal set.start).origin = .accept := by
  obtain ⟨accept, d, hlower, rfl, -⟩ := lower_eq_ok h
  obtain ⟨d₁, d₂, hdeclare, ⟨u, hrules⟩, haccept⟩ := Lowering.lowerModel_eq_ok hlower
  have hgrows₂ := (Lowering.lowerRules_fillsRules (σ := m.ruleLanguage) hm.names hrules).toGrows
  obtain ⟨d₃, action, hdeclare₃, hproduce⟩ := Lowering.declareAccept_eq_ok haccept
  have hgrows : d₁.Grows d := hgrows₂.trans (hdeclare₃.grows.trans hproduce.grows)
  constructor
  · intro id hid
    have hrule : m.rules.toList[id]? = some m.rules[id] := by simp [hid]
    obtain ⟨name, hname⟩ := hdeclare.declares id _ hrule
    have hempty : (default : ProductionDraft).nonterminals.size = 0 := rfl
    rw [hempty, Nat.zero_add, hm.rule_id id hid] at hname
    have hlt : id < d₁.nonterminals.size := (Array.getElem?_eq_some_iff.mp hname).1
    have hfound := (hgrows.keeps_nonterminal id hlt).trans hname
    simp [ProductionSet.nonterminal, ProductionDraft.finish, Array.getD_eq_getD_getElem?, hfound]
  · obtain ⟨name, hname⟩ := hdeclare₃.getElem?_eq
    simp [ProductionSet.nonterminal, ProductionDraft.finish, Array.getD_eq_getD_getElem?,
      hproduce.nonterminals_eq, hname]

end GrammarModel

/-- Lowering keeps the language of an accepted grammar: the nonterminal of each rule derives just
the texts that the rule denotes, and the nonterminal of whole texts those of the start rule. -/
theorem GenerationOptions.derives_iff_mem_ruleLanguage {o : GenerationOptions}
    {source : List Char} {m : GrammarModel} {set : ProductionSet}
    (haccepted : (o.frontEnd source).result = .ok m) (hlowered : (o.lower m).result = .ok set) :
    (∀ id < m.grammar.rules.size, (set.nonterminal id).origin = .rule id ∧
        ∀ text, set.Derives id text ↔ text ∈ m.ruleLanguage id) ∧
      (set.nonterminal set.start).origin = .accept ∧
        ∀ text, set.Derives set.start text ↔ text ∈ m.ruleLanguage m.start := by
  have hm := frontEnd_numbered haccepted
  rw [lower, Outcome.ofStage_result_eq_ok] at hlowered
  obtain ⟨hrules, hstart⟩ := GrammarModel.lower_language hm hlowered
  obtain ⟨horigin, haccept⟩ := GrammarModel.lower_origin hm hlowered
  refine ⟨fun id hid => ?_, haccept, fun text => ?_⟩
  · have hlt : id < m.rules.size := hm.rules_size ▸ hid
    refine ⟨horigin id hlt, fun text => ?_⟩
    rw [← hrules id hlt]
    rfl
  · rw [← hstart]
    rfl

set_option maxRecDepth 10000 in
theorem GenerationOptions.derives_iff_mem_ruleLanguage_optional_rule :
    ∃ (o : GenerationOptions) (m : GrammarModel) (set : ProductionSet),
      (o.frontEnd "S=\"a\" T?;T=\"b\";".toList).result = .ok m ∧
        (o.lower m).result = .ok set ∧
        (∀ id < m.grammar.rules.size, (set.nonterminal id).origin = .rule id ∧
          ∀ text, set.Derives id text ↔ text ∈ m.ruleLanguage id) ∧
        (set.nonterminal set.start).origin = .accept ∧
          ∀ text, set.Derives set.start text ↔ text ∈ m.ruleLanguage m.start := by
  have hok : ((frontEnd ⟨default, "sample", false, default⟩ "S=\"a\" T?;T=\"b\";".toList) >>=
      lower ⟨default, "sample", false, default⟩).result.isOk = true := by
    cbv
  obtain ⟨set, hset⟩ := Outcome.exists_of_isOk hok
  obtain ⟨m, haccepted, hlowered⟩ := Outcome.bind_result_eq_ok.mp hset
  exact ⟨_, m, set, haccepted, hlowered, derives_iff_mem_ruleLanguage haccepted hlowered⟩

end AnnotatedGrammar
