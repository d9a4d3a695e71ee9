import AnnotatedGrammar.Proofs.Lowering.Valued
import AnnotatedGrammar.Proofs.Lowering.Whole

/-!
# Settled models are lowered

Where the analysis has settled the body of every rule, lowering the model succeeds. Every production
of the resulting set fits, so the set passes its check, and every nonterminal has a production.
-/

namespace AnnotatedGrammar

open ProductionDraft

/-- What is settled about the body of a rule, by what the rule makes of its text. -/
def Settled.Rule (strict : Prop) (m : GrammarModel) (rule : RuleModel) (body : Expr) : Prop :=
  match rule.role with
  | .builds c => HasKind m c .concrete ∧ Body strict m c body false
  | .polymorphic c | .tagged c =>
    rule.value = some (.ofClass c) ∧ ∃ info branches, body.core = .alternation info branches ∧
      Choice strict m c branches
  | .passthrough => Element strict m false body rule.value

namespace Lowering

open Settled

variable {strict : Prop} {m : GrammarModel} {d : ProductionDraft}

/-- The productions of a rule with a settled body. -/
theorem ruleProductions_give (sc : LoweringScope)
    (hnames : sc.model.symbols.NamesBelow sc.model.rules.size)
    (howned : sc.model.FieldsOwned) {body : Expr}
    (hsettled : Settled.Rule strict sc.model sc.rule body)
    (hregular : body.Regular strict sc.model) :
    GivesProductions strict sc.model (ruleProductions sc body) sc.rule.id
      (· = .ofValue? sc.rule.value) True := by
  have hchoice {c : ClassId} (hvalue : sc.rule.value = some (.ofClass c))
      (h : ∃ info branches, body.core = .alternation info branches ∧
        Choice strict sc.model c branches) :
      GivesProductions strict sc.model (alternativeProductions sc sc.rule.id c body.core)
        sc.rule.id (· = .ofValue? sc.rule.value) True := by
    obtain ⟨info, branches, hcore, hchoice⟩ := h
    have hgives := alternativeProductions_give hnames howned sc.rule.id c body.core info branches
      hcore hchoice hregular.core
    refine hgives.mono ?_
    rintro content rfl
    rw [hvalue]
    exact ⟨_, rfl, .refl _⟩
  unfold ruleProductions
  unfold Settled.Rule at hsettled
  cases hrole : sc.rule.role with
  | builds c =>
    simp only [hrole] at hsettled
    exact (classProductions_give hnames howned sc.rule.id c body false hsettled.2 hregular
      hsettled.1).mono fun _ _ => trivial
  | polymorphic c | tagged c =>
    simp only [hrole] at hsettled
    exact hchoice hsettled.1 hsettled.2
  | passthrough =>
    simp only [hrole] at hsettled
    have hforward := (flatten_gives hnames howned body #[] _ hsettled hregular).forward
      (Value.agrees_refl sc.rule.value) body sc.rule.id body.id
    by_cases hmarker : (body.hasMarker .classOf && !body.hasMarker .skip) = true
    · simp only [hmarker, if_true]
      simp only [Bool.and_eq_true, Bool.not_eq_true'] at hmarker
      generalize hvalue : sc.rule.value = value at hsettled ⊢
      cases hsettled with
      | skipped hskip => simp [hmarker.2] at hskip
      | shaped _ hmarker' => exact absurd hmarker.1 hmarker'
      | bearing _ _ _ _ hbearer =>
        rw [bearerClass_eq hbearer, pure_bind]
        refine (bearerProductions_give hnames howned sc.rule.id _ body hbearer hregular).mono ?_
        rintro content rfl
        exact ⟨_, rfl, .refl _⟩
    · simp only [hmarker]
      exact hforward

/-- The rules of a list, one after another, get their productions. -/
theorem forM_rules_gives (hnames : m.symbols.NamesBelow m.rules.size) (howned : m.FieldsOwned)
    (preferences : LoweringPreferences) (entries : List (RuleModel × Rule))
    (hentries : ∀ entry ∈ entries, m.rule? entry.1.id = some entry.1 ∧
      Settled.Rule strict m entry.1 entry.2.body ∧ entry.2.body.Regular strict m)
    (hready : m.Ready d) :
    Succeeds (entries.forM fun entry => do
      let owner := ((← get).nonterminals.getD entry.1.id default).name
      ruleProductions ⟨m, entry.1, owner, preferences.synthesizedRules⟩ entry.2.body) d
      fun _ d' => d.Completes strict m m.rules.size d' ∧
        ∀ entry ∈ entries, ∃ p ∈ d'.productions, p.lhs = entry.1.id := by
  induction entries generalizing d with
  | nil => exact .pure ⟨.refl d, by simp⟩
  | cons entry rest ih =>
    rw [List.forM_eq_forM, List.forM_cons]
    obtain ⟨⟨hrule, hsettled, hregular⟩, hrest⟩ := List.forall_mem_cons.mp hentries
    have hlt : entry.1.id < d.nonterminals.size :=
      Nat.lt_of_lt_of_le (Array.getElem?_eq_some_iff.mp hrule).1 hready.inScope.count_le
    have hfirst := ruleProductions_give
      ⟨m, entry.1, (d.nonterminals.getD entry.1.id default).name, preferences.synthesizedRules⟩
      hnames howned hsettled hregular hready hlt (hready.content_eq _ _ hrule)
    have hget : Succeeds (get : Lowering ProductionDraft) d fun a d' => a = d ∧ d' = d :=
      ⟨d, d, rfl, rfl, rfl⟩
    rw [bind_assoc]
    refine hget.bind fun found d₁ hfound => ?_
    obtain ⟨rfl, rfl⟩ := hfound
    refine hfirst.bind fun _ d₂ h₂ => ?_
    refine (ih hrest (hready.completes h₂.1)).imp fun _ d₃ h₃ => ⟨h₂.1.trans h₃.1, ?_⟩
    refine List.forall_mem_cons.mpr ⟨?_, h₃.2⟩
    obtain ⟨p, hp, hlhs⟩ := h₂.2 trivial
    exact ⟨p, h₃.1.keeps p hp, hlhs⟩

variable (strict) in
/-- The nonterminal of whole texts gets its production. -/
theorem declareAccept_succeeds (hstart : m.start < m.rules.size) (hready : m.Ready d) :
    Succeeds (declareAccept m) d fun _ d' => d.Completes strict m m.rules.size d' := by
  have hlt := Nat.lt_of_lt_of_le hstart hready.inScope.count_le
  have hrule : m.rule? m.start = some m.rules[m.start] := Array.getElem?_eq_getElem hstart
  have hcontent := hready.content_eq m.start _ hrule
  unfold declareAccept
  have hget : Succeeds (get : Lowering ProductionDraft) d fun a d' => a = d ∧ d' = d :=
    ⟨d, d, rfl, rfl, rfl⟩
  refine hget.bind fun found d₁ hfound => ?_
  obtain ⟨rfl, rfl⟩ := hfound
  rw [hcontent]
  refine (declare_succeeds _ _ _ d₁).bind fun n d₂ hn => ?_
  have hstart₂ : m.start < d₂.nonterminals.size := Nat.lt_of_lt_of_le hlt hn.grows.size_le
  have hstartContent := (hn.grows.content_eq hlt).trans hcontent
  have hfits : (⟨n, [.nonterminal m.start],
      if (Content.ofValue? m.rules[m.start].value).hasValue then .accept 0 else .nothing, none⟩ :
        Production).Fits strict m d₂.nonterminals := by
    have htarget := hn.content_eq
    cases hvalue : m.rules[m.start].value with
    | none =>
      rw [hvalue] at htarget
      exact htarget
    | some v =>
      rw [hvalue] at htarget hstartContent
      exact ⟨v, v, ⟨_, rfl, hstartContent⟩, htarget, .refl v⟩
  have hbody : ∀ t ∈ [Term.nonterminal m.start], t.Below d₂.nonterminals.size :=
    fun t ht => (List.mem_singleton.mp ht) ▸ hstart₂
  refine (produce_gives hn.lt_size hbody hfits).bind fun _ d₃ h₃ => .pure ?_
  exact .ofDeclares hn h₃.1 h₃.2

end Lowering

namespace GrammarModel

open Lowering

variable {strict : Prop} {m : GrammarModel}

/-- The declared nonterminals of the rules are all that lowering the rules relies on. -/
theorem ready_of_declaresRules {d : ProductionDraft}
    (h : DeclaresRules default d m.rules.toList) : m.Ready d where
  inScope := h.inScope
  content_eq id rule hrule := by
    have hget : m.rules.toList[id]? = some rule := by simpa [rule?] using hrule
    obtain ⟨name, hname⟩ := h.getElem?_eq hget
    rw [Array.getD_eq_getD_getElem?, hname]
    rfl

theorem declareRules_succeeds (m : GrammarModel) :
    Succeeds (declareRules m) default fun _ d => DeclaresRules default d m.rules.toList := by
  have hok (rules : List RuleModel) (d : ProductionDraft) : ∃ d', (rules.forM fun rule => do
      discard (declare rule.symbol (.ofValue? rule.value) (.rule rule.id))) d = .ok () d' := by
    induction rules generalizing d with
    | nil => exact ⟨d, rfl⟩
    | cons rule rest ih =>
      rw [List.forM_eq_forM, List.forM_cons]
      obtain ⟨n, d₁, hn, -⟩ := declare_succeeds rule.symbol (.ofValue? rule.value)
        (.rule rule.id) d
      obtain ⟨d₂, hrest⟩ := ih d₁
      exact ⟨d₂, bind_eq_ok.mpr ⟨(), d₁, discard_eq_ok.mpr ⟨n, hn⟩, hrest⟩⟩
  obtain ⟨d', h⟩ := hok m.rules.toList default
  exact ⟨(), d', h, declareRules_declaresRules h⟩

/-- A model with settled rules is lowered; all productions fit, and every nonterminal has one. -/
theorem lowerModel_succeeds (preferences : LoweringPreferences) (hm : m.Numbered)
    (howned : m.FieldsOwned)
    (hsettled : ∀ entry ∈ m.rules.toList.zip m.grammar.rules.toList,
      Settled.Rule strict m entry.1 entry.2.body ∧ entry.2.body.Regular strict m) :
    Succeeds (lowerModel m preferences) default fun _ d =>
      d.Scoped m.rules.size ∧ (∀ p ∈ d.productions, p.Fits strict m d.nonterminals) ∧
        ∀ n < d.nonterminals.size, ∃ p ∈ d.productions, p.lhs = n := by
  unfold lowerModel
  refine (declareRules_succeeds m).bind fun _ d₁ h₁ => ?_
  have hready := ready_of_declaresRules h₁
  have hentries : ∀ entry ∈ m.rules.toList.zip m.grammar.rules.toList,
      m.rule? entry.1.id = some entry.1 ∧ Settled.Rule strict m entry.1 entry.2.body ∧
        entry.2.body.Regular strict m :=
    fun entry hentry => ⟨hm.rule?_of_mem_zip hentry, hsettled entry hentry⟩
  refine (forM_rules_gives hm.names howned preferences _ hentries hready).bind fun _ d₂ h₂ => ?_
  refine (declareAccept_succeeds strict hm.start_lt (hready.completes h₂.1)).imp
    fun _ d₃ h₃ => ?_
  have hcompletes := h₂.1.trans h₃
  have hnone : d₁.productions = #[] := h₁.productions_eq
  refine ⟨hcompletes.inScope hready.inScope, fun p hp => ?_, fun n hn => ?_⟩
  · rcases hcompletes.fits hready.inScope p hp with hold | hfits
    · simp [hnone] at hold
    · exact hfits
  · by_cases hlt : n < d₁.nonterminals.size
    · obtain ⟨rule, hrule⟩ : ∃ rule, m.grammar.rules[n]? = some rule := by
        have hsize : d₁.nonterminals.size = m.rules.toList.length :=
          h₁.size_eq.trans (Nat.zero_add _)
        rw [hsize, Array.length_toList, hm.rules_size] at hlt
        exact ⟨_, Array.getElem?_eq_getElem hlt⟩
      obtain ⟨entry, hentry, rfl, -⟩ := hm.exists_mem_zip hrule
      obtain ⟨p, hp, hlhs⟩ := h₂.2 entry hentry
      exact ⟨p, h₃.keeps p hp, hlhs⟩
    · exact hcompletes.productive n (Nat.not_lt.mp hlt) hn

end GrammarModel

namespace ProductionSet

variable {strict : Prop} {m : GrammarModel} {set : ProductionSet} {p : Production}

theorem readAt_eq_ok {position : Nat} {content : Content}
    (h : Term.CarriesAt set.nonterminals p.body position content)
    (hvalue : content.hasValue = true) : set.readAt p position = .ok content := by
  obtain ⟨t, ht, hcontent⟩ := h
  unfold readAt contentOf
  rw [ht, Option.map_some, hcontent]
  cases content with
  | nothing => cases hvalue
  | value | fragment => rfl

theorem checkRead_eq_ok {position : Nat} {content : Content}
    (h : Term.CarriesAt set.nonterminals p.body position content)
    (hvalue : content.hasValue = true) : set.checkRead p position = .ok () := by
  unfold checkRead
  rw [readAt_eq_ok h hvalue]
  rfl

theorem checkRead_of_flowsAt {position : Nat} {target : Content}
    (h : Term.FlowsAt strict m set.nonterminals p.body position target) :
    set.checkRead p position = .ok () := by
  obtain ⟨v, w, hcarries, -⟩ := h
  exact checkRead_eq_ok hcarries rfl

theorem checkStep_eq_ok {c : ClassId} {step : Step}
    (h : step.Fits strict m set.nonterminals c p.body) : set.checkStep m p c step = .ok () := by
  cases step with
  | assign field source mode =>
    obtain ⟨f, hf, howner, hsource⟩ := h
    unfold checkStep
    simp only [hf, howner, ne_eq, not_true_eq_false, if_false]
    cases source with
    | lexeme text => rfl
    | position i =>
      obtain ⟨v, hcarries, -⟩ := hsource
      exact checkRead_eq_ok hcarries rfl
  | merge position many =>
    have hread : set.readAt p position = .ok (.fragment c many) := readAt_eq_ok h rfl
    unfold checkStep
    simp [hread, bind, Except.bind, pure, Except.pure]

/-- Every check of a list passes. -/
theorem forM_eq_ok {α : Type} {f : α → Checked Unit} {xs : List α} :
    xs.forM f = .ok () ↔ ∀ x ∈ xs, f x = .ok () := by
  induction xs with
  | nil => simp [List.forM, pure, Except.pure]
  | cons x rest ih =>
    rw [List.forM_eq_forM, List.forM_cons, List.forall_mem_cons]
    rw [List.forM_eq_forM] at ih
    cases f x with
    | error fault => simp [bind, Except.bind]
    | ok u => simpa [bind, Except.bind] using ih

/-- A production that fits passes its check. -/
theorem checkProduction_eq_ok (h : p.Fits strict m set.nonterminals) :
    set.checkProduction m p = .ok () := by
  unfold Production.Fits at h
  unfold checkProduction nonterminal
  cases haction : p.action with
  | nothing =>
    simp only [haction] at h ⊢
    rw [h]
    rfl
  | forward i | accept i =>
    simp only [haction] at h ⊢
    exact checkRead_of_flowsAt h
  | absent =>
    simp only [haction] at h ⊢
    rw [h]
    rfl
  | emptyList =>
    simp only [haction] at h ⊢
    rw [h]
    rfl
  | prepend item list =>
    simp only [haction] at h ⊢
    obtain ⟨hlist, hitem, hcarries⟩ := h
    have hvalue : (set.nonterminals.getD p.lhs default).content.hasValue = true := by
      generalize (set.nonterminals.getD p.lhs default).content = content at hlist
      cases content <;> first | rfl | cases hlist
    rw [checkRead_of_flowsAt hitem]
    exact checkRead_eq_ok hcarries hvalue
  | singleton item =>
    simp only [haction] at h ⊢
    exact checkRead_of_flowsAt h.2
  | construct c steps =>
    simp only [haction] at h ⊢
    obtain ⟨model, hmodel, -⟩ := h.1
    have hclass : checkClass m c = .ok model := by simp [checkClass, hmodel]
    rw [hclass]
    exact forM_eq_ok.mpr fun step hstep => checkStep_eq_ok (h.2 step hstep)
  | choose c index payload =>
    simp only [haction] at h ⊢
    obtain ⟨model, variant, hmodel, hvariant, hfits⟩ := h
    have hclass : checkClass m c = .ok model := by simp [checkClass, hmodel]
    rw [hclass]
    simp only [bind, Except.bind, hvariant]
    unfold Variant.Fits at hfits
    cases hpayload : variant.payload <;> cases payload <;> simp only [hpayload] at hfits ⊢
    · rfl
    · obtain ⟨f, -, hflows⟩ := hfits
      exact checkRead_of_flowsAt hflows

end ProductionSet

namespace GrammarModel

open Lowering

variable {strict : Prop} {m : GrammarModel}

/-- A model with settled rules is lowered to a production set that passes its check. In it all
productions fit, and every nonterminal has its index and a production. -/
theorem lower_succeeds (preferences : LoweringPreferences) (hm : m.Numbered)
    (howned : m.FieldsOwned)
    (hsettled : ∀ entry ∈ m.rules.toList.zip m.grammar.rules.toList,
      Settled.Rule strict m entry.1 entry.2.body ∧ entry.2.body.Regular strict m) :
    ∃ set, (m.lower preferences).result = .ok set ∧
      (∀ p ∈ set.productions, p.Fits strict m set.nonterminals) ∧
        ∀ n ∈ set.nonterminals, ∃ p ∈ set.productions, p.lhs = n.id := by
  obtain ⟨start, d, hlower, hscoped, hfits, hproductive⟩ :=
    lowerModel_succeeds preferences hm howned hsettled
  have hset : ∀ p ∈ (d.finish start).productions,
      p.Fits strict m (d.finish start).nonterminals :=
    fun p hp => hfits p (ProductionDraft.mem_finish.mp hp)
  have hcheck : (d.finish start).check m = .ok () :=
    ProductionSet.forM_eq_ok.mpr fun p hp =>
      ProductionSet.checkProduction_eq_ok (hset p (Array.mem_toList_iff.mp hp))
  refine ⟨d.finish start, ?_, hset, fun n hn => ?_⟩
  · unfold lower
    simp only [hlower, hcheck]
  · obtain ⟨i, hi, hget⟩ := Array.mem_iff_getElem.mp hn
    have hid : n.id = i := hscoped.id_eq i n (by
      rw [← hget]
      exact Array.getElem?_eq_getElem hi)
    obtain ⟨p, hp, hlhs⟩ := hproductive i hi
    exact ⟨p, ProductionDraft.mem_finish.mpr hp, hlhs.trans hid.symm⟩

/-- What a model with settled rules is lowered to: productions that fit and mention only
nonterminals that exist, and one at least for every nonterminal. -/
theorem lower_fits {preferences : LoweringPreferences} {set : ProductionSet} (hm : m.Numbered)
    (howned : m.FieldsOwned)
    (hsettled : ∀ entry ∈ m.rules.toList.zip m.grammar.rules.toList,
      Settled.Rule strict m entry.1 entry.2.body ∧ entry.2.body.Regular strict m)
    (h : (m.lower preferences).result = .ok set) :
    (∀ p ∈ set.productions, p.Fits strict m set.nonterminals) ∧
      (∀ p ∈ set.productions, ∀ t ∈ p.body, t.Below set.nonterminals.size) ∧
        ∀ n ∈ set.nonterminals, ∃ p ∈ set.productions, p.lhs = n.id := by
  obtain ⟨set', hset, hfits, hproductive⟩ := lower_succeeds preferences hm howned hsettled
  obtain rfl := Except.ok.inj (hset.symm.trans h)
  refine ⟨hfits, fun p hp => ?_, hproductive⟩
  obtain ⟨accept, d, hlower, rfl, -⟩ := lower_eq_ok h
  obtain ⟨start, d', hlower', hscoped, -⟩ := lowerModel_succeeds preferences hm howned hsettled
  rw [hlower] at hlower'
  cases hlower'
  exact hscoped.below p (ProductionDraft.mem_finish.mp hp)

end GrammarModel
end AnnotatedGrammar
