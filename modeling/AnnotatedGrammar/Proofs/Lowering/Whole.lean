import AnnotatedGrammar.Proofs.Lowering.Run
import AnnotatedGrammar.Proofs.Model.Built

/-!
# Lowering whole models

The steps of lowering a model: the nonterminals of the rules are declared first, each with the index
of its rule; the rules are lowered in order; last comes the nonterminal of whole texts.
-/

namespace AnnotatedGrammar

namespace Lowering

variable {d d' : ProductionDraft}

/-- The nonterminals of rules, one after another. -/
structure DeclaresRules (d d' : ProductionDraft) (rules : List RuleModel) : Prop where
  size_eq : d'.nonterminals.size = d.nonterminals.size + rules.length
  keeps : ∀ n < d.nonterminals.size, d'.nonterminals[n]? = d.nonterminals[n]?
  declares : ∀ (i : Nat) (rule : RuleModel), rules[i]? = some rule →
    ∃ name, d'.nonterminals[d.nonterminals.size + i]? =
      some ⟨d.nonterminals.size + i, name, .ofValue? rule.value, .rule rule.id⟩
  productions_eq : d'.productions = d.productions
  onlyDebug : d.OnlyDebug → d'.OnlyDebug

theorem declareRules_declaresRules {m : GrammarModel} {u : Unit}
    (h : declareRules m d = .ok u d') : DeclaresRules d d' m.rules.toList := by
  unfold declareRules at h
  generalize m.rules.toList = rules at h ⊢
  induction rules generalizing d with
  | nil =>
    simp only [List.forM_eq_forM, List.forM_nil, pure_eq_ok] at h
    obtain ⟨-, rfl⟩ := h
    exact ⟨rfl, fun _ _ => rfl, by simp, rfl, fun h => h⟩
  | cons rule rest ih =>
    simp only [List.forM_eq_forM, List.forM_cons, bind_eq_ok, discard_eq_ok] at h
    obtain ⟨_, d₁, ⟨n, hdeclare⟩, hrest⟩ := h
    have hd := declare_eq_ok hdeclare
    have hrules := ih hrest
    obtain ⟨name, hname⟩ := hd.nonterminals_eq
    have hsize := hd.size_eq
    refine ⟨?_, fun k hk => ?_, fun i found hfound => ?_,
      hrules.productions_eq.trans hd.productions_eq,
      fun hdebug => hrules.onlyDebug (hd.onlyDebug hdebug)⟩
    · rw [hrules.size_eq, hsize, List.length_cons]
      omega
    · rw [hrules.keeps k (by omega), hname, Array.getElem?_push_lt hk,
        Array.getElem?_eq_getElem hk]
    · cases i with
      | zero =>
        obtain rfl : rule = found := by simpa using hfound
        refine ⟨name, ?_⟩
        rw [Nat.add_zero, hrules.keeps _ (by omega), hname, Array.getElem?_push_size, hd.index_eq]
      | succ i =>
        obtain ⟨other, hother⟩ := hrules.declares i found (by simpa using hfound)
        refine ⟨other, ?_⟩
        rw [hsize] at hother
        rw [← Nat.add_assoc, Nat.add_right_comm]
        exact hother

/-- Declared from nothing, the nonterminals of the rules have the indices of the rules. -/
theorem DeclaresRules.getElem?_eq {rules : List RuleModel} (h : DeclaresRules default d' rules)
    {i : Nat} {rule : RuleModel} (hrule : rules[i]? = some rule) :
    ∃ name, d'.nonterminals[i]? = some ⟨i, name, .ofValue? rule.value, .rule rule.id⟩ := by
  obtain ⟨name, hname⟩ := h.declares i rule hrule
  have hzero : (default : ProductionDraft).nonterminals.size + i = i := Nat.zero_add i
  rw [hzero] at hname
  exact ⟨name, hname⟩

theorem DeclaresRules.inScope {rules : List RuleModel} (h : DeclaresRules default d' rules) :
    d'.Scoped rules.length := by
  have hsize : d'.nonterminals.size = rules.length := h.size_eq.trans (Nat.zero_add _)
  have hnone : d'.productions = #[] := h.productions_eq
  refine ⟨Nat.le_of_eq hsize.symm, fun n found hn => ?_, by simp [hnone], by simp [hnone]⟩
  have hlt : n < rules.length := hsize ▸ (Array.getElem?_eq_some_iff.mp hn).1
  obtain ⟨name, hname⟩ := h.getElem?_eq (List.getElem?_eq_getElem hlt)
  rw [hname] at hn
  cases hn
  rfl

theorem declareAccept_eq_ok {m : GrammarModel} {accept : NonterminalId}
    (h : declareAccept m d = .ok accept d') :
    ∃ d₁ action, d.Declares d₁ accept (d.nonterminals.getD m.start default).content .accept ∧
      d₁.Produces d' [⟨accept, [.nonterminal m.start], action, none⟩] := by
  simp only [declareAccept, bind_eq_ok, get_eq_ok, pure_eq_ok] at h
  obtain ⟨_, _, ⟨rfl, rfl⟩, n, d₁, hdeclare, _, d₂, hproduce, rfl, rfl⟩ := h
  exact ⟨d₁, _, declare_eq_ok hdeclare, produce_eq_ok hproduce⟩

/-- The steps of a lowering that succeeds. -/
theorem lowerModel_eq_ok {m : GrammarModel} {preferences : LoweringPreferences}
    {accept : NonterminalId} (h : lowerModel m preferences d = .ok accept d') :
    ∃ d₁ d₂, DeclaresRules d d₁ m.rules.toList ∧ (∃ u, lowerRules m preferences d₁ = .ok u d₂) ∧
      declareAccept m d₂ = .ok accept d' := by
  simp only [lowerModel, bind_eq_ok] at h
  obtain ⟨_, d₁, hdeclare, u, d₂, hrules, haccept⟩ := h
  exact ⟨d₁, d₂, declareRules_declaresRules hdeclare, ⟨u, hrules⟩, haccept⟩

end Lowering

@[simp] theorem ProductionDraft.mem_finish {d : ProductionDraft} {start : NonterminalId}
    {p : Production} : p ∈ (d.finish start).productions ↔ p ∈ d.productions := by
  simp [finish, List.mem_mergeSort]

namespace GrammarModel

variable {m : GrammarModel} {preferences : LoweringPreferences} {set : ProductionSet}

theorem lower_eq_ok (h : (m.lower preferences).result = .ok set) :
    ∃ accept d, Lowering.lowerModel m preferences default = .ok accept d ∧
      set = d.finish accept ∧ set.check m = .ok () := by
  unfold lower at h
  split at h
  · simp at h
  · rename_i accept d hlower
    dsimp only at h
    split at h
    · simp at h
    · rename_i hcheck
      obtain rfl : d.finish accept = set := by simpa using h
      exact ⟨accept, d, hlower, rfl, hcheck⟩

/-- The rule of a model and the rule of its grammar at the same index. -/
theorem Numbered.of_mem_zip (hm : m.Numbered) {entry : RuleModel × Rule}
    (h : entry ∈ m.rules.toList.zip m.grammar.rules.toList) :
    entry.1.id < m.rules.size ∧ m.grammar.rules[entry.1.id]? = some entry.2 := by
  obtain ⟨i, hi, rfl⟩ := List.mem_iff_getElem.mp h
  have hrule : i < m.rules.size := by simp at hi; omega
  have hsource : i < m.grammar.rules.size := by simp at hi; omega
  have hid := hm.rule_id i hrule
  simp only [List.getElem_zip, Array.getElem_toList, hid]
  exact ⟨hrule, Array.getElem?_eq_getElem hsource⟩

theorem Numbered.rule?_of_mem_zip (hm : m.Numbered) {entry : RuleModel × Rule}
    (h : entry ∈ m.rules.toList.zip m.grammar.rules.toList) :
    m.rule? entry.1.id = some entry.1 := by
  obtain ⟨i, hi, hrule⟩ := List.mem_iff_getElem.mp (List.of_mem_zip h).1
  have hlt : i < m.rules.size := by simpa using hi
  have hid := hm.rule_id i hlt
  rw [← hrule, Array.getElem_toList, hid]
  exact Array.getElem?_eq_getElem hlt

theorem Numbered.exists_mem_zip (hm : m.Numbered) {id : RuleId} {rule : Rule}
    (h : m.grammar.rules[id]? = some rule) :
    ∃ entry ∈ m.rules.toList.zip m.grammar.rules.toList, entry.1.id = id ∧ entry.2 = rule := by
  obtain ⟨hid, hrule⟩ := Array.getElem?_eq_some_iff.mp h
  have hlt : id < m.rules.size := hm.rules_size ▸ hid
  refine ⟨(m.rules[id], rule), List.mem_iff_getElem.mpr ⟨id, ?_, ?_⟩, hm.rule_id id hlt, rfl⟩
  · rw [List.length_zip, Array.length_toList, Array.length_toList]
    exact Nat.lt_min.mpr ⟨hlt, hid⟩
  · simpa using hrule

end GrammarModel
end AnnotatedGrammar
