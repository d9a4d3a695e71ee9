import Mathlib
import AnnotatedGrammar.Proofs.Analysis.Roles
import AnnotatedGrammar.Proofs.Generation
import AnnotatedGrammar.Proofs.Lowering.Additions
import AnnotatedGrammar.Proofs.Lowering.Spares
import AnnotatedGrammar.Proofs.Model.RuleNames
import AnnotatedGrammar.Proofs.Syntax.Rows

/-!
# Flat rules stay as they are

A flat rule is lowered to its own alternatives. Whatever class the rule builds and however its
leaves are marked, each alternative becomes one production whose body has one term for each leaf;
nothing is made on the way. The other rules leave these productions alone, and sorting keeps them in
order.
-/

namespace AnnotatedGrammar

/-- The term of what a name stands for. -/
def Symbol.term : Symbol → Term
  | rule id => .nonterminal id
  | builtin p => .terminal (.pattern p)

/-- The term that a leaf stands for: a terminal for itself, a name for what it means. -/
def Expr.leafTerm? (symbols : SymbolTable) : Expr → Option Term
  | terminal _ t => some (.terminal t)
  | reference _ name => (symbols.resolve? name).map Symbol.term
  | _ => none

/-- The terms that the leaves of each alternative stand for. -/
def Expr.leafRows (symbols : SymbolTable) (body : Expr) : List (List (Option Term)) :=
  body.alternatives.map fun e => e.row.map (leafTerm? symbols)

namespace Lowering

open ProductionDraft Settled AnnotatedGrammar.Expr

variable {sc : LoweringScope} {d d' : ProductionDraft} {e : Expr} {t : Term}
  {items branches : List Expr} {c : ClassId} {lhs : NonterminalId}

/-! ## Leaves -/

theorem leafTerm_eq_ok {name : String} (h : leafTerm sc e name d = .ok t d') :
    d' = d ∧ (sc.model.symbols.resolve? name).map Symbol.term = some t := by
  unfold leafTerm at h
  cases hsymbol : sc.model.symbols.resolve? name with
  | none => simp [hsymbol] at h
  | some symbol =>
    cases symbol <;> simp only [hsymbol, pure_eq_ok] at h <;> simp [Symbol.term, h]

theorem plainTerm_leaf (he : e.isLeaf = true) (h : plainTerm sc e d = .ok t d') :
    d' = d ∧ e.leafTerm? sc.model.symbols = some t := by
  cases e with
  | terminal info terminal =>
    rw [plainTerm, pure_eq_ok] at h
    obtain ⟨rfl, rfl⟩ := h
    exact ⟨rfl, rfl⟩
  | reference info name =>
    rw [plainTerm] at h
    exact leafTerm_eq_ok h
  | _ => cases he

/-- A leaf that carries no class has the same term with its value and without. -/
theorem elementTerm_leaf (he : e.IsPlainLeaf) (kind : SynthesizedKind) :
    elementTerm sc e kind = plainTerm sc e := by
  have hclass : ¬e.hasMarker .classOf = true := by simp [he.noClass]
  by_cases hskip : e.hasMarker .skip = true
  · rw [elementTerm, if_pos hskip]
  · rw [elementTerm, if_neg hskip, if_neg hclass]
    cases e with
    | terminal info terminal => rw [plainTerm, shapeTerm]
    | reference info name => rw [plainTerm, shapeTerm]
    | _ => cases he.isLeaf

/-- Terms are appended for some leaves, each of which stands for one. -/
def Appends (sc : LoweringScope) (items : List Expr) (before after : Array Term) : Prop :=
  after.toList.map some = before.toList.map some ++ items.map (leafTerm? sc.model.symbols)

theorem Appends.nil (terms : Array Term) : Appends sc [] terms terms := by
  simp [Appends]

theorem Appends.push (h : e.leafTerm? sc.model.symbols = some t) (terms : Array Term) :
    Appends sc [e] terms (terms.push t) := by
  simp [Appends, h]

theorem Appends.append {before between after : Array Term} {more : List Expr}
    (h : Appends sc items before between) (h' : Appends sc more between after) :
    Appends sc (items ++ more) before after := by
  unfold Appends at *
  rw [h', h, List.map_append, List.append_assoc]

/-! ## Rows -/

theorem flatElement_leaf (he : e.IsPlainLeaf) {terms : Array Term}
    {result : Array Term × Option Nat} (h : flatElement sc e terms d = .ok result d') :
    d' = d ∧ Appends sc [e] terms result.1 := by
  rw [flatElement, elementTerm_leaf he] at h
  obtain ⟨t, d₁, ht, hresult⟩ := bind_eq_ok.mp h
  obtain ⟨rfl, hterm⟩ := plainTerm_leaf he.isLeaf ht
  obtain ⟨rfl, rfl⟩ := pure_eq_ok.mp hresult
  exact ⟨rfl, .push hterm terms⟩

theorem flatten_leaf (he : e.IsPlainLeaf) (terms : Array Term) :
    flatten sc e terms = flatElement sc e terms := by
  cases e with
  | terminal info terminal => rw [flatten.eq_def]
  | reference info name => rw [flatten.eq_def]
  | _ => cases he.isLeaf

theorem flattenAll_leaves (hitems : ∀ item ∈ items, item.IsPlainLeaf)
    {before result : Array Term × Option Nat} (h : flattenAll sc items before d = .ok result d') :
    d' = d ∧ Appends sc items before.1 result.1 := by
  induction items generalizing before with
  | nil =>
    rw [flattenAll] at h
    obtain ⟨rfl, rfl⟩ := pure_eq_ok.mp h
    exact ⟨rfl, .nil _⟩
  | cons item rest ih =>
    obtain ⟨hitem, hrest⟩ := List.forall_mem_cons.mp hitems
    rw [flattenAll, flatten_leaf hitem] at h
    obtain ⟨⟨terms, position⟩, d₁, hfirst, h⟩ := bind_eq_ok.mp h
    obtain ⟨rfl, hterms⟩ := flatElement_leaf hitem hfirst
    have hafter {found : Option Nat} (h : flattenAll sc rest (terms, found) d₁ = .ok result d') :
        d' = d₁ ∧ Appends sc (item :: rest) before.1 result.1 := by
      obtain ⟨hsame, hmore⟩ := ih hrest h
      exact ⟨hsame, hterms.append hmore⟩
    cases hbefore : before.2 <;> cases position <;> simp only [hbefore, fail_ne_ok] at h
    all_goals exact hafter h

theorem flatten_row (he : e.IsRow) {terms : Array Term} {result : Array Term × Option Nat}
    (h : flatten sc e terms d = .ok result d') : d' = d ∧ Appends sc e.row terms result.1 := by
  rcases he.cases with hleaf | ⟨info, items, rfl, hmarkers, hitems⟩
  · rw [flatten_leaf hleaf] at h
    rw [hleaf.row_eq]
    exact flatElement_leaf hleaf h
  · have hunmarked : (Expr.sequence info items).isUnmarked = true := by
      simp [isUnmarked, markers, Expr.info, hmarkers]
    rw [flatten, if_pos hunmarked] at h
    exact flattenAll_leaves hitems h

/-- A leaf inside the content of a class fills its field, unless it is skipped. -/
theorem construct_leaf_eq (he : e.IsPlainLeaf) (a : Assembly) :
    construct sc c e false a =
      if e.hasMarker .skip then (do return a.push (← plainTerm sc e))
      else (do assign sc c e e (← plainTerm sc e) a) := by
  have helement : constructElement sc c e false a =
      (do assign sc c e e (← plainTerm sc e) a) := by
    simp [constructElement, elementTerm_leaf he]
  rw [construct.eq_def]
  simp only [Bool.not_false, Bool.true_and, elementTerm_leaf he]
  split
  · rfl
  · split
    · rfl
    · rw [← helement]
      cases e with
      | terminal info terminal => rfl
      | reference info name => rfl
      | _ => cases he.isLeaf

theorem construct_leaf (he : e.IsPlainLeaf) {a a' : Assembly}
    (h : construct sc c e false a d = .ok a' d') : d' = d ∧ Appends sc [e] a.body a'.body := by
  rw [construct_leaf_eq he] at h
  split at h
  · obtain ⟨t, d₁, ht, hpush⟩ := bind_eq_ok.mp h
    obtain ⟨rfl, hterm⟩ := plainTerm_leaf he.isLeaf ht
    obtain ⟨rfl, rfl⟩ := pure_eq_ok.mp hpush
    exact ⟨rfl, .push hterm _⟩
  · obtain ⟨t, d₁, ht, hassign⟩ := bind_eq_ok.mp h
    obtain ⟨rfl, hterm⟩ := plainTerm_leaf he.isLeaf ht
    obtain ⟨rfl, hbody⟩ := assign_eq_ok hassign
    rw [hbody]
    exact ⟨rfl, .push hterm _⟩

theorem constructAll_leaves (hitems : ∀ item ∈ items, item.IsPlainLeaf) {a a' : Assembly}
    (h : constructAll sc c items a d = .ok a' d') : d' = d ∧ Appends sc items a.body a'.body := by
  induction items generalizing a with
  | nil =>
    rw [constructAll] at h
    obtain ⟨rfl, rfl⟩ := pure_eq_ok.mp h
    exact ⟨rfl, .nil _⟩
  | cons item rest ih =>
    obtain ⟨hitem, hrest⟩ := List.forall_mem_cons.mp hitems
    rw [constructAll] at h
    obtain ⟨a₁, d₁, hfirst, hmore⟩ := bind_eq_ok.mp h
    obtain ⟨rfl, hterms⟩ := construct_leaf hitem hfirst
    obtain ⟨rfl, hafter⟩ := ih hrest hmore
    exact ⟨rfl, hterms.append hafter⟩

theorem construct_row (he : e.IsRow) {a a' : Assembly}
    (h : construct sc c e false a d = .ok a' d') : d' = d ∧ Appends sc e.row a.body a'.body := by
  rcases he.cases with hleaf | ⟨info, items, rfl, hmarkers, hitems⟩
  · rw [hleaf.row_eq]
    exact construct_leaf hleaf h
  · have hunmarked : (Expr.sequence info items).isUnmarked = true := by
      simp [isUnmarked, markers, Expr.info, hmarkers]
    have hnone := hasMarker_of_isUnmarked hunmarked
    have hskip : ¬(!false && (Expr.sequence info items).hasMarker .skip) = true := by
      simp [hnone]
    have hfield : ¬(!false && (Expr.sequence info items).isFieldElement) = true := by
      simp [isFieldElement, hnone]
    rw [construct, if_neg hskip, if_neg hfield] at h
    exact constructAll_leaves hitems h

/-! ## Alternatives -/

/-- Every run that succeeds only adds productions of `lhs`: one for each of some rows, in order. -/
def GivesRows (sc : LoweringScope) (x : Lowering Unit) (lhs : NonterminalId) (rows : List Expr) :
    Prop :=
  ∀ ⦃d u d'⦄, x d = .ok u d' → ∃ added : List Production, d' = d.withProductions added ∧
    (∀ p ∈ added, p.lhs = lhs) ∧
    added.map (fun p => p.body.map some) =
      rows.map fun e => e.row.map (leafTerm? sc.model.symbols)

namespace GivesRows

variable {rows : List Expr} {x : Lowering Unit} {α : Type}

theorem nil : GivesRows sc (pure ()) lhs [] := by
  intro d u d' h
  obtain ⟨-, rfl⟩ := pure_eq_ok.mp h
  exact ⟨[], by simp [withProductions], by simp, rfl⟩

/-- A production for a row, and then those for more rows. -/
theorem cons {body : List Term} {action : Action} {node : Option NodeId}
    (hbody : body.map some = e.row.map (leafTerm? sc.model.symbols))
    (hx : GivesRows sc x lhs rows) :
    GivesRows sc (produce lhs body action node >>= fun _ => x) lhs (e :: rows) := by
  intro d u d' h
  obtain ⟨_, d₁, hproduce, h⟩ := bind_eq_ok.mp h
  obtain ⟨added, hafter, hlhs, hrows⟩ := hx h
  rw [produce_eq_ok_iff.mp hproduce] at hafter
  refine ⟨⟨lhs, body, action, node⟩ :: added, ?_, List.forall_mem_cons.mpr ⟨rfl, hlhs⟩, ?_⟩
  · rw [hafter]
    simp [withProductions]
  · rw [List.map_cons, List.map_cons, hrows, hbody]

/-- One production for a row. -/
theorem single {body : List Term} {action : Action} {node : Option NodeId}
    (hbody : body.map some = e.row.map (leafTerm? sc.model.symbols)) :
    GivesRows sc (produce lhs body action node) lhs [e] := by
  have h : GivesRows sc (produce lhs body action node >>= fun _ => pure ()) lhs [e] :=
    cons hbody nil
  simpa using h

/-- Work that changes nothing comes first. -/
theorem after {y : Lowering α} {f : α → Lowering Unit}
    (hf : ∀ d a d', y d = .ok a d' → d' = d ∧ GivesRows sc (f a) lhs rows) :
    GivesRows sc (y >>= f) lhs rows := by
  intro d u d' h
  obtain ⟨a, d₁, hy, hrest⟩ := bind_eq_ok.mp h
  obtain ⟨rfl, hgives⟩ := hf d a d₁ hy
  exact hgives hrest

end GivesRows

/-- The terms appended to none are those of the row. -/
theorem Appends.map_some {terms : Array Term} (h : Appends sc items #[] terms) :
    terms.toList.map some = items.map (leafTerm? sc.model.symbols) := by
  simpa [Appends] using h

theorem constructBranches_giveRows (hrows : ∀ e ∈ branches, e.IsRow) :
    GivesRows sc (constructBranches sc lhs c branches) lhs branches := by
  induction branches with
  | nil =>
    rw [constructBranches]
    exact .nil
  | cons branch rest ih =>
    obtain ⟨hbranch, hrest⟩ := List.forall_mem_cons.mp hrows
    rw [constructBranches]
    refine .after fun d a d' ha => ?_
    obtain ⟨rfl, hterms⟩ := construct_row hbranch ha
    exact ⟨rfl, .cons hterms.map_some (ih hrest)⟩

theorem classProductions_giveRows {body : Expr} (hrows : ∀ e ∈ body.alternatives, e.IsRow) :
    GivesRows sc (classProductions sc lhs c body false) lhs body.alternatives := by
  rcases alternatives_cases hrows with ⟨info, branches, rfl, hbranches⟩ | ⟨hsingle, hrow⟩
  · have hsome : (Expr.alternation info branches).classAlternatives? = some branches := rfl
    rw [classProductions_some sc lhs c false hsome]
    exact constructBranches_giveRows hbranches
  · have hnone : body.classAlternatives? = none := by
      have halternation := hrow.isAlternation_eq
      rw [classAlternatives?, hrow.core_eq]
      cases body <;> first | rfl | cases halternation
    rw [classProductions_none sc lhs c false hnone, hsingle]
    refine .after fun d a d' ha => ?_
    obtain ⟨rfl, hterms⟩ := construct_row hrow ha
    exact ⟨rfl, .single hterms.map_some⟩

theorem variantProductions_giveRows (hrows : ∀ e ∈ branches, e.IsRow) {index : Nat}
    {variants : List Variant} (hlength : variants.length = branches.length) :
    GivesRows sc (variantProductions sc lhs c index branches variants) lhs branches := by
  induction branches generalizing index variants with
  | nil =>
    rw [variantProductions.eq_def]
    exact .nil
  | cons branch rest ih =>
    obtain ⟨hbranch, hrest⟩ := List.forall_mem_cons.mp hrows
    obtain ⟨variant, later, rfl⟩ := List.exists_cons_of_length_eq_add_one hlength
    rw [variantProductions_cons]
    split
    · intro d u d' h
      simp at h
    · refine .after fun d result d' hresult => ?_
      obtain ⟨rfl, hterms⟩ := flatten_row hbranch hresult
      refine ⟨rfl, .after fun d payload d' hpayload => ?_⟩
      refine ⟨variantPayload_eq_ok hpayload, .cons hterms.map_some (ih hrest ?_)⟩
      simpa using hlength

theorem baseProductions_giveRows (hrows : ∀ e ∈ branches, e.IsRow)
    (hsettled : BaseBranches False sc.model c branches) :
    GivesRows sc (baseProductions sc lhs branches) lhs branches := by
  induction branches with
  | nil =>
    rw [baseProductions]
    exact .nil
  | cons branch rest ih =>
    obtain ⟨hbranch, hrest⟩ := List.forall_mem_cons.mp hrows
    have hbearer : ¬branch.core.hasMarker .classOf = true := by
      rw [hbranch.core_eq, hbranch.noClass]
      exact Bool.false_ne_true
    cases hsettled with
    | bearing hmarker => exact absurd hmarker hbearer
    | referring _ hcore _ _ hclass _ hlater =>
      simp only [baseProductions, if_neg hbearer, hclass]
      rw [hbranch.core_eq] at hcore
      subst hcore
      have hleaf := hbranch.leaves _ (List.mem_singleton_self _)
      rw [elementTerm_leaf hleaf]
      refine .after fun d t d' ht => ?_
      obtain ⟨rfl, hterm⟩ := plainTerm_leaf hleaf.isLeaf ht
      refine ⟨rfl, .cons ?_ (ih hrest hlater)⟩
      simp [row, hterm]
    | synthesized _ hclass _ _ hlater =>
      simp only [baseProductions, if_neg hbearer, hclass]
      refine .after fun d a d' ha => ?_
      obtain ⟨rfl, hterms⟩ := construct_row hbranch ha
      exact ⟨rfl, .cons hterms.map_some (ih hrest hlater)⟩

/-- A flat rule gets one production for each of its alternatives, whatever it builds. -/
theorem ruleProductions_giveRows {body : Expr} (hrows : ∀ e ∈ body.alternatives, e.IsRow)
    (hsettled : Settled.Rule False sc.model sc.rule body)
    (hpassthrough : sc.rule.role = .passthrough → body.core.isAlternation = false) :
    GivesRows sc (ruleProductions sc body) sc.rule.id body.alternatives := by
  have hchoice {c : ClassId} (h : ∃ info branches, body.core = .alternation info branches ∧
      Choice False sc.model c branches) :
      GivesRows sc (alternativeProductions sc sc.rule.id c body.core) sc.rule.id
        body.alternatives := by
    obtain ⟨info, branches, hcore, hchoice⟩ := h
    rcases alternatives_cases hrows with ⟨info', branches', rfl, hbranches⟩ | ⟨-, hrow⟩
    · have hself : (Expr.alternation info' branches').core = .alternation info' branches' := rfl
      rw [hself] at hcore ⊢
      cases hcore
      cases hchoice with
      | base hkind hbase =>
        rw [alternativeProductions_abstract hkind]
        exact baseProductions_giveRows hbranches hbase
      | tagged hmodel hkind helements hvariants =>
        have hlength := length_of_variantsOf hvariants
        rw [alternativeProductions_tagged hmodel hkind hlength]
        exact variantProductions_giveRows hbranches hlength
    · rw [hrow.core_eq] at hcore
      have halternation := hrow.isAlternation_eq
      rw [hcore] at halternation
      cases halternation
  unfold ruleProductions
  unfold Settled.Rule at hsettled
  cases hrole : sc.rule.role with
  | builds c => exact classProductions_giveRows hrows
  | polymorphic c | tagged c =>
    simp only [hrole] at hsettled
    exact hchoice hsettled.2
  | passthrough =>
    rcases alternatives_cases hrows with ⟨info, branches, rfl, -⟩ | ⟨hsingle, hrow⟩
    · cases hpassthrough hrole
    · simp only [hrow.noClass, hsingle, Bool.false_and]
      refine .after fun d result d' hresult => ?_
      obtain ⟨rfl, hterms⟩ := flatten_row hrow hresult
      refine ⟨rfl, .after fun d action d' haction => ?_⟩
      exact ⟨forwarding_eq_ok haction, .single hterms.map_some⟩

/-! ## Whole models -/

theorem declareRules_warnings {m : GrammarModel} {u : Unit} (h : declareRules m d = .ok u d') :
    d'.warnings = d.warnings := by
  unfold declareRules at h
  generalize m.rules.toList = rules at h
  induction rules generalizing d with
  | nil =>
    obtain ⟨-, rfl⟩ := pure_eq_ok.mp h
    rfl
  | cons rule rest ih =>
    simp only [List.forM_eq_forM, List.forM_cons, bind_eq_ok, discard_eq_ok] at h
    obtain ⟨_, d₁, ⟨n, hdeclare⟩, hrest⟩ := h
    exact (ih hrest).trans (declare_eq_ok hdeclare).warnings_eq

/-- Before any rule is lowered there are the nonterminals of the rules and nothing else. -/
theorem DeclaresRules.origin_eq {rules : List RuleModel} (h : DeclaresRules default d rules) :
    ∀ found ∈ d.nonterminals, ∃ id, found.origin = .rule id := by
  intro found hfound
  obtain ⟨i, hi⟩ := Array.mem_iff_getElem?.mp hfound
  have hsize : d.nonterminals.size = rules.length := h.size_eq.trans (Nat.zero_add _)
  have hlt : i < rules.length := hsize ▸ (Array.getElem?_eq_some_iff.mp hi).1
  obtain ⟨name, hname⟩ := h.getElem?_eq (List.getElem?_eq_getElem hlt)
  cases hi.symm.trans hname
  exact ⟨_, rfl⟩

end Lowering

namespace ProductionSet

/-- The rule of an index is lowered to itself: its nonterminal has one production for each
alternative, in order, with one term for each leaf; nothing was made for an expression of the rule,
and no warning names it. -/
structure Keeps (set : ProductionSet) (symbols : SymbolTable) (id : RuleId) (rule : Rule) :
    Prop where
  declared : ∃ n, set.nonterminals[id]? = some n ∧ n.origin = .rule id
  bodies : (set.productionsOf id).map (fun p => p.body.map some) = rule.body.leafRows symbols
  unmade : ∀ n ∈ set.nonterminals, ∀ node kind, n.origin ≠ .synthesized id node kind
  unwarned : ∀ w ∈ set.warnings, w.ruleName ≠ rule.name

end ProductionSet

/-- Sorting by nonterminals keeps the productions of each of them in order. -/
theorem ProductionDraft.productionsOf_finish (d : ProductionDraft) (start n : NonterminalId) :
    (d.finish start).productionsOf n = d.productionsOf n := by
  let le : Production → Production → Bool := fun p q => p.lhs ≤ q.lhs
  have htrans : ∀ a b c, le a b = true → le b c = true → le a c = true := by
    simp only [le, decide_eq_true_eq]
    exact fun a b c => Nat.le_trans
  have htotal : ∀ a b, (le a b || le b a) = true := by
    simp only [le, Bool.or_eq_true, decide_eq_true_eq]
    exact fun a b => Nat.le_total _ _
  have hsame : (d.productionsOf n).Pairwise fun a b => le a b = true := by
    refine List.pairwise_of_forall_mem_list fun a ha b hb => ?_
    have ha := beq_iff_eq.mp (List.mem_filter.mp ha).2
    have hb := beq_iff_eq.mp (List.mem_filter.mp hb).2
    exact decide_eq_true (Nat.le_of_eq (ha.trans hb.symm))
  have hsublist := List.sublist_mergeSort htrans htotal hsame List.filter_sublist
  have hkept := hsublist.filter fun p => p.lhs == n
  have hfilter : (d.productionsOf n).filter (fun p => p.lhs == n) = d.productionsOf n :=
    List.filter_eq_self.mpr fun p hp => (List.mem_filter.mp hp).2
  rw [hfilter] at hkept
  refine (hkept.eq_of_length ?_).symm
  exact ((List.mergeSort_perm d.productions.toList le).filter _).length_eq.symm

/-- In a list without repetitions of some feature, no other entry has the feature of a given one. -/
theorem ne_of_nodup_map {α β : Type} {f : α → β} {before after : List α} {a : α}
    (h : ((before ++ a :: after).map f).Nodup) : ∀ b ∈ before ++ after, f b ≠ f a := by
  rw [List.map_append, List.map_cons, List.nodup_middle, ← List.map_append] at h
  intro b hb heq
  exact (List.nodup_cons.mp h).1 (heq ▸ List.mem_map_of_mem hb)

namespace GrammarModel

variable {m : GrammarModel}

theorem Numbered.nodup_id (hm : m.Numbered) : (m.rules.toList.map (·.id)).Nodup := by
  have hids : m.rules.toList.map (·.id) = List.range m.rules.size := by
    refine List.ext_getElem (by simp) fun i hi _ => ?_
    have hlt : i < m.rules.size := by simpa using hi
    simp [hm.rule_id i hlt]
  rw [hids]
  exact List.nodup_range

/-- The rules of a model and of its grammar side by side. -/
theorem Numbered.map_fst_zip (hm : m.Numbered) :
    (m.rules.toList.zip m.grammar.rules.toList).map (·.1) = m.rules.toList :=
  List.map_fst_zip (by simp [hm.rules_size])

end GrammarModel

namespace Lowering

open ProductionDraft

variable {m : GrammarModel} {preferences : LoweringPreferences} {d d' d₁ : ProductionDraft}
  {entry : RuleModel × Rule}

/-- The other rules leave the productions of a flat rule alone. -/
theorem lowerRules_flat {u : Unit} (hm : m.Numbered)
    (hnames : (m.rules.toList.map (·.name)).Nodup) (hsettled : Grammar.IsSettled m)
    (hentry : entry ∈ m.rules.toList.zip m.grammar.rules.toList)
    (hpassthrough : entry.1.role = .passthrough → entry.2.body.core.isAlternation = false)
    (hrows : ∀ e ∈ entry.2.body.alternatives, e.IsRow)
    (hlt : entry.1.id < d.nonterminals.size) (hempty : d.productionsOf entry.1.id = [])
    (h : lowerRules m preferences d = .ok u d') :
    (d'.productionsOf entry.1.id).map (fun p => p.body.map some) =
        entry.2.body.leafRows m.symbols ∧
      (∀ found ∈ d'.nonterminals, found ∈ d.nonterminals ∨
        ∃ id node kind, found.origin = .synthesized id node kind ∧ id ≠ entry.1.id) ∧
      ∀ w ∈ d'.warnings, w ∈ d.warnings ∨ w.ruleName ≠ entry.1.name := by
  rw [lowerRules_eq] at h
  have hrules := hm.map_fst_zip
  have hid := hm.nodup_id
  have hsettledRule := (hsettled.rules entry hentry).1
  obtain ⟨before, after, hsplit⟩ := List.append_of_mem hentry
  rw [hsplit] at h hrules
  rw [List.map_append, List.map_cons] at hrules
  rw [← hrules] at hid hnames
  have hid := ne_of_nodup_map hid
  have hnames := ne_of_nodup_map hnames
  simp only [List.forM_eq_forM, List.forM_append, List.forM_cons, bind_eq_ok] at h
  obtain ⟨_, d₁, hbefore, _, d₂, hrule, hafter⟩ := h
  -- the rules in front, the rule itself and the rules behind it
  have hfront := forM_lowerRule_spares (fun other hother =>
    hid _ (List.mem_append_left _ (List.mem_map_of_mem hother))) hlt hbefore
  obtain ⟨sc, rfl, hscope, hrun⟩ := lowerRule_eq_ok hrule
  rw [← hscope] at hsettledRule hpassthrough
  obtain ⟨added, rfl, hlhs, hbodies⟩ :=
    ruleProductions_giveRows hrows hsettledRule hpassthrough hrun
  rw [hscope] at hlhs
  have hlt' : entry.1.id < (d₁.withProductions added).nonterminals.size :=
    Nat.lt_of_lt_of_le hlt hfront.size_le
  have hback := forM_lowerRule_spares (fun other hother =>
    hid _ (List.mem_append_right _ (List.mem_map_of_mem hother))) hlt' hafter
  refine ⟨?_, fun found hfound => ?_, fun w hw => ?_⟩
  · have hall : added.filter (fun p => p.lhs == entry.1.id) = added :=
      List.filter_eq_self.mpr fun p hp => beq_iff_eq.mpr (hlhs p hp)
    have hone : (d₁.withProductions added).productionsOf entry.1.id =
        d₁.productionsOf entry.1.id ++ added := by
      simp [productionsOf, withProductions, hall]
    rw [hback.productionsOf_eq, hone, hfront.productionsOf_eq, hempty, List.nil_append, hbodies]
    rfl
  · rcases hback.made found hfound with hfound | ⟨rule, hrule, node, kind, horigin⟩
    · rcases hfront.made found hfound with hfound | ⟨rule, hrule, node, kind, horigin⟩
      · exact .inl hfound
      · exact .inr ⟨_, node, kind, horigin, hid rule (List.mem_append_left _ hrule)⟩
    · exact .inr ⟨_, node, kind, horigin, hid rule (List.mem_append_right _ hrule)⟩
  · rcases hback.warned w hw with hw | ⟨rule, hrule, hname⟩
    · rcases hfront.warned w hw with hw | ⟨rule, hrule, hname⟩
      · exact .inl hw
      · exact .inr (hname ▸ hnames rule (List.mem_append_left _ hrule))
    · exact .inr (hname ▸ hnames rule (List.mem_append_right _ hrule))

theorem declareAccept_adds {accept : NonterminalId} (h : declareAccept m d = .ok accept d') :
    ∃ d₁ content action, d.Declares d₁ accept content .accept ∧
      d' = d₁.withProductions [⟨accept, [.nonterminal m.start], action, none⟩] := by
  simp only [declareAccept, bind_eq_ok, get_eq_ok, pure_eq_ok] at h
  obtain ⟨_, _, ⟨rfl, rfl⟩, n, d₁, hdeclare, _, d₂, hproduce, rfl, rfl⟩ := h
  exact ⟨d₁, _, _, declare_eq_ok hdeclare, produce_eq_ok_iff.mp hproduce⟩

/-- A flat rule of a model is lowered to itself. -/
theorem lowerModel_keeps {accept : NonterminalId} (hm : m.Numbered)
    (hnames : (m.rules.toList.map (·.name)).Nodup) (hsettled : Grammar.IsSettled m)
    (hentry : entry ∈ m.rules.toList.zip m.grammar.rules.toList)
    (hname : entry.1.name = entry.2.name)
    (hpassthrough : entry.1.role = .passthrough → entry.2.body.core.isAlternation = false)
    (hrows : ∀ e ∈ entry.2.body.alternatives, e.IsRow)
    (h : lowerModel m preferences default = .ok accept d) :
    (d.finish accept).Keeps m.symbols entry.1.id entry.2 := by
  simp only [lowerModel, bind_eq_ok] at h
  obtain ⟨_, d₁, hdeclare, _, d₂, hlower, haccept⟩ := h
  have hdeclares := declareRules_declaresRules hdeclare
  have hsize : d₁.nonterminals.size = m.rules.size := by
    simpa using hdeclares.size_eq.trans (Nat.zero_add _)
  have hlt : entry.1.id < d₁.nonterminals.size := hsize ▸ (hm.of_mem_zip hentry).1
  have hempty : d₁.productionsOf entry.1.id = [] := by
    rw [productionsOf, hdeclares.productions_eq]
    rfl
  obtain ⟨hbodies, hmade, hwarned⟩ :=
    lowerRules_flat hm hnames hsettled hentry hpassthrough hrows hlt hempty hlower
  have hgrows := (lowerRules_extends hm (Nat.le_of_eq hsize.symm) hlower).toGrows
  obtain ⟨d₃, content, action, hwhole, rfl⟩ := declareAccept_adds haccept
  have hne : accept ≠ entry.1.id := by
    rw [hwhole.index_eq]
    exact Nat.ne_of_gt (Nat.lt_of_lt_of_le hlt hgrows.size_le)
  refine ⟨?_, ?_, fun found hfound node kind horigin => ?_, fun w hw hcontra => ?_⟩
  · have hrule : m.rules.toList[entry.1.id]? = some entry.1 :=
      Array.getElem?_toList.trans (hm.rule?_of_mem_zip hentry)
    obtain ⟨name, hget⟩ := hdeclares.getElem?_eq hrule
    rw [← hgrows.keeps_nonterminal _ hlt, ← hwhole.grows.keeps_nonterminal _
      (Nat.lt_of_lt_of_le hlt hgrows.size_le)] at hget
    exact ⟨_, hget, rfl⟩
  · have hkept : (d₃.withProductions [⟨accept, [.nonterminal m.start], action, none⟩]).productionsOf
        entry.1.id = d₂.productionsOf entry.1.id := by
      simp [productionsOf, withProductions, hne, hwhole.productions_eq]
    rw [productionsOf_finish, hkept]
    exact hbodies
  · obtain ⟨name, hpush⟩ := hwhole.nonterminals_eq
    have hfound : found ∈ d₃.nonterminals := hfound
    rw [hpush] at hfound
    rcases Array.mem_push.mp hfound with hfound | rfl
    · rcases hmade found hfound with hfound | ⟨id, node', kind', horigin', hid⟩
      · obtain ⟨id, hid⟩ := hdeclares.origin_eq found hfound
        cases hid.symm.trans horigin
      · cases horigin'.symm.trans horigin
        exact hid rfl
    · cases horigin
  · have hw : w ∈ d₃.warnings := Array.mem_toList_iff.mp hw
    rw [hwhole.warnings_eq] at hw
    rcases hwarned w hw with hw | hother
    · rw [declareRules_warnings hdeclare] at hw
      exact Array.not_mem_empty w hw
    · exact hother (hcontra.trans hname.symm)

end Lowering

namespace GenerationOptions

variable {o : GenerationOptions} {source : List Char} {m : GrammarModel}

/-- In an accepted grammar the alternatives of a flat body are rows. -/
theorem frontEnd_isRow (hm : (o.frontEnd source).result = .ok m) {rule : Rule}
    (hrule : rule ∈ m.grammar.rules.toList) (hflat : rule.body.isFlat = true) :
    ∀ e ∈ rule.body.alternatives, e.IsRow := by
  obtain ⟨tokens, -, grammar, hgrammar, hmodel⟩ := frontEnd_eq_ok.mp hm
  obtain ⟨-, -, rfl⟩ := Grammar.buildModel_eq_ok hmodel
  exact TokenStream.isRow_of_parse hgrammar hrule hflat

theorem frontEnd_name_eq (hm : (o.frontEnd source).result = .ok m) {entry : RuleModel × Rule}
    (hentry : entry ∈ m.rules.toList.zip m.grammar.rules.toList) :
    entry.1.name = entry.2.name := by
  obtain ⟨i, hi⟩ := List.mem_iff_getElem?.mp hentry
  obtain ⟨hrule, hsource⟩ := List.getElem?_zip_eq_some.mp hi
  have hname := congrArg (fun names => names[i]?) (map_name_rules hm)
  simpa [hrule, hsource] using hname

/-- Flat rules are lowered to themselves. -/
theorem lower_keeps_flat (hm : (o.frontEnd source).result = .ok m) :
    ∃ set, (o.lower m).result = .ok set ∧ ∀ id rule, m.grammar.rules[id]? = some rule →
      rule.body.isFlat = true → set.Keeps m.symbols id rule := by
  obtain ⟨set, hset⟩ := exists_lower hm
  refine ⟨set, hset, fun id rule hrule hflat => ?_⟩
  have hnumbered := frontEnd_numbered hm
  obtain ⟨entry, hentry, rfl, rfl⟩ := hnumbered.exists_mem_zip hrule
  obtain ⟨accept, d, hlower, rfl, -⟩ :=
    GrammarModel.lower_eq_ok (Outcome.ofStage_result_eq_ok.mp hset)
  have hnodup : (m.rules.toList.map (·.name)).Nodup := map_name_rules hm ▸ ruleNames_nodup hm
  exact Lowering.lowerModel_keeps hnumbered hnodup (frontEnd_settled hm) hentry
    (frontEnd_name_eq hm hentry) (isAlternation_of_passthrough hm hentry)
    (frontEnd_isRow hm (List.of_mem_zip hentry).2 hflat) hlower

/-- Rules of all roles, with marked, skipped and unmarked leaves: a class with two alternatives, a
base, a class without alternatives, tagged alternatives and a rule that passes on a value. -/
theorem lower_keeps_flat_roles : ∃ (o : GenerationOptions) (m : GrammarModel)
    (set : ProductionSet),
    (o.frontEnd
        "@class(P)P='('@field(x)V@skip|'o';S=P|C;@class(C)C='c';V=P@skip|'n';L=P';';".toList
        ).result = .ok m ∧ (o.lower m).result = .ok set ∧ m.grammar.rules.size = 5 ∧
      ∀ id rule, m.grammar.rules[id]? = some rule → set.Keeps m.symbols id rule := by
  let o : GenerationOptions := ⟨default, "sample", false, default⟩
  let flat (m : GrammarModel) : List Bool := m.grammar.rules.toList.map fun rule => rule.body.isFlat
  have hflat : (o.frontEnd
      "@class(P)P='('@field(x)V@skip|'o';S=P|C;@class(C)C='c';V=P@skip|'n';L=P';';".toList
        ).result.toOption.map flat = some [true, true, true, true, true] := by
    decide +kernel
  obtain ⟨m, hm, hflat⟩ := Outcome.exists_of_map flat hflat
  obtain ⟨set, hset, hkeeps⟩ := lower_keeps_flat hm
  have hsize : m.grammar.rules.size = 5 := by simpa [flat] using congrArg List.length hflat
  refine ⟨o, m, set, hm, hset, hsize, fun id rule hrule => hkeeps id rule hrule ?_⟩
  have hmem : rule.body.isFlat ∈ flat m :=
    List.mem_map_of_mem (Array.mem_toList_iff.mpr (Array.mem_of_getElem? hrule))
  rw [hflat] at hmem
  simpa using hmem

end GenerationOptions
end AnnotatedGrammar
