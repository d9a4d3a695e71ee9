import Mathlib
import AnnotatedGrammar.Proofs.Lowering.Additions
import AnnotatedGrammar.Proofs.Model.Built
import AnnotatedGrammar.Proofs.Model.WellFormed
import AnnotatedGrammar.Proofs.Syntax.Addresses
import AnnotatedGrammar.Proofs.Syntax.Shaped

/-!
# Names after expressions

A nonterminal that is made for an expression asks for a name after the rule's nonterminal, the place
of the expression in the rule and the kind of the nonterminal. No two expressions of a rule have the
same place, and the place can be read off the name; so the name asked for tells the expression.
-/

namespace AnnotatedGrammar

open ExprAddress

/-! ## Places of a grammar -/

namespace Grammar

variable {grammar : Grammar} {rule : Rule} {x y : Expr}

/-- When every expression has a number of its own, the table keeps every place. -/
theorem get?_paths (hids : (grammar.rules.toList.flatMap fun rule => rule.body.ids).Nodup)
    (hrule : rule ∈ grammar.rules.toList) {id : NodeId} {path : String}
    (h : (id, path) ∈ rule.body.paths "") : grammar.paths.get? id = some path := by
  have hinserted (entries : List (NodeId × String)) (table : NodeTable String)
      (hnodup : (entries.map (·.1)).Nodup) (hentry : (id, path) ∈ entries) :
      (entries.foldl (fun table entry => table.insert entry.1 entry.2) table).get? id =
        some path := by
    induction entries using List.reverseRecOn with
    | nil => cases hentry
    | append_singleton entries last ih =>
      rw [List.map_append, List.map_singleton, List.nodup_append] at hnodup
      obtain ⟨hnodup, -, hlast⟩ := hnodup
      rw [List.foldl_append, List.foldl_cons, List.foldl_nil, NodeTable.get?_insert]
      rcases List.mem_append.mp hentry with hentry | hentry
      · have hne := hlast id (List.mem_map_of_mem (f := (·.1)) hentry) last.1 List.mem_cons_self
        rw [if_neg hne.symm, ih hnodup hentry]
      · rw [← List.mem_singleton.mp hentry, if_pos rfl]
  refine hinserted _ _ ?_ (List.mem_flatMap.mpr ⟨rule, hrule, h⟩)
  rw [List.map_flatMap]
  simpa only [Expr.map_fst_paths.1] using hids

/-- The place of an expression is its address in the body of its rule. -/
theorem exists_address (hids : (grammar.rules.toList.flatMap fun rule => rule.body.ids).Nodup)
    (hrule : rule ∈ grammar.rules.toList) (hx : x ∈ rule.body.preorder) :
    ∃ address, rule.body.at? address = some x ∧
      grammar.paths.get? x.id = some (written address) := by
  obtain ⟨address, hat, hentry⟩ := Expr.paths_addressed.1 "" rule.body x hx
  rw [String.empty_append] at hentry
  exact ⟨address, hat, get?_paths hids hrule hentry⟩

/-- Expressions of a rule at the same place are the same. -/
theorem eq_of_get?_paths_eq
    (hids : (grammar.rules.toList.flatMap fun rule => rule.body.ids).Nodup)
    (hrule : rule ∈ grammar.rules.toList) (hx : x ∈ rule.body.preorder)
    (hy : y ∈ rule.body.preorder) (h : grammar.paths.get? x.id = grammar.paths.get? y.id) :
    x = y := by
  obtain ⟨address, hat, hpath⟩ := exists_address hids hrule hx
  obtain ⟨other, hat', hpath'⟩ := exists_address hids hrule hy
  rw [hpath, hpath', Option.some_inj] at h
  rw [written_injective h, hat'] at hat
  exact (Option.some.inj hat).symm

/-- The numbers and the places of a grammar tell its expressions apart. -/
structure IdentifiesNodes (grammar : Grammar) : Prop where
  /-- In the order of the text, rule after rule, the numbers are those below the node count. -/
  numbered : (grammar.rules.toList.flatMap fun rule => rule.body.preorder.map (·.id)) =
    List.range grammar.nodeCount
  placed : ∀ rule ∈ grammar.rules, ∀ x ∈ rule.body.preorder, (grammar.paths.get? x.id).isSome
  distinct : ∀ rule ∈ grammar.rules, ∀ x ∈ rule.body.preorder, ∀ y ∈ rule.body.preorder,
    x ≠ y → grammar.paths.get? x.id ≠ grammar.paths.get? y.id

theorem nodup_ids_ofParts (directives : List Directive) (rules : List Rule) :
    ((ofParts directives rules).rules.toList.flatMap fun rule => rule.body.ids).Nodup := by
  rw [ids_ofParts]
  exact List.nodup_range

theorem identifiesNodes_ofParts (directives : List Directive) (rules : List Rule) :
    (ofParts directives rules).IdentifiesNodes := by
  have hnodup := nodup_ids_ofParts directives rules
  refine ⟨ids_ofParts directives rules, fun rule hrule x hx => ?_,
    fun rule hrule x hx y hy hne heq => ?_⟩
  · obtain ⟨address, -, hpath⟩ := exists_address hnodup (Array.mem_toList_iff.mpr hrule) hx
    rw [hpath]
    rfl
  · exact hne (eq_of_get?_paths_eq hnodup (Array.mem_toList_iff.mpr hrule) hx hy heq)

end Grammar

/-! ## Names asked for -/

namespace SynthesizedKind

theorem word_injective : Function.Injective word := by
  intro kind other h
  cases kind <;> cases other <;> first
    | rfl
    | exact absurd h (by decide)

theorem not_mem_word (kind : SynthesizedKind) : '_' ∉ kind.word.toList := by
  cases kind <;> decide

end SynthesizedKind

namespace LoweringScope

/-- What stands behind the name of the rule's nonterminal, for an expression at a place. -/
def ending (path : String) (kind : SynthesizedKind) : List Char :=
  if path.isEmpty then kind.word.toList else path.toList ++ '_' :: kind.word.toList

theorem toList_baseName (sc : LoweringScope) (node : NodeId) (kind : SynthesizedKind) :
    (sc.baseName node kind).toList =
      sc.owner.toList ++ '_' :: ending (sc.model.nodePath node) kind := by
  unfold baseName ending
  dsimp only
  split <;> simp [String.toList_append]

/-- The place and the kind can be read off, as no place and no kind has an underscore. -/
theorem ending_inj {path path' : String} {kind kind' : SynthesizedKind}
    (hpath : '_' ∉ path'.toList) (h : ending path kind = ending path' kind') :
    path = path' ∧ kind = kind' := by
  unfold ending at h
  split at h <;> split at h
  next hempty hempty' =>
    rw [String.isEmpty_iff] at hempty hempty'
    exact ⟨hempty.trans hempty'.symm, SynthesizedKind.word_injective (String.toList_inj.mp h)⟩
  next =>
    refine absurd ?_ kind.not_mem_word
    rw [h]
    exact List.mem_append_right _ List.mem_cons_self
  next =>
    refine absurd ?_ kind'.not_mem_word
    rw [← h]
    exact List.mem_append_right _ List.mem_cons_self
  next =>
    obtain ⟨heq, -, hword⟩ := (List.append_cons_inj_of_notMem hpath kind'.not_mem_word).mp h.symm
    exact ⟨(String.toList_inj.mp heq).symm,
      (SynthesizedKind.word_injective (String.toList_inj.mp hword)).symm⟩

/-- Expressions for which the same name is asked for stand at the same place. -/
theorem baseName_inj (sc : LoweringScope) {node node' : NodeId} {kind kind' : SynthesizedKind}
    (hpath : '_' ∉ (sc.model.nodePath node').toList)
    (h : sc.baseName node kind = sc.baseName node' kind') :
    sc.model.nodePath node = sc.model.nodePath node' ∧ kind = kind' := by
  have hlists := congrArg String.toList h
  rw [toList_baseName, toList_baseName] at hlists
  exact ending_inj hpath (List.cons.inj (List.append_cancel_left hlists)).2

end LoweringScope

/-! ## Nonterminals of a production set -/

namespace Lowering

variable {m : GrammarModel} {preferences : LoweringPreferences} {d d₁ d₂ : ProductionDraft}

/-- A lowered model has the nonterminals of its rules first, then those made for expressions, and
the one of whole texts last, which carries what the one of the start rule does. -/
theorem lowerModel_extends {accept : NonterminalId} (hm : m.Numbered)
    (h : lowerModel m preferences default = .ok accept d) :
    ∃ d₁ d₂ name, DeclaresRules default d₁ m.rules.toList ∧
      d₁.nonterminals.size = m.rules.size ∧
      d₁.Extends (fun n => ∃ rule ∈ m.rules.toList, (scopeFor m preferences d₁ rule).Synthesizes n)
        m (m.grammar.rules.toList.flatMap fun rule => rule.body.ids) [] [] d₂ ∧
      d.nonterminals = d₂.nonterminals.push
        ⟨accept, name, (d₂.nonterminals.getD m.start default).content, .accept⟩ := by
  obtain ⟨d₁, d₂, hrules, ⟨u, hlowered⟩, haccept⟩ := lowerModel_eq_ok h
  obtain ⟨d₃, action, hdeclares, hproduces⟩ := declareAccept_eq_ok haccept
  obtain ⟨name, hpush⟩ := hdeclares.nonterminals_eq
  have hsize : d₁.nonterminals.size = m.rules.size :=
    hrules.size_eq.trans ((Nat.zero_add _).trans (Array.length_toList ..))
  have hextends := lowerRules_extends hm (Nat.le_of_eq hsize.symm) hlowered
  exact ⟨d₁, d₂, name, hrules, hsize, hextends, hproduces.nonterminals_eq.trans hpush⟩

/-- The name after which the expressions of a rule are called is still the one of the rule's
nonterminal when nonterminals were added. -/
theorem owner_eq_of_grows (hm : m.Numbered) (hsize : d₁.nonterminals.size = m.rules.size)
    (hgrows : d₁.Grows d₂) {last : Nonterminal} (hpush : d.nonterminals = d₂.nonterminals.push last)
    {rule : RuleModel} (hrule : rule ∈ m.rules.toList) :
    (scopeFor m preferences d₁ rule).owner = (d.nonterminals.getD rule.id default).name := by
  obtain ⟨k, hk, hrule⟩ := Array.mem_iff_getElem.mp (Array.mem_toList_iff.mp hrule)
  have hlt : rule.id < d₁.nonterminals.size := by
    rw [← hrule, hm.rule_id k hk, hsize]
    exact hk
  have hlt₂ := Nat.lt_of_lt_of_le hlt hgrows.size_le
  rw [scopeFor, hpush, Array.getD_eq_getD_getElem?, Array.getD_eq_getD_getElem?,
    Array.getElem?_push_lt hlt₂, ← hgrows.keeps_nonterminal _ hlt, Array.getElem?_eq_getElem hlt₂]

end Lowering

namespace ProductionSet

/-- What lowering a rule to the productions of a set needs to know. -/
def scope (set : ProductionSet) (m : GrammarModel) (r : RuleId) : LoweringScope :=
  ⟨m, m.rules.getD r default, (set.nonterminal r).name, false⟩

/-- The name asked for a nonterminal that is made for an expression of a rule. -/
def baseName (set : ProductionSet) (m : GrammarModel) (r : RuleId) (node : NodeId)
    (kind : SynthesizedKind) : String :=
  (set.scope m r).baseName node kind

/-- The nonterminals made for the expressions of a rule are named after them. -/
structure NamesExpressions (set : ProductionSet) (m : GrammarModel) : Prop where
  /-- Each is called as it asked for, with a number behind it if that was taken. -/
  named : ∀ n ∈ set.nonterminals, ∀ r node kind, n.origin = .synthesized r node kind →
    n.name = set.baseName m r node kind ∨
      ∃ k, n.name = Naming.numbered (set.baseName m r node kind) k
  /-- The name asked for tells the expression of the rule, and the kind. -/
  determined : ∀ (r : RuleId) rule, m.grammar.rules[r]? = some rule →
    ∀ x ∈ rule.body.preorder, ∀ y ∈ rule.body.preorder, ∀ kind kind',
      set.baseName m r x.id kind = set.baseName m r y.id kind' → x = y ∧ kind = kind'

variable {set : ProductionSet} {m : GrammarModel} {preferences : LoweringPreferences}

/-- What lowering makes for expressions is called after them. -/
theorem named_of_lower (hm : m.Numbered) (hset : (m.lower preferences).result = .ok set)
    {n : Nonterminal} (hn : n ∈ set.nonterminals) {r : RuleId} {node : NodeId}
    {kind : SynthesizedKind} (horigin : n.origin = .synthesized r node kind) :
    n.name = set.baseName m r node kind ∨
      ∃ k, n.name = Naming.numbered (set.baseName m r node kind) k := by
  obtain ⟨accept, d, hlower, rfl, -⟩ := GrammarModel.lower_eq_ok hset
  obtain ⟨d₁, d₂, name, hrules, hsize, hextends, hpush⟩ :=
    Lowering.lowerModel_extends hm hlower
  obtain ⟨i, hi⟩ : ∃ i : Nat, d₂.nonterminals[i]? = some n := by
    change n ∈ d.nonterminals at hn
    rw [hpush, Array.mem_push] at hn
    refine Array.mem_iff_getElem?.mp (hn.resolve_right fun heq => ?_)
    rw [heq] at horigin
    cases horigin
  -- it is not the nonterminal of a rule, so it was made for an expression
  have hnew : d₁.nonterminals.size ≤ i := by
    by_contra hlt
    rw [Nat.not_le] at hlt
    have hrule : m.rules.toList[i]? = some m.rules[i] := by simp [hsize ▸ hlt]
    obtain ⟨other, hother⟩ := hrules.getElem?_eq hrule
    rw [hextends.keeps_nonterminal i hlt, hother] at hi
    cases hi
    cases horigin
  obtain ⟨rule, hrule, e, kind', horigin', -, hname⟩ := hextends.synthesized i hnew n hi
  obtain ⟨rfl, rfl, rfl⟩ : rule.id = r ∧ e.id = node ∧ kind' = kind := by
    rw [horigin'] at horigin
    injection horigin with hr hnode hkind
    exact ⟨hr, hnode, hkind⟩
  have howner : (Lowering.scopeFor m preferences d₁ rule).owner =
      ((d.finish accept).nonterminal rule.id).name :=
    Lowering.owner_eq_of_grows hm hsize hextends.toGrows hpush hrule
  have hbase : (Lowering.scopeFor m preferences d₁ rule).baseName e.id kind' =
      (d.finish accept).baseName m rule.id e.id kind' := by
    unfold baseName scope
    rw [← howner]
    rfl
  rwa [hbase] at hname

end ProductionSet

namespace Grammar

variable {grammar : Grammar} {m : GrammarModel} {set : ProductionSet}

/-- In a model of a grammar the names asked for tell the expressions of a rule apart. -/
theorem eq_of_baseName_eq
    (hids : (grammar.rules.toList.flatMap fun rule => rule.body.ids).Nodup)
    (hpaths : m.nodePaths = grammar.paths) {rule : Rule} (hrule : rule ∈ grammar.rules.toList)
    {x y : Expr} (hx : x ∈ rule.body.preorder) (hy : y ∈ rule.body.preorder) {r : RuleId}
    {kind kind' : SynthesizedKind} (h : set.baseName m r x.id kind = set.baseName m r y.id kind') :
    x = y ∧ kind = kind' := by
  obtain ⟨address, -, hpath⟩ := exists_address hids hrule hx
  obtain ⟨other, -, hpath'⟩ := exists_address hids hrule hy
  rw [← hpaths] at hpath hpath'
  have hplace : m.nodePath x.id = written address := by rw [GrammarModel.nodePath, hpath]; rfl
  have hplace' : m.nodePath y.id = written other := by rw [GrammarModel.nodePath, hpath']; rfl
  have hfree : '_' ∉ (m.nodePath y.id).toList := by
    rw [hplace']
    exact fun hmem => absurd (isAlphanum_written _ hmem) (by decide)
  obtain ⟨heq, hkind⟩ : m.nodePath x.id = m.nodePath y.id ∧ kind = kind' :=
    LoweringScope.baseName_inj (set.scope m r) hfree h
  rw [hplace, hplace'] at heq
  refine ⟨eq_of_get?_paths_eq hids hrule hx hy ?_, hkind⟩
  rw [← hpaths, hpath, hpath', heq]

/-- Structural places identify expressions: the expressions of a grammar are numbered in the order
of the text, no two expressions of a rule have the same place, and the name asked for a nonterminal
that is made for an expression tells the expression of the rule. -/
theorem nodes_identified (directives : List Directive) (rules : List Rule) :
    (ofParts directives rules).IdentifiesNodes ∧
      ∀ (preferences : ModelPreferences) (overrides : Overrides) (m : GrammarModel),
        ((ofParts directives rules).buildModel preferences overrides).result = .ok m →
          ∀ (lowering : LoweringPreferences) (set : ProductionSet),
            (m.lower lowering).result = .ok set → set.NamesExpressions m := by
  refine ⟨identifiesNodes_ofParts directives rules, fun preferences overrides m hm lowering set
    hset => ⟨fun n hn r node kind horigin => ?_, fun r rule hrule x hx y hy kind kind' h => ?_⟩⟩
  · exact ProductionSet.named_of_lower (buildModel_numbered hm) hset hn horigin
  · obtain ⟨-, -, rfl⟩ := buildModel_eq_ok hm
    have hmem := Array.mem_toList_iff.mpr (Array.mem_of_getElem? hrule)
    exact eq_of_baseName_eq (nodup_ids_ofParts directives rules) rfl hmem hx hy h

/-- A rule with a list of a choice and another list behind it, each of them with something inside
that gets a nonterminal of its own. -/
theorem nodes_identified_nested : ∃ (rules : List Rule) (m : GrammarModel) (set : ProductionSet),
    ((ofParts [] rules).buildModel default default).result = .ok m ∧
      (m.lower default).result = .ok set ∧
      (set.nonterminals.toList.map fun n => n.name) =
        ["A", "A_s1_list", "A_s1rg_alt", "A_s1rga2s2_opt", "A_s2gs2_list", "accept_"] ∧
      (ofParts [] rules).IdentifiesNodes ∧ set.NamesExpressions m := by
  let leaf (text : String) : Expr := .terminal default (.literal text)
  let choice : Expr := .alternation default
    [leaf "a", .sequence default [leaf "b", .optional default (leaf "c")]]
  let tail : Expr := .sequence default [leaf "d", .repeated default (leaf "e") .oneOrMore]
  let body : Expr := .sequence default
    [.repeated default (.group default choice) .zeroOrMore, .group default tail]
  let rules : List Rule := [⟨"A", default, [], body, default⟩]
  have hnames : (((ofParts [] rules).buildModel default default).result.toOption.bind fun m =>
      (m.lower default).result.toOption.map fun set =>
        set.nonterminals.toList.map fun n => n.name) =
        some ["A", "A_s1_list", "A_s1rg_alt", "A_s1rga2s2_opt", "A_s2gs2_list", "accept_"] := by
    cbv
  have hok {ε α : Type} {result : Except ε α} {a : α} (h : result.toOption = some a) :
      result = .ok a := by
    cases result with
    | ok value => exact congrArg _ (Option.some.inj h)
    | error e => cases h
  obtain ⟨m, hm, hrest⟩ := Option.bind_eq_some_iff.mp hnames
  obtain ⟨set, hset, hset_names⟩ := Option.map_eq_some_iff.mp hrest
  obtain ⟨hidentifies, hnamed⟩ := nodes_identified [] rules
  exact ⟨rules, m, set, hok hm, hok hset, hset_names, hidentifies,
    hnamed default default m (hok hm) default set (hok hset)⟩

end Grammar

end AnnotatedGrammar
