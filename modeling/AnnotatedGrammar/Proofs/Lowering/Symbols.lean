import Mathlib
import AnnotatedGrammar.Proofs.Generation
import AnnotatedGrammar.Proofs.Lowering.Additions
import AnnotatedGrammar.Proofs.Model.RuleNames
import AnnotatedGrammar.Proofs.Model.WellFormed
import AnnotatedGrammar.Proofs.Token.Catalog
import AnnotatedGrammar.Proofs.Token.Words

/-!
# Symbols of the generated parser

The nonterminals of a production set and the tokens of its catalog are all called differently. Rules
keep their names unless they are called like a token or like a symbol that the parser generator
claims; then an underscore follows, which no token name has at its end. What is made for an
expression ends with a word in small letters, or with a number behind it.
-/

namespace AnnotatedGrammar

namespace Naming

/-- A name that a nonterminal may have, unless it is that of whole texts. -/
structure IsNonterminalName (name : String) : Prop where
  identifier : isIdentifier name = true
  free : name ∉ parserWords
  noToken : ¬IsTokenName name

/-- A name that begins like a claimed symbol with an underscore behind it. -/
def IsDisplaced (name : String) : Prop :=
  ∃ word ∈ parserWords, (word ++ "_").toList <+: name.toList

theorem IsDisplaced.numbered {name : String} (h : IsDisplaced name) (n : Nat) :
    IsDisplaced (numbered name n) := by
  obtain ⟨word, hword, hprefix⟩ := h
  refine ⟨word, hword, ?_⟩
  rw [toList_numbered]
  exact hprefix.trans (List.prefix_append _ _)

theorem IsDisplaced.isNonterminalName {name : String} (h : IsDisplaced name)
    (hname : isIdentifier name = true) : IsNonterminalName name := by
  obtain ⟨word, hword, hprefix⟩ := h
  refine ⟨hname, fun hmem => ?_, fun htoken => ?_⟩
  · have hnone : ∀ word ∈ parserWords, ∀ other ∈ parserWords,
        ¬(word ++ "_").toList <+: other.toList := by
      decide
    exact hnone word hword name hmem hprefix
  · have hnone : ∀ word ∈ parserWords, ¬(word ++ "_").toList <+: "TOK_".toList ∧
        ¬"TOK_".toList <+: (word ++ "_").toList := by
      decide
    rcases List.prefix_or_prefix_of_prefix hprefix htoken.begins with h | h
    · exact (hnone word hword).1 h
    · exact (hnone word hword).2 h

/-! ## Rules -/

/-- A rule name either stays as it is, or is claimed or begins like a token and gets an end. -/
theorem nonterminalSymbol_cases (name : String) :
    nonterminalSymbol name = name ∧ name ∉ parserWords ∧ ¬"TOK_".toList <+: name.toList ∨
      nonterminalSymbol name = name ++ "_" ∧
        (name ∈ parserWords ∨ "TOK_".toList <+: name.toList) := by
  unfold nonterminalSymbol looksLikeToken
  by_cases h : (parserWords.contains name || "TOK_".toList.isPrefixOf name.toList) = true
  · rw [if_pos h, Bool.or_eq_true, List.contains_iff_mem, List.isPrefixOf_iff_prefix] at *
    exact .inr ⟨rfl, h⟩
  · rw [if_neg h]
    rw [Bool.or_eq_true, not_or, List.contains_iff_mem, List.isPrefixOf_iff_prefix] at h
    exact .inl ⟨rfl, h⟩

theorem isIdentifier_nonterminalSymbol {name : String} (h : isIdentifier name = true) :
    isIdentifier (nonterminalSymbol name) = true := by
  rcases nonterminalSymbol_cases name with ⟨heq, -⟩ | ⟨heq, -⟩ <;> rw [heq]
  · exact h
  · exact isIdentifier_append h (by simp [isLetterOrDigit])

theorem isNonterminalName_nonterminalSymbol {name : String} (h : isIdentifier name = true) :
    IsNonterminalName (nonterminalSymbol name) := by
  have hidentifier := isIdentifier_nonterminalSymbol h
  rcases nonterminalSymbol_cases name with ⟨heq, hfree, htoken⟩ | ⟨heq, hword | htoken⟩
  · rw [heq] at hidentifier ⊢
    exact ⟨hidentifier, hfree, fun h => htoken h.begins⟩
  · refine IsDisplaced.isNonterminalName ⟨name, hword, ?_⟩ hidentifier
    rw [heq]
  · rw [heq] at hidentifier ⊢
    -- with the underscore it is longer than the beginning of a token
    refine ⟨hidentifier, fun hmem => ?_, fun hname => ?_⟩
    · have hnone : ∀ word ∈ parserWords, ¬"TOK_".toList <+: word.toList := by decide
      refine hnone _ hmem ?_
      rw [String.toList_append]
      exact htoken.trans (List.prefix_append _ _)
    · rcases hname.ends with hend | ⟨c, hc, hcapital⟩
      · have hlength := congrArg (List.length ∘ String.toList) hend
        have hle := htoken.length_le
        simp at hlength hle
        omega
      · rw [String.toList_append] at hc
        simp at hc
        subst hc
        exact absurd hcapital (by decide)

/-- Rules of different names ask for the same nonterminal only if one of them displaces the other
from a claimed name. -/
theorem isDisplaced_of_nonterminalSymbol_eq {name other : String} (hne : name ≠ other)
    (h : nonterminalSymbol name = nonterminalSymbol other) :
    IsDisplaced (nonterminalSymbol name) := by
  have hclaimed {short long : String} (heq : long = short ++ "_")
      (hlong : ¬"TOK_".toList <+: long.toList)
      (hshort : short ∈ parserWords ∨ "TOK_".toList <+: short.toList) : IsDisplaced long := by
    rcases hshort with hword | htoken
    · exact ⟨short, hword, by rw [heq]⟩
    · refine absurd ?_ hlong
      rw [heq, String.toList_append]
      exact htoken.trans (List.prefix_append _ _)
  rcases nonterminalSymbol_cases name with ⟨heq, -, hname⟩ | ⟨heq, hname⟩ <;>
    rcases nonterminalSymbol_cases other with ⟨heq', -, hother⟩ | ⟨heq', hother⟩ <;>
    rw [heq, heq'] at h
  · exact absurd h hne
  · rw [heq]
    exact hclaimed h hname hother
  · rw [heq, h]
    exact hclaimed h.symm hother hname
  · refine absurd (String.toList_inj.mp ?_) hne
    have hlist := congrArg String.toList h
    rw [String.toList_append, String.toList_append] at hlist
    exact List.append_cancel_right hlist

/-! ## Expressions -/

theorem isNonterminalName_word {start : String} (hstart : isIdentifier start = true)
    (kind : SynthesizedKind) : IsNonterminalName (start ++ kind.word) ∧
      ∀ n, IsNonterminalName (numbered (start ++ kind.word) n) := by
  have hword : ∀ c ∈ kind.word.toList, c.isLower = true := by
    cases kind <;> simp [SynthesizedKind.word, Char.isLower]
  obtain ⟨c, hc⟩ : ∃ c, c ∈ kind.word.toList := by
    cases kind <;> exact ⟨_, List.mem_cons_self⟩
  have hidentifier : isIdentifier (start ++ kind.word) = true :=
    isIdentifier_append hstart fun x hx => isLetterOrDigit_of_isAlphanum (by
      rw [Char.isAlphanum, Char.isAlpha, hword x hx, Bool.or_true, Bool.true_or])
  -- no token name has small letters
  have hsmall {name : String} (hmem : c ∈ name.toList) : ¬IsTokenName name := by
    intro h
    have hlower := hword c hc
    rcases h.capitals c hmem with hcapital | rfl
    · exact not_isLower_of_isCapital hcapital hlower
    · exact absurd hlower (by decide)
  have hmem : c ∈ (start ++ kind.word).toList := by
    rw [String.toList_append]
    exact List.mem_append_right _ hc
  refine ⟨⟨hidentifier, fun hclaimed => ?_, hsmall hmem⟩, fun n =>
    ⟨isIdentifier_numbered hidentifier n, fun hclaimed => ?_, hsmall ?_⟩⟩
  · have hends : ∀ word ∈ parserWords, word.toList.getLast? ≠ kind.word.toList.getLast? := by
      cases kind <;> decide
    refine hends _ hclaimed ?_
    rw [String.toList_append, List.getLast?_append]
    cases kind <;> rfl
  · have hends : ∀ word ∈ parserWords, word.toList.getLast?.any Char.isDigit = false := by
      decide
    have hne : Nat.toDigits 10 n ≠ [] := Nat.toDigits_ne_nil
    have hdigit := Nat.isDigit_of_mem_toDigits (by decide) (by decide) (List.getLast_mem hne)
    have hlast := hends _ hclaimed
    rw [toList_numbered, List.getLast?_append, List.getLast?_cons_of_ne_nil hne,
      List.getLast?_eq_some_getLast hne] at hlast
    simp [hdigit] at hlast
  · rw [toList_numbered]
    exact List.mem_append_left _ hmem

end Naming

/-- Places are written with letters and digits. -/
theorem Expr.isLetterOrDigit_paths :
    (∀ (path : String) (e : Expr), (∀ c ∈ path.toList, Naming.isLetterOrDigit c = true) →
      ∀ entry ∈ e.paths path, ∀ c ∈ entry.2.toList, Naming.isLetterOrDigit c = true) ∧
    ∀ (step : String) (number : Nat) (es : List Expr),
      (∀ c ∈ step.toList, Naming.isLetterOrDigit c = true) →
      ∀ entry ∈ Expr.pathsOfAll step number es,
        ∀ c ∈ entry.2.toList, Naming.isLetterOrDigit c = true := by
  have happend {path step : String} (hpath : ∀ c ∈ path.toList, Naming.isLetterOrDigit c = true)
      (hstep : ∀ c ∈ step.toList, Naming.isLetterOrDigit c = true) :
      ∀ c ∈ (path ++ step).toList, Naming.isLetterOrDigit c = true := by
    intro c hc
    rw [String.toList_append] at hc
    exact (List.mem_append.mp hc).elim (hpath c) (hstep c)
  apply Expr.paths.mutual_induct
  case case1 | case2 =>
    intro path info _ hpath
    exact List.forall_mem_singleton.mpr hpath
  case case3 | case4 | case5 | case7 =>
    intro path info body ih hpath
    rw [Expr.paths]
    exact List.forall_mem_cons.mpr ⟨hpath, ih (happend hpath (by simp [Naming.isLetterOrDigit]))⟩
  case case6 =>
    intro path info body kind ih hpath
    rw [Expr.paths]
    exact List.forall_mem_cons.mpr ⟨hpath, ih (happend hpath (by simp [Naming.isLetterOrDigit]))⟩
  case case8 =>
    intro step number _ entry hentry
    cases hentry
  case case9 =>
    intro step number e rest ih ihrest hstep entry hentry
    rw [Expr.pathsOfAll] at hentry
    rcases List.mem_append.mp hentry with hentry | hentry
    · refine ih (happend hstep fun c hc => ?_) entry hentry
      rw [Nat.toString_eq_ofList_toDigits, String.toList_ofList] at hc
      exact Naming.isLetterOrDigit_numbered number (List.mem_cons_of_mem _ hc)
    · exact ihrest hstep entry hentry

namespace Lowering

open Naming

variable {d d' : ProductionDraft}

/-- The names declared for rules of some names: each is what its rule asks for, or begins like a
claimed symbol. -/
structure NamesRules (read : List String) (d : ProductionDraft) : Prop where
  nodup : d.names.Nodup
  identifier : ∀ name ∈ d.names, isIdentifier name = true
  asked : ∀ name ∈ d.names, IsDisplaced name ∨ ∃ rule ∈ read, name = nonterminalSymbol rule

theorem NamesRules.isNonterminalName {read : List String} (h : NamesRules read d)
    (hread : ∀ rule ∈ read, isIdentifier rule = true) :
    ∀ name ∈ d.names, IsNonterminalName name := by
  intro name hname
  rcases h.asked name hname with hdisplaced | ⟨rule, hrule, rfl⟩
  · exact hdisplaced.isNonterminalName (h.identifier name hname)
  · exact isNonterminalName_nonterminalSymbol (hread rule hrule)

theorem NamesRules.declare {read : List String} (h : NamesRules read d) {rule : String}
    (hrule : isIdentifier rule = true) (hnew : rule ∉ read) {content : Content}
    {origin : NonterminalOrigin} {n : NonterminalId}
    (hdeclare : declare (nonterminalSymbol rule) content origin d = .ok n d') :
    NamesRules (rule :: read) d' := by
  obtain ⟨name, hname, hcases, hfresh⟩ := declare_name hdeclare
  have hnames : d'.names = d.names ++ [name] := by simp [ProductionDraft.names, hname]
  have hsymbol := isIdentifier_nonterminalSymbol hrule
  have hnamed : isIdentifier name = true ∧ (IsDisplaced name ∨ name = nonterminalSymbol rule) := by
    rcases hcases with rfl | ⟨⟨k, rfl⟩, htaken⟩
    · exact ⟨hsymbol, .inr rfl⟩
    · refine ⟨isIdentifier_numbered hsymbol k, .inl (IsDisplaced.numbered ?_ k)⟩
      rcases h.asked _ htaken with hdisplaced | ⟨other, hother, heq⟩
      · exact hdisplaced
      · exact isDisplaced_of_nonterminalSymbol_eq (fun hsame => hnew (hsame ▸ hother)) heq
  constructor
  · rw [hnames]
    exact List.nodup_append.mpr ⟨h.nodup, List.nodup_singleton _, by
      rintro other hother _ hmem rfl
      exact hfresh (List.mem_singleton.mp hmem ▸ hother)⟩
  · rw [hnames]
    exact List.forall_mem_append.mpr ⟨h.identifier, List.forall_mem_singleton.mpr hnamed.1⟩
  · rw [hnames]
    refine List.forall_mem_append.mpr ⟨fun other hother => ?_, List.forall_mem_singleton.mpr ?_⟩
    · exact (h.asked other hother).imp_right fun hasked =>
        hasked.imp fun _ hfound => ⟨List.mem_cons_of_mem _ hfound.1, hfound.2⟩
    · exact hnamed.2.imp_right fun heq => ⟨rule, List.mem_cons_self, heq⟩

/-- Rules of different names get different nonterminals. -/
theorem declareRules_names {m : GrammarModel} {u : Unit} {names : List String}
    (hsymbols : m.rules.toList.map (·.symbol) = names.map nonterminalSymbol)
    (hnodup : names.Nodup) (hnames : ∀ name ∈ names, isIdentifier name = true)
    (h : declareRules m default = .ok u d') :
    d'.names.Nodup ∧ ∀ name ∈ d'.names, IsNonterminalName name := by
  suffices hall : ∀ (rules : List RuleModel) (names read : List String) (d : ProductionDraft),
      rules.map (·.symbol) = names.map nonterminalSymbol → (read ++ names).Nodup →
      (∀ name ∈ names, isIdentifier name = true) → NamesRules read d →
      (rules.forM fun rule => do
        discard (declare rule.symbol (.ofValue? rule.value) (.rule rule.id))) d = .ok u d' →
      NamesRules (names.reverse ++ read) d' by
    have hnone : (default : ProductionDraft).names = [] := rfl
    have hdone := hall m.rules.toList names [] default hsymbols (by simpa using hnodup) hnames
      ⟨List.nodup_nil, by simp [hnone], by simp [hnone]⟩ h
    exact ⟨hdone.nodup, hdone.isNonterminalName (by simpa using hnames)⟩
  clear h hsymbols hnodup hnames
  intro rules
  induction rules with
  | nil =>
    intro names read d hsymbols _ _ hnamed h
    obtain rfl : names = [] := by simpa using hsymbols.symm
    simp only [List.forM_eq_forM, List.forM_nil, pure_eq_ok] at h
    obtain ⟨-, rfl⟩ := h
    exact hnamed
  | cons rule rest ih =>
    intro names read d hsymbols hnodup hnames hnamed h
    cases names with
    | nil => cases hsymbols
    | cons name names =>
      obtain ⟨hsymbol, hsymbols⟩ : rule.symbol = nonterminalSymbol name ∧ _ :=
        List.cons.inj hsymbols
      obtain ⟨hname, hnames⟩ := List.forall_mem_cons.mp hnames
      simp only [List.forM_eq_forM, List.forM_cons, bind_eq_ok, discard_eq_ok] at h
      obtain ⟨_, d₁, ⟨n, hdeclare⟩, hrest⟩ := h
      have hnew := List.nodup_middle.mp hnodup
      rw [hsymbol] at hdeclare
      have hdone := ih names (name :: read) d₁ hsymbols hnew hnames
        (hnamed.declare hname (fun hmem => (List.nodup_cons.mp hnew).1
          (List.mem_append_left _ hmem)) hdeclare) hrest
      simpa using hdone

/-- What is made for an expression of a rule is called after the rule's nonterminal. -/
theorem isNonterminalName_of_synthesizes {sc : LoweringScope} {n : Nonterminal}
    (howner : isIdentifier sc.owner = true)
    (hpath : ∀ node, ∀ c ∈ (sc.model.nodePath node).toList, isLetterOrDigit c = true)
    (h : sc.Synthesizes n) : IsNonterminalName n.name := by
  obtain ⟨e, kind, -, -, hname⟩ := h
  generalize e.id = node at hname
  have hunderscore : ∀ c ∈ "_".toList, isLetterOrDigit c = true := by simp [isLetterOrDigit]
  have hstart : ∃ start, isIdentifier start = true ∧
      sc.baseName node kind = start ++ kind.word := by
    unfold LoweringScope.baseName
    dsimp only
    split
    · exact ⟨sc.owner ++ "_", isIdentifier_append howner hunderscore, rfl⟩
    · exact ⟨sc.owner ++ "_" ++ sc.model.nodePath node ++ "_", isIdentifier_append
        (isIdentifier_append (isIdentifier_append howner hunderscore)
          (hpath node)) hunderscore, rfl⟩
  obtain ⟨start, hstart, hbase⟩ := hstart
  have hword := isNonterminalName_word hstart kind
  rw [hbase] at hname
  rcases hname with hname | ⟨k, hname⟩ <;> rw [hname]
  · exact hword.1
  · exact hword.2 k

/-- The name of whole texts is not taken by any other nonterminal. -/
theorem declareAccept_name {m : GrammarModel} {accept : NonterminalId}
    (hd : ∀ name ∈ d.names, IsNonterminalName name) (h : declareAccept m d = .ok accept d') :
    ∃ content, d'.nonterminals = d.nonterminals.push ⟨accept, acceptName, content, .accept⟩ ∧
      acceptName ∉ d.names := by
  simp only [declareAccept, bind_eq_ok, get_eq_ok, pure_eq_ok] at h
  obtain ⟨_, _, ⟨rfl, rfl⟩, n, d₁, hdeclare, _, d₂, hproduce, rfl, rfl⟩ := h
  have hfree : acceptName ∉ d.names := fun hmem => (hd _ hmem).free (by decide)
  obtain ⟨name, hname, hcases, -⟩ := declare_name hdeclare
  refine ⟨(d.nonterminals.getD m.start default).content, ?_, hfree⟩
  rw [(produce_eq_ok hproduce).nonterminals_eq, hname,
    hcases.resolve_right fun hnumbered => hfree hnumbered.2]

end Lowering

/-- The symbols of a production set and of its tokens, as the parser generator needs them. -/
structure ProductionSet.SymbolsClear (set : ProductionSet) : Prop where
  /-- Nonterminals and tokens are all called differently. -/
  distinct : (set.nonterminals.toList.map (·.name) ++
    (TokenCatalog.ofProductions set).entries.map (·.name)).Nodup
  nonterminals : ∀ n ∈ set.nonterminals, Naming.isIdentifier n.name = true
  tokens : ∀ e ∈ (TokenCatalog.ofProductions set).entries, Naming.isIdentifier e.name = true
  /-- The nonterminal of whole texts. -/
  start : ∃ n, set.nonterminals[set.start]? = some n ∧ n.origin = .accept
  accept : ∀ n ∈ set.nonterminals, n.origin = .accept → n.name = "accept_"
  /-- No other nonterminal is called like a symbol that the parser generator claims. -/
  free : ∀ n ∈ set.nonterminals, n.origin ≠ .accept →
    n.name ∉ ["error", "YYEOF", "YYerror", "YYUNDEF", "accept_"]

namespace GrammarModel

/-- What the names of nonterminals depend on: rules of different names that are identifiers, each
with the nonterminal its name asks for, and places written with letters and digits. -/
structure RulesNamed (m : GrammarModel) : Prop where
  numbered : m.Numbered
  nodup : (m.grammar.rules.toList.map (·.name)).Nodup
  identifier : ∀ rule ∈ m.grammar.rules.toList, Naming.isIdentifier rule.name = true
  symbol_eq : m.rules.toList.map (·.symbol) =
    m.grammar.rules.toList.map fun rule => Naming.nonterminalSymbol rule.name
  path : ∀ node, ∀ c ∈ (m.nodePath node).toList, Naming.isLetterOrDigit c = true

open Naming

variable {m : GrammarModel} {preferences : LoweringPreferences}

/-- The nonterminals of rules and of the expressions in them have different names, and such as
nonterminals may have. -/
theorem RulesNamed.lowerRules_names (hm : m.RulesNamed) {d₁ d₂ : ProductionDraft} {u u' : Unit}
    (hdeclare : Lowering.declareRules m default = .ok u d₁)
    (hrules : Lowering.lowerRules m preferences d₁ = .ok u' d₂) :
    d₂.names.Nodup ∧ ∀ n ∈ d₂.nonterminals, IsNonterminalName n.name ∧ n.origin ≠ .accept := by
  have hdeclares := Lowering.declareRules_declaresRules hdeclare
  obtain ⟨hnodup, hnames⟩ := @Lowering.declareRules_names _ _ _
    (m.grammar.rules.toList.map (·.name))
    (by rw [hm.symbol_eq, List.map_map]; rfl) hm.nodup
    (List.forall_mem_map.mpr hm.identifier) hdeclare
  have hsize : d₁.nonterminals.size = m.rules.size :=
    hdeclares.size_eq.trans ((Nat.zero_add _).trans (Array.length_toList ..))
  have hextends := Lowering.lowerRules_extends hm.numbered (Nat.le_of_eq hsize.symm) hrules
  have howner : ∀ rule ∈ m.rules.toList,
      isIdentifier (Lowering.scopeFor m preferences d₁ rule).owner = true := by
    intro rule hrule
    obtain ⟨k, hk, rfl⟩ := Array.mem_iff_getElem.mp (Array.mem_toList_iff.mp hrule)
    have hlt : k < d₁.nonterminals.size := hsize ▸ hk
    refine (hnames _ ?_).identifier
    simp only [Lowering.scopeFor, hm.numbered.rule_id k hk, Array.getD_eq_getD_getElem?,
      Array.getElem?_eq_getElem hlt, Option.getD_some]
    exact List.mem_map_of_mem (Array.mem_toList_iff.mpr (Array.getElem_mem hlt))
  refine ⟨hextends.distinct hnodup, fun n hn => ?_⟩
  obtain ⟨i, hi⟩ := Array.mem_iff_getElem?.mp hn
  by_cases hlt : i < d₁.nonterminals.size
  · rw [hextends.keeps_nonterminal i hlt] at hi
    have hrule : m.rules.toList[i]? = some m.rules[i] := by simp [hsize ▸ hlt]
    obtain ⟨name, hname⟩ := hdeclares.getElem?_eq hrule
    obtain rfl := Option.some.inj (hname.symm.trans hi)
    exact ⟨hnames name (List.mem_map_of_mem (f := (·.name))
      (Array.mem_toList_iff.mpr (Array.mem_of_getElem? hi))), by simp⟩
  · obtain ⟨rule, hrule, hsynthesizes⟩ := hextends.synthesized i (Nat.not_lt.mp hlt) n hi
    have hpath : ∀ node, ∀ c ∈ ((Lowering.scopeFor m preferences d₁ rule).model.nodePath
        node).toList, isLetterOrDigit c = true := hm.path
    refine ⟨Lowering.isNonterminalName_of_synthesizes (howner rule hrule) hpath hsynthesizes, ?_⟩
    obtain ⟨node, kind, horigin, -⟩ := hsynthesizes
    rw [horigin]
    simp

/-- No two symbols of the generated parser have the same name. -/
theorem RulesNamed.symbolsClear (hm : m.RulesNamed) {set : ProductionSet}
    (hset : (m.lower preferences).result = .ok set) : set.SymbolsClear := by
  obtain ⟨accept, d, hlower, rfl, -⟩ := lower_eq_ok hset
  simp only [Lowering.lowerModel, Lowering.bind_eq_ok] at hlower
  obtain ⟨_, d₁, hdeclare, _, d₂, hrules, haccept⟩ := hlower
  obtain ⟨hnodup, hmade⟩ := hm.lowerRules_names hdeclare hrules
  have hnames₂ : ∀ name ∈ d₂.names, IsNonterminalName name :=
    List.forall_mem_map.mpr fun n hn => (hmade n (Array.mem_toList_iff.mp hn)).1
  obtain ⟨content, hpush, hfree⟩ := Lowering.declareAccept_name hnames₂ haccept
  have hindex : accept = d₂.nonterminals.size := by
    obtain ⟨_, _, hdeclares, -⟩ := Lowering.declareAccept_eq_ok haccept
    exact hdeclares.index_eq
  have hall : ∀ n ∈ d.nonterminals, n ∈ d₂.nonterminals ∨
      n = ⟨accept, Lowering.acceptName, content, .accept⟩ := by
    rw [hpush]
    exact fun n hn => Array.mem_push.mp hn
  have hnames : (d.finish accept).nonterminals.toList.map (·.name) =
      d₂.names ++ [Lowering.acceptName] := by
    simp [ProductionDraft.finish, hpush, ProductionDraft.names]
  have hacceptName : ¬IsTokenName Lowering.acceptName := fun h => by
    have := h.begins
    revert this
    decide
  constructor
  · rw [hnames]
    refine List.nodup_append.mpr
      ⟨List.nodup_append.mpr ⟨hnodup, List.nodup_singleton _, ?_⟩, TokenCatalog.names_nodup _, ?_⟩
    · rintro name hname _ hmem rfl
      exact hfree (List.mem_singleton.mp hmem ▸ hname)
    · rintro name hname _ hmem rfl
      obtain ⟨e, he, rfl⟩ := List.mem_map.mp hmem
      have htoken := TokenCatalog.isTokenName_of_mem e he
      rcases List.mem_append.mp hname with hname | hname
      · exact (hnames₂ _ hname).noToken htoken
      · exact hacceptName (List.mem_singleton.mp hname ▸ htoken)
  · intro n hn
    rcases hall n hn with hn | rfl
    · exact (hmade n hn).1.identifier
    · change isIdentifier "accept_" = true
      decide
  · exact fun e he => (TokenCatalog.isTokenName_of_mem e he).isIdentifier
  · refine ⟨⟨accept, Lowering.acceptName, content, .accept⟩, ?_, rfl⟩
    change d.nonterminals[accept]? = _
    rw [hpush, hindex, Array.getElem?_push_size]
  · intro n hn horigin
    rcases hall n hn with hn | rfl
    · exact absurd horigin (hmade n hn).2
    · rfl
  · intro n hn horigin
    rcases hall n hn with hn | rfl
    · exact (hmade n hn).1.free
    · exact absurd rfl horigin

end GrammarModel

namespace GenerationOptions

open Naming

variable {o : GenerationOptions} {source : List Char} {m : GrammarModel} {set : ProductionSet}

theorem isLetterOrDigit_nodePath (h : (o.frontEnd source).result = .ok m) (node : NodeId) :
    ∀ c ∈ (m.nodePath node).toList, isLetterOrDigit c = true := by
  obtain ⟨tokens, -, grammar, -, hmodel⟩ := frontEnd_eq_ok.mp h
  obtain ⟨-, -, rfl⟩ := Grammar.buildModel_eq_ok hmodel
  rw [GrammarModel.nodePath]
  cases hpath : ((grammar.draft o.preferences.model o.overrides).model
      grammar).nodePaths.get? node with
  | none => simp
  | some path =>
    obtain ⟨rule, -, hentry⟩ := List.mem_flatMap.mp (Grammar.mem_paths hpath)
    exact Expr.isLetterOrDigit_paths.1 "" rule.body (by simp) _ hentry

/-- The front end builds models with such names. -/
theorem frontEnd_rulesNamed (h : (o.frontEnd source).result = .ok m) : m.RulesNamed :=
  ⟨frontEnd_numbered h, ruleNames_nodup h, isIdentifier_ruleName h, map_symbol_rules h,
    isLetterOrDigit_nodePath h⟩

/-- Whatever the rules are called, no two symbols of the generated parser have the same name. -/
theorem lower_symbolsClear (hm : (o.frontEnd source).result = .ok m)
    (hset : (o.lower m).result = .ok set) : set.SymbolsClear :=
  (frontEnd_rulesNamed hm).symbolsClear (Outcome.ofStage_result_eq_ok.mp hset)

/-- Rules that are called like a token, like a claimed symbol with its underscore, and like what is
made for an expression of another rule. -/
theorem lower_symbolsClear_displaced : ∃ (o : GenerationOptions) (m : GrammarModel)
    (set : ProductionSet),
    (o.frontEnd "error=error_ TOK_A*;error_='a';TOK_A='A'?;error__s2_list='A';".toList).result =
        .ok m ∧ (o.lower m).result = .ok set ∧ set.SymbolsClear := by
  let o : GenerationOptions := ⟨default, "sample", false, default⟩
  have hok : (o.frontEnd
      "error=error_ TOK_A*;error_='a';TOK_A='A'?;error__s2_list='A';".toList).result.isOk =
        true := by
    decide +kernel
  obtain ⟨m, hm⟩ := Outcome.exists_of_isOk hok
  obtain ⟨set, hset⟩ := exists_lower hm
  exact ⟨o, m, set, hm, hset, lower_symbolsClear hm hset⟩

end GenerationOptions

end AnnotatedGrammar
