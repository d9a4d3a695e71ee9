import AnnotatedGrammar.Proofs.Language.Draft
import AnnotatedGrammar.Proofs.Model.Built

/-!
# Lowering keeps the language

Every function of the lowering makes terms, or productions of a given nonterminal, with the language
of the expression that it is applied to. Which of the many ways an expression is lowered in depends
on markers and on the model; the language does not.
-/

namespace AnnotatedGrammar.Lowering

open ProductionDraft

variable {sc : LoweringScope} {count : Nat} {σ : RuleReading}

section

variable (count σ)

/-- Every run that succeeds makes a term of the language `L`. -/
def MakesTerm (x : Lowering Term) (L : Meaning) : Prop :=
  ∀ ⦃d t d'⦄, x d = .ok t d' → LowersTo count σ d d' [t] L

/-- Every run that succeeds makes terms of the language `L`. -/
def MakesTerms (x : Lowering (List Term)) (L : Meaning) : Prop :=
  ∀ ⦃d terms d'⦄, x d = .ok terms d' → LowersTo count σ d d' terms L

/-- Every run that succeeds gives `lhs` productions of the language `L`. -/
def MakesProductions (x : Lowering Unit) (lhs : NonterminalId) (L : Meaning) : Prop :=
  ∀ ⦃d u d'⦄, x d = .ok u d' → Fills count σ d d' lhs L

/-- Every run that succeeds adds terms of the language `L`. -/
def AddsTerms (x : Lowering (Array Term × Option Nat)) (before : Array Term) (L : Meaning) :
    Prop :=
  ∀ ⦃d result d'⦄, x d = .ok result d' → LowersOnto count σ d d' before result.1 L

/-- Every run that succeeds adds parts of the language `L` to an instance. -/
def AddsParts (x : Lowering Assembly) (a : Assembly) (L : Meaning) : Prop :=
  ∀ ⦃d a' d'⦄, x d = .ok a' d' → LowersOnto count σ d d' a.body a'.body L

end

/-- The language of an expression in the grammar being lowered. -/
def meaning (sc : LoweringScope) (e : Expr) : Meaning := e.language sc.model.symbols

/-- The language of expressions in a row. -/
def meaningInRow (sc : LoweringScope) (items : List Expr) : Meaning :=
  fun σ => Expr.languageInRow sc.model.symbols σ items

/-- The language of expressions as alternatives. -/
def meaningOfAny (sc : LoweringScope) (branches : List Expr) : Meaning :=
  fun σ => Expr.languageOfAny sc.model.symbols σ branches

theorem lowersTo_terminal {d : ProductionDraft} (t : Terminal) :
    LowersTo count σ d d [.terminal t] fun _ => {[t]} where
  toGrows := .refl d
  inScope h := ⟨h, by simp [Term.Below]⟩
  complete _ _ := by simp [Term.language]
  sound _ ρ h := ⟨ρ, fun _ _ => rfl, h, by simp [Term.language]⟩

theorem leafTerm_lowersTo {d d' : ProductionDraft} (hnames : sc.model.symbols.NamesBelow count)
    {e : Expr} {name : String} {t : Term} (h : leafTerm sc e name d = .ok t d') :
    LowersTo count σ d d' [t] (sc.model.symbols.language · name) := by
  unfold leafTerm at h
  cases hsymbol : sc.model.symbols.resolve? name with
  | none => simp [hsymbol] at h
  | some symbol =>
    cases symbol with
    | builtin p =>
      simp only [hsymbol, pure_eq_ok] at h
      obtain ⟨rfl, rfl⟩ := h
      exact (lowersTo_terminal _).congr fun _ => by simp [SymbolTable.language, hsymbol]
    | rule id =>
      simp only [hsymbol, pure_eq_ok] at h
      obtain ⟨rfl, rfl⟩ := h
      have hid := hnames name id hsymbol
      refine ⟨.refl d, fun hs => ⟨hs, ?_⟩, fun ρ _ => ?_, fun _ ρ hr => ⟨ρ, fun _ _ => rfl, hr, ?_⟩⟩
      · simpa [Term.Below] using Nat.lt_of_lt_of_le hid hs.count_le
      · simp [SymbolTable.language, hsymbol, Term.language]
      · simp [SymbolTable.language, hsymbol, Term.language, hr.rules id hid]

/-- A quantified operand, from the warnings about its quantifiers on. -/
theorem lowersTo_collapsed {d d₁ d₂ d₃ d₄ : ProductionDraft} {quantifier : Quantifier}
    {body : Expr} {n : NonterminalId} {content : Content} {origin : NonterminalOrigin}
    {item : List Term} {added : List Production} (hwarn : d.Produces d₁ [])
    (hn : d₁.Declares d₂ n content origin)
    (hitem : LowersTo count σ d₂ d₃ item (meaning sc (body.absorb quantifier none).atom))
    (hproduce : d₃.Produces d₄ added) (hlhs : ∀ p ∈ added, p.lhs = n)
    (hbodies : added.map (·.body) =
      plainAlternatives (body.absorb quantifier none).quantifier item (.nonterminal n)) :
    LowersTo count σ d d₄ [.nonterminal n] fun σ => quantifier.apply (meaning sc body σ) :=
  .after ((LowersTo.quantified hn hitem hproduce hlhs hbodies).congr fun _ =>
    Expr.language_absorb quantifier none body) hwarn

/-! ## Without values -/

theorem plain_keepsLanguage (hnames : sc.model.symbols.NamesBelow count) :
    (∀ e, MakesTerm count σ (plainTerm sc e) (meaning sc e)) ∧
      (∀ e quantifier body, MakesTerm count σ (plainQuantified sc e quantifier body)
        fun σ => quantifier.apply (meaning sc body σ)) ∧
      (∀ e, MakesTerms count σ (plainTerms sc e) (meaning sc e)) ∧
      (∀ items, MakesTerms count σ (plainTermsAll sc items) (meaningInRow sc items)) ∧
      ∀ lhs branches, MakesProductions count σ (plainBranches sc lhs branches) lhs
        (meaningOfAny sc branches) := by
  apply plainTerm.mutual_induct
  case case1 =>
    intro info t d term d' h
    rw [plainTerm, pure_eq_ok] at h
    obtain ⟨rfl, rfl⟩ := h
    exact lowersTo_terminal t
  case case2 =>
    intro info name d t d' h
    rw [plainTerm] at h
    exact leafTerm_lowersTo hnames h
  case case3 =>
    intro info body hbody d t d' h
    rw [plainTerm] at h
    exact (hbody h).congr fun _ => rfl
  case case4 =>
    intro info items hitems d t d' h
    simp only [plainTerm, bind_eq_ok, pure_eq_ok] at h
    obtain ⟨n, d₁, hn, terms, d₂, hterms, _, _, hproduce, rfl, rfl⟩ := h
    exact .ofFills (synthesize_eq_ok hn) (.ofLowersTo (hitems hterms) (produce_eq_ok hproduce))
  case case5 =>
    intro info branches hbranches d t d' h
    simp only [plainTerm, bind_eq_ok, pure_eq_ok] at h
    obtain ⟨n, d₁, hn, _, _, hfill, rfl, rfl⟩ := h
    exact .ofFills (synthesize_eq_ok hn) (hbranches n hfill)
  case case6 =>
    intro info body hbody d t d' h
    rw [plainTerm] at h
    exact hbody h
  case case7 =>
    intro info body kind hbody d t d' h
    rw [plainTerm] at h
    exact hbody h
  case case8 =>
    intro e quantifier body found hatom d t d' h
    simp only [plainQuantified, bind_eq_ok, pure_eq_ok] at h
    obtain ⟨_, d₁, hwarn, n, d₂, hn, item, d₃, hitem, _, d₄, hproduce, rfl, rfl⟩ := h
    exact lowersTo_collapsed (warnNested_eq_ok hwarn) (synthesize_eq_ok hn) (hatom hitem)
      (produce_forM_eq_ok hproduce) (List.forall_mem_map.mpr fun _ _ => rfl)
      (by simp [Function.comp_def])
  case case9 =>
    intro info items hitems d terms d' h
    rw [plainTerms] at h
    exact (hitems h).congr fun _ => rfl
  case case10 =>
    intro info body hbody d terms d' h
    rw [plainTerms] at h
    exact (hbody h).congr fun _ => rfl
  case case11 =>
    intro e hsequence hgroup he d terms d' h
    rw [plainTerms.eq_def] at h
    split at h
    · exact absurd rfl (hsequence _ _)
    · exact absurd rfl (hgroup _ _)
    · simp only [bind_eq_ok, pure_eq_ok] at h
      obtain ⟨t, _, ht, rfl, rfl⟩ := h
      exact he ht
  case case12 =>
    intro d terms d' h
    rw [plainTermsAll, pure_eq_ok] at h
    obtain ⟨rfl, rfl⟩ := h
    exact .nil
  case case13 =>
    intro e rest he hrest d terms d' h
    simp only [plainTermsAll, bind_eq_ok, pure_eq_ok] at h
    obtain ⟨front, d₁, hfront, back, d₂, hback, rfl, rfl⟩ := h
    exact (he hfront).append (hrest hback)
  case case14 =>
    intro lhs d u d' h
    rw [plainBranches, pure_eq_ok] at h
    obtain ⟨-, rfl⟩ := h
    exact .nil
  case case15 =>
    intro lhs branch rest hbranch hrest d u d' h
    simp only [plainBranches, bind_eq_ok] at h
    obtain ⟨terms, d₁, hterms, _, d₂, hproduce, h⟩ := h
    exact (Fills.ofLowersTo (hbranch hterms) (produce_eq_ok hproduce)).add (hrest h)

theorem plainTerm_makesTerm (hnames : sc.model.symbols.NamesBelow count) (e : Expr) :
    MakesTerm count σ (plainTerm sc e) (meaning sc e) :=
  (plain_keepsLanguage hnames).1 e

theorem plainQuantified_makesTerm (hnames : sc.model.symbols.NamesBelow count) (e : Expr)
    (quantifier : Quantifier) (body : Expr) :
    MakesTerm count σ (plainQuantified sc e quantifier body)
      fun σ => quantifier.apply (meaning sc body σ) :=
  (plain_keepsLanguage hnames).2.1 e quantifier body

/-! ## With values -/

/-- Reading an expression that carries `@class` as the content of its class keeps its language. -/
theorem meaning_classContent (bearer : Expr) :
    meaning sc bearer.classContent.1 = meaning sc bearer :=
  funext fun _ => Expr.language_classContent bearer

theorem meaning_core (e : Expr) : meaning sc e.core = meaning sc e :=
  funext fun _ => Expr.language_core e

theorem valued_keepsLanguage (hnames : sc.model.symbols.NamesBelow count) :
    (∀ e kind, MakesTerm count σ (elementTerm sc e kind) (meaning sc e)) ∧
      (∀ e value kind, MakesTerm count σ (shapeTerm sc e value kind) (meaning sc e)) ∧
      (∀ e quantifier body value, MakesTerm count σ (quantifiedTerm sc e quantifier body value)
        fun σ => quantifier.apply (meaning sc body σ)) ∧
      (∀ lhs branches, MakesProductions count σ (flatBranches sc lhs branches) lhs
        (meaningOfAny sc branches)) ∧
      (∀ e terms, AddsTerms count σ (flatten sc e terms) terms (meaning sc e)) ∧
      (∀ items before, AddsTerms count σ (flattenAll sc items before) before.1
        (meaningInRow sc items)) ∧
      (∀ e terms, AddsTerms count σ (flatElement sc e terms) terms (meaning sc e)) ∧
      (∀ lhs c e, MakesProductions count σ (alternativeProductions sc lhs c e) lhs
        (meaning sc e)) ∧
      (∀ lhs c index branches variants, variants.length = branches.length →
        MakesProductions count σ (variantProductions sc lhs c index branches variants) lhs
          (meaningOfAny sc branches)) ∧
      (∀ lhs branches, MakesProductions count σ (baseProductions sc lhs branches) lhs
        (meaningOfAny sc branches)) ∧
      (∀ c e isBearer a, AddsParts count σ (construct sc c e isBearer a) a (meaning sc e)) ∧
      (∀ c e quantifier body a, AddsParts count σ (constructQuantified sc c e quantifier body a) a
        fun σ => quantifier.apply (meaning sc body σ)) ∧
      (∀ c e quantifier body, ∀ ⦃d result d'⦄,
        fragmentTerm sc c e quantifier body d = .ok result d' →
          LowersTo count σ d d' [result.1] fun σ => quantifier.apply (meaning sc body σ)) ∧
      (∀ c e isBearer a, AddsParts count σ (constructElement sc c e isBearer a) a
        (meaning sc e)) ∧
      (∀ c items a, AddsParts count σ (constructAll sc c items a) a (meaningInRow sc items)) ∧
      (∀ lhs c bearer, MakesProductions count σ (bearerProductions sc lhs c bearer) lhs
        (meaning sc bearer)) ∧
      (∀ lhs c content isBearer, MakesProductions count σ
        (classProductions sc lhs c content isBearer) lhs (meaning sc content)) ∧
      ∀ lhs c branches, MakesProductions count σ (constructBranches sc lhs c branches) lhs
        (meaningOfAny sc branches) := by
  apply elementTerm.mutual_induct sc
  case case1 =>
    intro e kind hskip d t d' h
    rw [elementTerm, if_pos hskip] at h
    exact plainTerm_makesTerm hnames e h
  case case2 =>
    intro e kind hskip hbearer hfill d t d' h
    rw [elementTerm, if_neg hskip, if_pos hbearer] at h
    simp only [bind_eq_ok, pure_eq_ok] at h
    obtain ⟨c, d₁, hc, n, d₂, hn, _, _, hproductions, rfl, rfl⟩ := h
    obtain ⟨rfl, -⟩ := bearerClass_eq_ok hc
    exact .ofFills (synthesize_eq_ok hn) (hfill c n hproductions)
  case case3 =>
    intro e kind hskip hbearer hshape d t d' h
    rw [elementTerm, if_neg hskip, if_neg hbearer] at h
    exact hshape h
  case case4 =>
    intro value kind info t d term d' h
    rw [shapeTerm, pure_eq_ok] at h
    obtain ⟨rfl, rfl⟩ := h
    exact lowersTo_terminal t
  case case5 =>
    intro value kind info name d t d' h
    rw [shapeTerm] at h
    exact leafTerm_lowersTo hnames h
  case case6 =>
    intro value kind info body hbody d t d' h
    rw [shapeTerm] at h
    exact (hbody h).congr fun _ => rfl
  case case7 =>
    intro value kind info items hitems d t d' h
    simp only [shapeTerm, bind_eq_ok, pure_eq_ok] at h
    obtain ⟨n, d₁, hn, ⟨terms, position⟩, d₂, hterms, _, d₃, haction, _, _, hproduce, rfl, rfl⟩ := h
    obtain rfl := forwarding_eq_ok haction
    exact .ofFills (synthesize_eq_ok hn)
      (.ofLowersTo (hitems hterms).lowersTo (produce_eq_ok hproduce))
  case case8 =>
    intro value kind info branches hclass hflat d t d' h
    simp only [shapeTerm, bind_eq_ok] at h
    obtain ⟨n, d₁, hn, h⟩ := h
    cases hc : sc.model.nodeClasses.get? info.id with
    | some c =>
      simp only [hc, bind_eq_ok, pure_eq_ok] at h
      obtain ⟨_, _, hproductions, rfl, rfl⟩ := h
      exact .ofFills (synthesize_eq_ok hn) (hclass n c hproductions)
    | none =>
      cases value with
      | some v => simp [hc] at h
      | none =>
        simp only [hc, Option.isSome_none, Bool.false_eq_true, if_false, bind_eq_ok,
          pure_eq_ok] at h
        obtain ⟨_, _, hproductions, rfl, rfl⟩ := h
        exact .ofFills (synthesize_eq_ok hn) (hflat n hproductions)
  case case9 =>
    intro value kind info body hbody d t d' h
    rw [shapeTerm] at h
    exact hbody h
  case case10 =>
    intro value kind info body repetition hbody d t d' h
    rw [shapeTerm] at h
    exact hbody h
  case case11 =>
    intro e quantifier body value found hatom d t d' h
    simp only [quantifiedTerm, bind_eq_ok] at h
    obtain ⟨_, d₁, hwarn, n, d₂, hn, item, d₃, hitem, h⟩ := h
    cases value with
    | none =>
      simp only [bind_eq_ok, pure_eq_ok] at h
      obtain ⟨_, d₄, hproduce, rfl, rfl⟩ := h
      exact lowersTo_collapsed (warnNested_eq_ok hwarn) (synthesize_eq_ok hn) (hatom hitem)
        (produce_forM_eq_ok hproduce) (List.forall_mem_map.mpr fun _ _ => rfl)
        (by simp [Function.comp_def])
    | some v =>
      simp only [bind_eq_ok, pure_eq_ok] at h
      obtain ⟨_, d₄, hproduce, rfl, rfl⟩ := h
      refine lowersTo_collapsed (warnNested_eq_ok hwarn) (synthesize_eq_ok hn) (hatom hitem)
        (produce_forM_eq_ok hproduce) (List.forall_mem_map.mpr fun _ _ => rfl) ?_
      cases (body.absorb quantifier none).quantifier <;>
        simp [valuedAlternatives, plainAlternatives]
  case case12 =>
    intro lhs d u d' h
    rw [flatBranches, pure_eq_ok] at h
    obtain ⟨-, rfl⟩ := h
    exact .nil
  case case13 =>
    intro lhs branch rest hbranch hrest d u d' h
    simp only [flatBranches, bind_eq_ok] at h
    obtain ⟨⟨terms, _⟩, d₁, hterms, _, d₂, hproduce, h⟩ := h
    exact (Fills.ofLowersTo (hbranch hterms).lowersTo (produce_eq_ok hproduce)).add (hrest h)
  case case14 =>
    intro terms info body hunmarked hbody d result d' h
    rw [flatten, if_pos hunmarked] at h
    exact (hbody h).congr fun _ => rfl
  case case15 =>
    intro terms info body hunmarked helement d result d' h
    rw [flatten, if_neg hunmarked] at h
    exact helement h
  case case16 =>
    intro terms info items hunmarked hitems d result d' h
    rw [flatten, if_pos hunmarked] at h
    exact (hitems h).congr fun _ => rfl
  case case17 =>
    intro terms info items hunmarked helement d result d' h
    rw [flatten, if_neg hunmarked] at h
    exact helement h
  case case18 =>
    intro terms e hgroup hsequence helement d result d' h
    rw [flatten.eq_def] at h
    split at h
    · exact absurd rfl (hgroup _ _)
    · exact absurd rfl (hsequence _ _)
    · exact helement h
  case case19 =>
    intro before d result d' h
    rw [flattenAll, pure_eq_ok] at h
    obtain ⟨rfl, rfl⟩ := h
    exact .refl _
  case case20 =>
    intro before e rest he hrest d result d' h
    simp only [flattenAll, bind_eq_ok] at h
    obtain ⟨⟨terms, position⟩, d₁, hfirst, h⟩ := h
    have hback : ∃ found, flattenAll sc rest (terms, found <|> position) d₁ = .ok result d' := by
      cases hbefore : before.2 <;> cases position <;> simp only [hbefore, fail_ne_ok] at h <;>
        exact ⟨_, h⟩
    obtain ⟨found, hback⟩ := hback
    exact (he hfirst).trans (hrest terms found position hback)
  case case21 =>
    intro e terms he d result d' h
    simp only [flatElement, bind_eq_ok, pure_eq_ok] at h
    obtain ⟨t, _, ht, rfl, rfl⟩ := h
    exact .push (he ht)
  case case22 =>
    intro lhs c info branches id name sourceName base fields variants key origin span hc hbase
      d u d' h
    simp only [alternativeProductions, hc] at h
    exact hbase h
  case case23 =>
    intro lhs c info branches id name sourceName base fields variants key origin span hc hlength
      hvariants d u d' h
    simp only [alternativeProductions, hc, if_pos hlength] at h
    exact hvariants hlength h
  case case24 =>
    intro lhs c info branches id name sourceName base fields variants key origin span hc hlength
      d u d' h
    simp [alternativeProductions, hc, if_neg hlength] at h
  case case25 =>
    intro lhs c info branches id name sourceName base fields variants key origin span hc d u d' h
    simp [alternativeProductions, hc] at h
  case case26 =>
    intro lhs c info branches hc d u d' h
    simp [alternativeProductions, hc] at h
  case case27 =>
    intro lhs c e halternation d u d' h
    rw [alternativeProductions.eq_def] at h
    split at h
    · exact absurd rfl (halternation _ _)
    · simp at h
  case case28 =>
    intro lhs c index branch rest variant later hnode hlength d u d' h
    simp [variantProductions, if_pos hnode] at h
  case case29 =>
    intro lhs c index branch rest variant later hnode hbranch hrest hlength d u d' h
    rw [variantProductions_cons, if_neg hnode] at h
    simp only [bind_eq_ok] at h
    obtain ⟨⟨terms, position⟩, d₁, hterms, payload, d₂, hpayload, _, d₃, hproduce, h⟩ := h
    obtain rfl := variantPayload_eq_ok hpayload
    exact (Fills.ofLowersTo (hbranch hterms).lowersTo (produce_eq_ok hproduce)).add
      (hrest (by simpa using hlength) h)
  case case30 =>
    intro lhs c index branches variants hcons hlength d u d' h
    rw [variantProductions.eq_def] at h
    split at h
    · exact absurd rfl (hcons _ _ _ _ rfl)
    · rw [pure_eq_ok] at h
      obtain ⟨-, rfl⟩ := h
      cases branches with
      | nil => exact .nil
      | cons branch rest =>
        cases variants with
        | nil => simp at hlength
        | cons variant later => exact absurd rfl (hcons _ _ _ _ rfl)
  case case31 =>
    intro lhs d u d' h
    rw [baseProductions, pure_eq_ok] at h
    obtain ⟨-, rfl⟩ := h
    exact .nil
  case case32 =>
    intro lhs branch rest hbearer hrest hbranch d u d' h
    simp only [baseProductions, if_pos hbearer, bind_eq_ok] at h
    obtain ⟨c, _, hc, _, d₁, hproductions, h⟩ := h
    obtain ⟨rfl, -⟩ := bearerClass_eq_ok hc
    have hfill := hbranch c hproductions
    rw [meaning_core] at hfill
    exact hfill.add (hrest h)
  case case33 =>
    intro lhs branch rest hbearer c hc hrest hbranch d u d' h
    simp only [baseProductions, if_neg hbearer, hc, bind_eq_ok] at h
    obtain ⟨a, d₁, ha, _, d₂, hproduce, h⟩ := h
    exact (Fills.ofLowersTo (hbranch ha).lowersTo (produce_eq_ok hproduce)).add (hrest h)
  case case34 =>
    intro lhs branch rest hbearer hc hrest hbranch d u d' h
    simp only [baseProductions, if_neg hbearer, hc, bind_eq_ok] at h
    obtain ⟨t, d₁, ht, _, d₂, hproduce, h⟩ := h
    exact (Fills.ofLowersTo (hbranch ht) (produce_eq_ok hproduce)).add (hrest h)
  case case35 =>
    intro c e isBearer a hskip d a' d' h
    rw [construct.eq_def, if_pos hskip] at h
    simp only [bind_eq_ok, pure_eq_ok] at h
    obtain ⟨t, _, ht, rfl, rfl⟩ := h
    exact .push (plainTerm_makesTerm hnames e ht)
  case case36 =>
    intro c e isBearer a hskip hfield he d a' d' h
    rw [construct.eq_def, if_neg hskip, if_pos hfield] at h
    simp only [bind_eq_ok] at h
    obtain ⟨t, d₁, ht, hassign⟩ := h
    obtain ⟨rfl, hbody⟩ := assign_eq_ok hassign
    rw [hbody]
    exact .push (he ht)
  case case37 =>
    intro c isBearer a info items hskip hfield hitems d a' d' h
    rw [construct, if_neg hskip, if_neg hfield] at h
    exact (hitems h).congr fun _ => rfl
  case case38 =>
    intro c isBearer a info body hskip hfield hbody d a' d' h
    rw [construct, if_neg hskip, if_neg hfield] at h
    exact (hbody h).congr fun _ => rfl
  case case39 =>
    intro c isBearer a info body hchain hskip hfield helement d a' d' h
    rw [construct, if_neg hskip, if_neg hfield, if_pos hchain] at h
    exact helement h
  case case40 =>
    intro c isBearer a info body hchain hskip hfield hquantified d a' d' h
    rw [construct, if_neg hskip, if_neg hfield, if_neg hchain] at h
    exact hquantified h
  case case41 =>
    intro c isBearer a info body kind hchain hskip hfield helement d a' d' h
    rw [construct, if_neg hskip, if_neg hfield, if_pos hchain] at h
    exact helement h
  case case42 =>
    intro c isBearer a info body kind hchain hskip hfield hquantified d a' d' h
    rw [construct, if_neg hskip, if_neg hfield, if_neg hchain] at h
    exact hquantified h
  case case43 =>
    intro c isBearer a e hsequence hgroup hoptional hrepeated hskip hfield helement d a' d' h
    rw [construct.eq_def, if_neg hskip, if_neg hfield] at h
    split at h
    · exact absurd rfl (hsequence _ _)
    · exact absurd rfl (hgroup _ _)
    · exact absurd rfl (hoptional _ _)
    · exact absurd rfl (hrepeated _ _ _)
    · exact helement h
  case case44 =>
    intro c e quantifier body a hfills hfragment d a' d' h
    simp only [constructQuantified, if_pos hfills, bind_eq_ok, pure_eq_ok] at h
    obtain ⟨⟨t, many⟩, _, ht, rfl, rfl⟩ := h
    exact .push (hfragment ht)
  case case45 =>
    intro c e quantifier body a hfills d a' d' h
    simp only [constructQuantified, if_neg hfills, bind_eq_ok, pure_eq_ok] at h
    obtain ⟨t, _, ht, rfl, rfl⟩ := h
    exact .push (plainQuantified_makesTerm hnames e quantifier body ht)
  case case46 =>
    intro c e quantifier body found hatom hparts d result d' h
    obtain ⟨n, d₁, d₂, a, d₃, rfl, hwarn, hn, ha, hproduce⟩ := fragmentTerm_eq_ok h
    have hitem : LowersTo count σ d₂ d₃ a.body.toList (meaning sc found.atom) := by
      unfold fragmentOperand at ha
      cases hcarrier : found.carrier with
      | some carrier =>
        simp only [found] at hcarrier
        simp only [hcarrier, bind_eq_ok] at ha
        obtain ⟨t, d₄, ht, hassign⟩ := ha
        obtain ⟨rfl, hbody⟩ := assign_eq_ok hassign
        rw [hbody]
        exact hatom ht
      | none =>
        simp only [found] at hcarrier
        simp only [hcarrier] at ha
        exact (hparts ha).lowersTo
    refine lowersTo_collapsed hwarn hn hitem hproduce (fun p hp => ?_) ?_
    · unfold fragmentProductions at hp
      split at hp <;> simp only [List.mem_cons, List.not_mem_nil, or_false] at hp <;>
        rcases hp with rfl | rfl <;> rfl
    · unfold fragmentProductions
      cases (body.absorb quantifier none).quantifier <;>
        simp [plainAlternatives, Assembly.terms, Assembly.pushFragment]
  case case47 =>
    intro c e a hshape d a' d' h
    simp only [constructElement, if_true, bind_eq_ok] at h
    obtain ⟨t, d₁, ht, hassign⟩ := h
    obtain ⟨rfl, hbody⟩ := assign_eq_ok hassign
    rw [hbody]
    exact .push (hshape ht)
  case case48 =>
    intro c e isBearer a hbearer he d a' d' h
    simp only [constructElement, if_neg hbearer, bind_eq_ok] at h
    obtain ⟨t, d₁, ht, hassign⟩ := h
    obtain ⟨rfl, hbody⟩ := assign_eq_ok hassign
    rw [hbody]
    exact .push (he ht)
  case case49 =>
    intro c a d a' d' h
    rw [constructAll, pure_eq_ok] at h
    obtain ⟨rfl, rfl⟩ := h
    exact .refl _
  case case50 =>
    intro c a e rest he hrest d a' d' h
    simp only [constructAll, bind_eq_ok] at h
    obtain ⟨a₁, d₁, hfirst, h⟩ := h
    exact (he hfirst).trans (hrest a₁ h)
  case case51 =>
    intro lhs c bearer content isBearer hcontent habstract halternatives d u d' h
    rw [bearerProductions_eq, if_pos habstract, hcontent] at h
    have hfill := halternatives h
    rw [meaning_core] at hfill
    rw [← meaning_classContent, hcontent]
    exact hfill
  case case52 =>
    intro lhs c bearer content isBearer hcontent habstract hclass d u d' h
    rw [bearerProductions_eq, if_neg habstract, hcontent] at h
    rw [← meaning_classContent, hcontent]
    exact hclass h
  case case53 =>
    intro lhs c content isBearer branches hbranches hconstruct d u d' h
    rw [classProductions_some sc lhs c isBearer hbranches] at h
    exact (hconstruct h).congr fun _ => Expr.language_classAlternatives hbranches
  case case54 =>
    intro lhs c content isBearer hbranches hconstruct d u d' h
    simp only [classProductions_none sc lhs c isBearer hbranches, bind_eq_ok] at h
    obtain ⟨a, d₁, ha, hproduce⟩ := h
    exact .ofLowersTo (hconstruct ha).lowersTo (produce_eq_ok hproduce)
  case case55 =>
    intro lhs c d u d' h
    rw [constructBranches, pure_eq_ok] at h
    obtain ⟨-, rfl⟩ := h
    exact .nil
  case case56 =>
    intro lhs c branch rest hbranch hrest d u d' h
    simp only [constructBranches, bind_eq_ok] at h
    obtain ⟨a, d₁, ha, _, d₂, hproduce, h⟩ := h
    exact (Fills.ofLowersTo (hbranch ha).lowersTo (produce_eq_ok hproduce)).add (hrest h)

theorem flatten_addsTerms (hnames : sc.model.symbols.NamesBelow count) (e : Expr)
    (terms : Array Term) : AddsTerms count σ (flatten sc e terms) terms (meaning sc e) :=
  (valued_keepsLanguage hnames).2.2.2.2.1 e terms

theorem alternativeProductions_makesProductions (hnames : sc.model.symbols.NamesBelow count)
    {lhs : NonterminalId} (c : ClassId) (e : Expr) :
    MakesProductions count σ (alternativeProductions sc lhs c e) lhs (meaning sc e) :=
  (valued_keepsLanguage hnames).2.2.2.2.2.2.2.1 lhs c e

theorem bearerProductions_makesProductions (hnames : sc.model.symbols.NamesBelow count)
    {lhs : NonterminalId} (c : ClassId) (bearer : Expr) :
    MakesProductions count σ (bearerProductions sc lhs c bearer) lhs (meaning sc bearer) :=
  (valued_keepsLanguage hnames).2.2.2.2.2.2.2.2.2.2.2.2.2.2.2.1 lhs c bearer

theorem classProductions_makesProductions (hnames : sc.model.symbols.NamesBelow count)
    {lhs : NonterminalId} (c : ClassId) (content : Expr) (isBearer : Bool) :
    MakesProductions count σ (classProductions sc lhs c content isBearer) lhs
      (meaning sc content) :=
  (valued_keepsLanguage hnames).2.2.2.2.2.2.2.2.2.2.2.2.2.2.2.2.1 lhs c content isBearer

end AnnotatedGrammar.Lowering
