import Mathlib
import AnnotatedGrammar.Proofs.Lowering.Whole

/-!
# What lowering leaves alone

A function of the lowering gives productions to the nonterminal it is told to fill and to those it
makes itself. The productions of any other nonterminal stay what they were. Whatever is made stands
for an expression of the rule being lowered, and every warning names that rule.
-/

namespace AnnotatedGrammar

namespace ProductionDraft

/-- The productions of a nonterminal so far, in the order in which they were made. -/
def productionsOf (d : ProductionDraft) (n : NonterminalId) : List Production :=
  d.productions.toList.filter fun p => p.lhs == n

/-- A draft with more productions. -/
def withProductions (d : ProductionDraft) (added : List Production) : ProductionDraft :=
  { d with productions := d.productions ++ added.toArray }

/-- Work for some rules that leaves the productions of the nonterminal `n` alone. -/
structure Spares (n : NonterminalId) (rules : List RuleModel) (d d' : ProductionDraft) : Prop where
  size_le : d.nonterminals.size ≤ d'.nonterminals.size
  productionsOf_eq : d'.productionsOf n = d.productionsOf n
  made : ∀ found ∈ d'.nonterminals, found ∈ d.nonterminals ∨
    ∃ rule ∈ rules, ∃ node kind, found.origin = .synthesized rule.id node kind
  warned : ∀ w ∈ d'.warnings, w ∈ d.warnings ∨ ∃ rule ∈ rules, w.ruleName = rule.name

variable {n : NonterminalId} {rules rules' : List RuleModel} {rule : RuleModel}
  {d d₁ d₂ : ProductionDraft}

namespace Spares

theorem refl (d : ProductionDraft) : d.Spares n rules d :=
  ⟨Nat.le_refl _, rfl, fun _ hfound => .inl hfound, fun _ hw => .inl hw⟩

theorem trans (h : d.Spares n rules d₁) (h' : d₁.Spares n rules d₂) : d.Spares n rules d₂ where
  size_le := Nat.le_trans h.size_le h'.size_le
  productionsOf_eq := h'.productionsOf_eq.trans h.productionsOf_eq
  made found hfound := (h'.made found hfound).elim (h.made found) .inr
  warned w hw := (h'.warned w hw).elim (h.warned w) .inr

/-- The work may be said to be for more rules. -/
theorem mono (h : d.Spares n rules d₁) (hsub : rules ⊆ rules') : d.Spares n rules' d₁ where
  size_le := h.size_le
  productionsOf_eq := h.productionsOf_eq
  made found hfound := (h.made found hfound).imp_right
    fun ⟨rule, hrule, horigin⟩ => ⟨rule, hsub hrule, horigin⟩
  warned w hw := (h.warned w hw).imp_right fun ⟨rule, hrule, hname⟩ => ⟨rule, hsub hrule, hname⟩

end Spares

/-- A nonterminal for an expression of the rule has no productions yet. -/
theorem Declares.spares {k : NonterminalId} {content : Content} {node : NodeId}
    {kind : SynthesizedKind} (h : d.Declares d₁ k content (.synthesized rule.id node kind)) :
    d.Spares n [rule] d₁ := by
  obtain ⟨name, hname⟩ := h.nonterminals_eq
  refine ⟨h.grows.size_le, ?_, fun found hfound => ?_, fun w hw => ?_⟩
  · rw [productionsOf, h.productions_eq, productionsOf]
  · rw [hname] at hfound
    rcases Array.mem_push.mp hfound with hfound | rfl
    · exact .inl hfound
    · exact .inr ⟨rule, List.mem_singleton_self _, node, kind, rfl⟩
  · rw [h.warnings_eq] at hw
    exact .inl hw

/-- More productions, all of other nonterminals. -/
theorem spares_of_productions {added : List Production} (h : ∀ p ∈ added, p.lhs ≠ n) :
    d.Spares n rules (d.withProductions added) := by
  have hnone : added.filter (fun p => p.lhs == n) = [] :=
    List.filter_eq_nil_iff.mpr fun p hp hlhs => h p hp (beq_iff_eq.mp hlhs)
  refine ⟨Nat.le_refl _, ?_, fun _ hfound => .inl hfound, fun _ hw => .inl hw⟩
  simp [productionsOf, withProductions, hnone]

end ProductionDraft

namespace Lowering

open ProductionDraft

variable {sc : LoweringScope} {n : NonterminalId} {α β : Type}

theorem produce_eq_ok_iff {lhs : NonterminalId} {body : List Term} {action : Action}
    {node : Option NodeId} {u : Unit} {d d' : ProductionDraft} :
    produce lhs body action node d = .ok u d' ↔
      d' = d.withProductions [⟨lhs, body, action, node⟩] := by
  rw [produce, modify_eq_ok, eq_comm]
  simp [withProductions]

/-- Every run that succeeds leaves the productions of `n` alone, if there is such a nonterminal. -/
def Sparing (sc : LoweringScope) (n : NonterminalId) (x : Lowering α) : Prop :=
  ∀ ⦃d a d'⦄, n < d.nonterminals.size → x d = .ok a d' → d.Spares n [sc.rule] d'

namespace Sparing

variable {x : Lowering α} {f : α → Lowering β}

theorem bind (hx : Sparing sc n x) (hf : ∀ a, Sparing sc n (f a)) : Sparing sc n (x >>= f) := by
  intro d b d' hn h
  obtain ⟨a, d₁, ha, hb⟩ := bind_eq_ok.mp h
  have hfirst := hx hn ha
  exact hfirst.trans (hf a (Nat.lt_of_lt_of_le hn hfirst.size_le) hb)

/-- An operation that leaves the whole draft as it is. -/
theorem ofSame (h : ∀ ⦃d a d'⦄, x d = .ok a d' → d' = d) : Sparing sc n x := by
  intro d a d' _ hx
  rw [h hx]
  exact .refl d

theorem pure (a : α) : Sparing sc n (pure a : Lowering α) :=
  .ofSame fun _ _ _ h => (pure_eq_ok.mp h).2.symm

theorem fail {finding : Finding} {span : Option Span} :
    Sparing sc n (Lowering.fail finding span : Lowering α) :=
  .ofSame fun _ _ _ h => (fail_ne_ok.mp h).elim

/-- A nonterminal that is made is none of those there are. -/
theorem synthesize {e : Expr} {kind : SynthesizedKind} {content : Content}
    {f : NonterminalId → Lowering β} (hf : ∀ k, k ≠ n → Sparing sc n (f k)) :
    Sparing sc n (Lowering.synthesize sc e kind content >>= f) := by
  intro d b d' hn h
  obtain ⟨k, d₁, hk, hb⟩ := bind_eq_ok.mp h
  have hdeclares := synthesize_eq_ok hk
  have hne : k ≠ n := by
    rw [hdeclares.index_eq]
    exact Nat.ne_of_gt hn
  exact hdeclares.spares.trans (hf k hne (Nat.lt_of_lt_of_le hn hdeclares.grows.size_le) hb)

theorem produce {lhs : NonterminalId} (hlhs : lhs ≠ n) (body : List Term) (action : Action)
    (node : Option NodeId) : Sparing sc n (Lowering.produce lhs body action node) := by
  intro d u d' _ h
  rw [produce_eq_ok_iff.mp h]
  exact spares_of_productions (List.forall_mem_singleton.mpr hlhs)

theorem forM {g : α → Lowering Unit} {xs : List α} (h : ∀ a ∈ xs, Sparing sc n (g a)) :
    Sparing sc n (xs.forM g) := by
  induction xs with
  | nil => exact .pure ()
  | cons a rest ih =>
    obtain ⟨ha, hrest⟩ := List.forall_mem_cons.mp h
    rw [List.forM_eq_forM, List.forM_cons]
    exact ha.bind fun _ => ih hrest

theorem warnNested (e : Expr) (absorbed : List Absorption) :
    Sparing sc n (Lowering.warnNested sc e absorbed) := by
  intro d u d' _ h
  simp only [Lowering.warnNested, modify_eq_ok] at h
  subst h
  refine ⟨Nat.le_refl _, rfl, fun _ hfound => .inl hfound, fun w hw => ?_⟩
  rcases Array.mem_append.mp hw with hw | hw
  · exact .inl hw
  · obtain ⟨a, -, rfl⟩ := List.mem_map.mp (List.mem_toArray.mp hw)
    exact .inr ⟨sc.rule, List.mem_singleton_self _, rfl⟩

theorem leafTerm (e : Expr) (name : String) : Sparing sc n (Lowering.leafTerm sc e name) := by
  unfold Lowering.leafTerm
  split
  · exact .pure _
  · exact .pure _
  · exact .fail

theorem bearerClass (e : Expr) : Sparing sc n (Lowering.bearerClass sc e) :=
  .ofSame fun _ _ _ h => (bearerClass_eq_ok h).1

theorem assign (c : ClassId) (owner e : Expr) (t : Term) (a : Assembly) :
    Sparing sc n (Lowering.assign sc c owner e t a) :=
  .ofSame fun _ _ _ h => (assign_eq_ok h).1

theorem forwarding (value : Option Value) (position : Option Nat) (e : Expr) :
    Sparing sc n (Lowering.forwarding value position e) :=
  .ofSame fun _ _ _ h => forwarding_eq_ok h

theorem variantPayload (variant : Variant) (position : Option Nat) (branch : Expr) :
    Sparing sc n (Lowering.variantPayload variant position branch) :=
  .ofSame fun _ _ _ h => variantPayload_eq_ok h

end Sparing

theorem lhs_fragmentProductions (k : NonterminalId) (c : ClassId) (e : Expr) (found : Collapsed)
    (a : Assembly) : ∀ p ∈ fragmentProductions k c e found a, p.lhs = k := by
  unfold fragmentProductions
  split <;> simp

/-! ## Without values -/

theorem plain_sparing :
    (∀ e, Sparing sc n (plainTerm sc e)) ∧
      (∀ e quantifier body, Sparing sc n (plainQuantified sc e quantifier body)) ∧
      (∀ e, Sparing sc n (plainTerms sc e)) ∧
      (∀ items, Sparing sc n (plainTermsAll sc items)) ∧
      ∀ lhs branches, lhs ≠ n → Sparing sc n (plainBranches sc lhs branches) := by
  apply plainTerm.mutual_induct
  case case1 =>
    intro info t
    rw [plainTerm]
    exact .pure _
  case case2 =>
    intro info name
    rw [plainTerm]
    exact .leafTerm _ name
  case case3 =>
    intro info body hbody
    rw [plainTerm]
    exact hbody
  case case4 =>
    intro info items hitems
    rw [plainTerm]
    refine .synthesize fun k hk => hitems.bind fun terms => ?_
    exact (Sparing.produce hk _ _ _).bind fun _ => .pure _
  case case5 =>
    intro info branches hbranches
    rw [plainTerm]
    exact .synthesize fun k hk => (hbranches k hk).bind fun _ => .pure _
  case case6 =>
    intro info body hbody
    rw [plainTerm]
    exact hbody
  case case7 =>
    intro info body kind hbody
    rw [plainTerm]
    exact hbody
  case case8 =>
    intro e quantifier body found hatom
    rw [plainQuantified]
    refine (Sparing.warnNested _ _).bind fun _ => ?_
    refine .synthesize fun k hk => hatom.bind fun item => ?_
    exact (Sparing.forM fun _ _ => .produce hk _ _ _).bind fun _ => .pure _
  case case9 =>
    intro info items hitems
    rw [plainTerms]
    exact hitems
  case case10 =>
    intro info body hbody
    rw [plainTerms]
    exact hbody
  case case11 =>
    intro e hsequence hgroup he
    rw [plainTerms.eq_def]
    split
    · exact absurd rfl (hsequence _ _)
    · exact absurd rfl (hgroup _ _)
    · exact he.bind fun t => .pure _
  case case12 =>
    rw [plainTermsAll]
    exact .pure _
  case case13 =>
    intro e rest he hrest
    rw [plainTermsAll]
    exact he.bind fun terms => hrest.bind fun more => .pure _
  case case14 =>
    intro lhs hlhs
    rw [plainBranches]
    exact .pure _
  case case15 =>
    intro lhs branch rest hbranch hrest hlhs
    rw [plainBranches]
    exact hbranch.bind fun terms => (Sparing.produce hlhs _ _ _).bind fun _ => hrest hlhs

/-! ## With values -/

theorem valued_sparing :
    (∀ e kind, Sparing sc n (elementTerm sc e kind)) ∧
      (∀ e value kind, Sparing sc n (shapeTerm sc e value kind)) ∧
      (∀ e quantifier body value, Sparing sc n (quantifiedTerm sc e quantifier body value)) ∧
      (∀ lhs branches, lhs ≠ n → Sparing sc n (flatBranches sc lhs branches)) ∧
      (∀ e terms, Sparing sc n (flatten sc e terms)) ∧
      (∀ items before, Sparing sc n (flattenAll sc items before)) ∧
      (∀ e terms, Sparing sc n (flatElement sc e terms)) ∧
      (∀ lhs c e, lhs ≠ n → Sparing sc n (alternativeProductions sc lhs c e)) ∧
      (∀ lhs c index branches variants, lhs ≠ n →
        Sparing sc n (variantProductions sc lhs c index branches variants)) ∧
      (∀ lhs branches, lhs ≠ n → Sparing sc n (baseProductions sc lhs branches)) ∧
      (∀ c e isBearer a, Sparing sc n (construct sc c e isBearer a)) ∧
      (∀ c e quantifier body a, Sparing sc n (constructQuantified sc c e quantifier body a)) ∧
      (∀ c e quantifier body, Sparing sc n (fragmentTerm sc c e quantifier body)) ∧
      (∀ c e isBearer a, Sparing sc n (constructElement sc c e isBearer a)) ∧
      (∀ c items a, Sparing sc n (constructAll sc c items a)) ∧
      (∀ lhs c bearer, lhs ≠ n → Sparing sc n (bearerProductions sc lhs c bearer)) ∧
      (∀ lhs c content isBearer, lhs ≠ n →
        Sparing sc n (classProductions sc lhs c content isBearer)) ∧
      ∀ lhs c branches, lhs ≠ n → Sparing sc n (constructBranches sc lhs c branches) := by
  obtain ⟨hplain, hplainQuantified, -⟩ := @plain_sparing sc n
  apply elementTerm.mutual_induct sc
  case case1 =>
    intro e kind hskip
    rw [elementTerm, if_pos hskip]
    exact hplain e
  case case2 =>
    intro e kind hskip hbearer hfill
    rw [elementTerm, if_neg hskip, if_pos hbearer]
    refine (Sparing.bearerClass e).bind fun c => ?_
    exact .synthesize fun k hk => (hfill c k hk).bind fun _ => .pure _
  case case3 =>
    intro e kind hskip hbearer hshape
    rw [elementTerm, if_neg hskip, if_neg hbearer]
    exact hshape
  case case4 =>
    intro value kind info t
    rw [shapeTerm]
    exact .pure _
  case case5 =>
    intro value kind info name
    rw [shapeTerm]
    exact .leafTerm _ name
  case case6 =>
    intro value kind info body hbody
    rw [shapeTerm]
    exact hbody
  case case7 =>
    intro value kind info items hitems
    rw [shapeTerm]
    refine .synthesize fun k hk => hitems.bind fun ⟨terms, position⟩ => ?_
    refine (Sparing.forwarding _ _ _).bind fun action => ?_
    exact (Sparing.produce hk _ _ _).bind fun _ => .pure _
  case case8 =>
    intro value kind info branches hclass hflat
    rw [shapeTerm]
    refine .synthesize fun k hk => ?_
    split
    · exact (hclass k _ hk).bind fun _ => .pure _
    · split
      · exact Sparing.fail.bind fun _ => .pure _
      · exact (hflat k hk).bind fun _ => .pure _
  case case9 =>
    intro value kind info body hbody
    rw [shapeTerm]
    exact hbody
  case case10 =>
    intro value kind info body repetition hbody
    rw [shapeTerm]
    exact hbody
  case case11 =>
    intro e quantifier body value found hatom
    rw [quantifiedTerm]
    refine (Sparing.warnNested _ _).bind fun _ => ?_
    refine .synthesize fun k hk => hatom.bind fun item => ?_
    split
    · exact (Sparing.forM fun _ _ => .produce hk _ _ _).bind fun _ => .pure _
    · exact (Sparing.forM fun _ _ => .produce hk _ _ _).bind fun _ => .pure _
  case case12 =>
    intro lhs hlhs
    rw [flatBranches]
    exact .pure _
  case case13 =>
    intro lhs branch rest hbranch hrest hlhs
    rw [flatBranches]
    exact hbranch.bind fun result => (Sparing.produce hlhs _ _ _).bind fun _ => hrest hlhs
  case case14 =>
    intro terms info body hunmarked hbody
    rw [flatten, if_pos hunmarked]
    exact hbody
  case case15 =>
    intro terms info body hunmarked helement
    rw [flatten, if_neg hunmarked]
    exact helement
  case case16 =>
    intro terms info items hunmarked hitems
    rw [flatten, if_pos hunmarked]
    exact hitems
  case case17 =>
    intro terms info items hunmarked helement
    rw [flatten, if_neg hunmarked]
    exact helement
  case case18 =>
    intro terms e hgroup hsequence helement
    rw [flatten.eq_def]
    split
    · exact absurd rfl (hgroup _ _)
    · exact absurd rfl (hsequence _ _)
    · exact helement
  case case19 =>
    intro before
    rw [flattenAll]
    exact .pure _
  case case20 =>
    intro before e rest he hrest
    rw [flattenAll]
    refine he.bind fun ⟨terms, position⟩ => ?_
    cases before.2 <;> cases position
    · exact hrest _ _ _
    · exact hrest _ _ _
    · exact hrest _ _ _
    · exact .fail
  case case21 =>
    intro e terms he
    rw [flatElement]
    exact he.bind fun t => .pure _
  case case22 =>
    intro lhs c info branches id name sourceName base fields variants key origin span hc hbase hlhs
    rw [alternativeProductions, hc]
    exact hbase hlhs
  case case23 =>
    intro lhs c info branches id name sourceName base fields variants key origin span hc hlength
      hvariants hlhs
    simp only [alternativeProductions, hc, if_pos hlength]
    exact hvariants hlhs
  case case24 =>
    intro lhs c info branches id name sourceName base fields variants key origin span hc hlength _
    simp only [alternativeProductions, hc, if_neg hlength]
    exact .fail
  case case25 =>
    intro lhs c info branches id name sourceName base fields variants key origin span hc _
    simp only [alternativeProductions, hc]
    exact .fail
  case case26 =>
    intro lhs c info branches hc _ d u d' _ h
    simp [alternativeProductions, hc] at h
  case case27 =>
    intro lhs c e halternation _
    rw [alternativeProductions.eq_def]
    split
    · exact absurd rfl (halternation _ _)
    · exact .fail
  case case28 =>
    intro lhs c index branch rest variant later hnode _
    simp only [variantProductions, if_pos hnode]
    exact .fail
  case case29 =>
    intro lhs c index branch rest variant later hnode hbranch hrest hlhs
    rw [variantProductions_cons, if_neg hnode]
    refine hbranch.bind fun result => (Sparing.variantPayload _ _ _).bind fun payload => ?_
    exact (Sparing.produce hlhs _ _ _).bind fun _ => hrest hlhs
  case case30 =>
    intro lhs c index branches variants hcons _
    rw [variantProductions.eq_def]
    split
    · exact absurd rfl (hcons _ _ _ _ rfl)
    · exact .pure _
  case case31 =>
    intro lhs _
    rw [baseProductions]
    exact .pure _
  case case32 =>
    intro lhs branch rest hbearer hrest hbranch hlhs
    rw [baseProductions, if_pos hbearer]
    refine (Sparing.bearerClass _).bind fun c => ?_
    exact (hbranch c hlhs).bind fun _ => hrest hlhs
  case case33 =>
    intro lhs branch rest hbearer c hc hrest hbranch hlhs
    simp only [baseProductions, if_neg hbearer, hc]
    exact hbranch.bind fun a => (Sparing.produce hlhs _ _ _).bind fun _ => hrest hlhs
  case case34 =>
    intro lhs branch rest hbearer hc hrest hbranch hlhs
    simp only [baseProductions, if_neg hbearer, hc]
    exact hbranch.bind fun t => (Sparing.produce hlhs _ _ _).bind fun _ => hrest hlhs
  case case35 =>
    intro c e isBearer a hskip
    rw [construct.eq_def, if_pos hskip]
    exact (hplain e).bind fun t => .pure _
  case case36 =>
    intro c e isBearer a hskip hfield he
    rw [construct.eq_def, if_neg hskip, if_pos hfield]
    exact he.bind fun t => .assign c e e t a
  case case37 =>
    intro c isBearer a info items hskip hfield hitems
    rw [construct, if_neg hskip, if_neg hfield]
    exact hitems
  case case38 =>
    intro c isBearer a info body hskip hfield hbody
    rw [construct, if_neg hskip, if_neg hfield]
    exact hbody
  case case39 =>
    intro c isBearer a info body hchain hskip hfield helement
    rw [construct, if_neg hskip, if_neg hfield, if_pos hchain]
    exact helement
  case case40 =>
    intro c isBearer a info body hchain hskip hfield hquantified
    rw [construct, if_neg hskip, if_neg hfield, if_neg hchain]
    exact hquantified
  case case41 =>
    intro c isBearer a info body kind hchain hskip hfield helement
    rw [construct, if_neg hskip, if_neg hfield, if_pos hchain]
    exact helement
  case case42 =>
    intro c isBearer a info body kind hchain hskip hfield hquantified
    rw [construct, if_neg hskip, if_neg hfield, if_neg hchain]
    exact hquantified
  case case43 =>
    intro c isBearer a e hsequence hgroup hoptional hrepeated hskip hfield helement
    rw [construct.eq_def, if_neg hskip, if_neg hfield]
    split
    · exact absurd rfl (hsequence _ _)
    · exact absurd rfl (hgroup _ _)
    · exact absurd rfl (hoptional _ _)
    · exact absurd rfl (hrepeated _ _ _)
    · exact helement
  case case44 =>
    intro c e quantifier body a hfills hfragment
    rw [constructQuantified, if_pos hfills]
    exact hfragment.bind fun ⟨t, many⟩ => .pure _
  case case45 =>
    intro c e quantifier body a hfills
    rw [constructQuantified, if_neg hfills]
    exact (hplainQuantified e quantifier body).bind fun t => .pure _
  case case46 =>
    intro c e quantifier body found hatom hparts
    rw [fragmentTerm_eq]
    have hoperand : Sparing sc n (fragmentOperand sc c found) := by
      unfold fragmentOperand
      split
      · exact hatom.bind fun t => .assign c _ _ t .empty
      · exact hparts
    refine (Sparing.warnNested _ _).bind fun _ => ?_
    refine .synthesize fun k hk => hoperand.bind fun a => ?_
    refine (Sparing.forM fun p hp => ?_).bind fun _ => .pure _
    rw [lhs_fragmentProductions k c e found a p hp]
    exact .produce hk _ _ _
  case case47 =>
    intro c e a hshape
    simp only [constructElement, if_true]
    exact hshape.bind fun t => .assign c e e t a
  case case48 =>
    intro c e isBearer a hbearer he
    simp only [constructElement, if_neg hbearer]
    exact he.bind fun t => .assign c e e t a
  case case49 =>
    intro c a
    rw [constructAll]
    exact .pure _
  case case50 =>
    intro c a e rest he hrest
    rw [constructAll]
    exact he.bind fun a' => hrest a'
  case case51 =>
    intro lhs c bearer content isBearer hcontent habstract halternatives hlhs
    rw [bearerProductions_eq, if_pos habstract, hcontent]
    exact halternatives hlhs
  case case52 =>
    intro lhs c bearer content isBearer hcontent habstract hclass hlhs
    rw [bearerProductions_eq, if_neg habstract, hcontent]
    exact hclass hlhs
  case case53 =>
    intro lhs c content isBearer branches hbranches hconstruct hlhs
    rw [classProductions_some sc lhs c isBearer hbranches]
    exact hconstruct hlhs
  case case54 =>
    intro lhs c content isBearer hbranches hconstruct hlhs
    rw [classProductions_none sc lhs c isBearer hbranches]
    exact hconstruct.bind fun a => .produce hlhs _ _ _
  case case55 =>
    intro lhs c _
    rw [constructBranches]
    exact .pure _
  case case56 =>
    intro lhs c branch rest hbranch hrest hlhs
    rw [constructBranches]
    exact hbranch.bind fun a => (Sparing.produce hlhs _ _ _).bind fun _ => hrest hlhs

/-- Lowering a rule leaves the nonterminals of the other rules alone. -/
theorem ruleProductions_sparing (body : Expr) (hn : sc.rule.id ≠ n) :
    Sparing sc n (ruleProductions sc body) := by
  obtain ⟨-, -, -, -, hflatten, -, -, halternatives, -, -, -, -, -, -, -, hbearer, hclass, -⟩ :=
    @valued_sparing sc n
  unfold ruleProductions
  cases sc.rule.role with
  | builds c => exact hclass _ c body false hn
  | polymorphic c | tagged c => exact halternatives _ c body.core hn
  | passthrough =>
    dsimp only
    split
    · exact (Sparing.bearerClass body).bind fun c => hbearer _ c body hn
    · refine (hflatten body #[]).bind fun ⟨terms, position⟩ => ?_
      exact (Sparing.forwarding _ _ _).bind fun action => .produce hn _ _ _

/-! ## Rules after one another -/

/-- The productions of a rule of a model and its text. -/
def lowerRule (m : GrammarModel) (preferences : LoweringPreferences) (entry : RuleModel × Rule) :
    Lowering Unit := do
  let owner := ((← get).nonterminals.getD entry.1.id default).name
  ruleProductions ⟨m, entry.1, owner, preferences.synthesizedRules⟩ entry.2.body

variable {m : GrammarModel} {preferences : LoweringPreferences} {d d' : ProductionDraft} {u : Unit}

theorem lowerRules_eq (m : GrammarModel) (preferences : LoweringPreferences) :
    lowerRules m preferences =
      (m.rules.toList.zip m.grammar.rules.toList).forM (lowerRule m preferences) := rfl

theorem lowerRule_eq_ok {entry : RuleModel × Rule}
    (h : lowerRule m preferences entry d = .ok u d') :
    ∃ sc : LoweringScope, sc.model = m ∧ sc.rule = entry.1 ∧
      ruleProductions sc entry.2.body d = .ok u d' := by
  simp only [lowerRule, bind_eq_ok, get_eq_ok] at h
  obtain ⟨_, _, ⟨rfl, rfl⟩, hrule⟩ := h
  exact ⟨_, rfl, rfl, hrule⟩

theorem forM_lowerRule_spares {entries : List (RuleModel × Rule)}
    (hne : ∀ entry ∈ entries, entry.1.id ≠ n) (hn : n < d.nonterminals.size)
    (h : entries.forM (lowerRule m preferences) d = .ok u d') :
    d.Spares n (entries.map (·.1)) d' := by
  induction entries generalizing d with
  | nil =>
    obtain ⟨-, rfl⟩ := pure_eq_ok.mp h
    exact .refl d
  | cons entry rest ih =>
    obtain ⟨hentry, hrest⟩ := List.forall_mem_cons.mp hne
    simp only [List.forM_eq_forM, List.forM_cons, bind_eq_ok] at h
    obtain ⟨_, d₁, hrule, hafter⟩ := h
    obtain ⟨sc, rfl, hscope, hrun⟩ := lowerRule_eq_ok hrule
    have hfirst := ruleProductions_sparing entry.2.body (hscope ▸ hentry) hn hrun
    rw [hscope] at hfirst
    refine (hfirst.mono ?_).trans ((ih hrest (Nat.lt_of_lt_of_le hn hfirst.size_le) hafter).mono ?_)
    · simp
    · simp

end Lowering
end AnnotatedGrammar
