import Mathlib
import AnnotatedGrammar.Production.Lower
import AnnotatedGrammar.Proofs.Lowering.Growth

/-!
# Runs of the lowering

When a lowering succeeds, so did each of its steps, from the draft that the step before it left.
The operations on drafts are described here once; nothing later unfolds them.
-/

namespace AnnotatedGrammar

namespace Lowering

variable {α β : Type} {d d' : ProductionDraft}

@[simp] theorem pure_eq_ok {a b : α} :
    (pure a : Lowering α) d = .ok b d' ↔ a = b ∧ d = d' := by
  simp [pure, EStateM.pure]

@[simp] theorem bind_eq_ok {x : Lowering α} {f : α → Lowering β} {b : β} :
    (x >>= f) d = .ok b d' ↔ ∃ a d₁, x d = .ok a d₁ ∧ f a d₁ = .ok b d' := by
  simp only [bind, EStateM.bind]
  cases x d <;> grind

@[simp] theorem map_eq_ok {x : Lowering α} {f : α → β} {b : β} :
    (f <$> x) d = .ok b d' ↔ ∃ a, x d = .ok a d' ∧ f a = b := by
  simp only [Functor.map, EStateM.map]
  cases x d <;> grind

@[simp] theorem discard_eq_ok {x : Lowering α} {u : PUnit} :
    (discard x : Lowering PUnit) d = .ok u d' ↔ ∃ a, x d = .ok a d' := by
  change (Function.const α PUnit.unit <$> x) d = .ok u d' ↔ _
  simp

@[simp] theorem fail_ne_ok {finding : Finding} {span : Option Span} {a : α} :
    (fail finding span : Lowering α) d = .ok a d' ↔ False := by
  simp [fail, throw, throwThe, MonadExceptOf.throw, EStateM.throw]

@[simp] theorem throw_ne_ok {fault : InternalFault} {a : α} :
    (throw fault : Lowering α) d = .ok a d' ↔ False := by
  simp [throw, throwThe, MonadExceptOf.throw, EStateM.throw]

@[simp] theorem get_eq_ok {a : ProductionDraft} :
    (get : Lowering ProductionDraft) d = .ok a d' ↔ d = a ∧ d = d' := by
  simp [get, getThe, MonadStateOf.get, EStateM.get]

@[simp] theorem modify_eq_ok {f : ProductionDraft → ProductionDraft} {u : Unit} :
    (modify f : Lowering Unit) d = .ok u d' ↔ f d = d' := by
  simp [modify, modifyGet, MonadStateOf.modifyGet, EStateM.modifyGet]

theorem declare_eq_ok {base : String} {content : Content} {origin : NonterminalOrigin}
    {n : NonterminalId} (h : declare base content origin d = .ok n d') :
    d.Declares d' n content origin := by
  simp only [declare, bind_eq_ok, get_eq_ok, modify_eq_ok, pure_eq_ok] at h
  obtain ⟨_, _, ⟨rfl, rfl⟩, _, _, rfl, rfl, rfl⟩ := h
  exact ⟨rfl, ⟨_, rfl⟩, rfl, rfl, fun h => h⟩

theorem synthesize_eq_ok {sc : LoweringScope} {e : Expr} {kind : SynthesizedKind}
    {content : Content} {n : NonterminalId} (h : synthesize sc e kind content d = .ok n d') :
    d.Declares d' n content (.synthesized sc.rule.id e.id kind) := by
  simp only [synthesize, bind_eq_ok] at h
  obtain ⟨n', d₁, hdeclare, h⟩ := h
  have hd := declare_eq_ok hdeclare
  split at h
  · simp only [bind_eq_ok, modify_eq_ok, pure_eq_ok] at h
    obtain ⟨_, _, rfl, rfl, rfl⟩ := h
    refine ⟨hd.index_eq, hd.nonterminals_eq, hd.productions_eq, hd.warnings_eq,
      fun hdebug e he => ?_⟩
    rcases Array.mem_push.mp he with he | rfl
    · exact hd.onlyDebug hdebug e he
    · rfl
  · simp only [pure_eq_ok] at h
    obtain ⟨rfl, rfl⟩ := h
    exact hd

theorem produce_eq_ok {lhs : NonterminalId} {body : List Term} {action : Action}
    {node : Option NodeId} {u : Unit} (h : produce lhs body action node d = .ok u d') :
    d.Produces d' [⟨lhs, body, action, node⟩] := by
  simp only [produce, modify_eq_ok] at h
  subst h
  exact ⟨rfl, by simp, rfl⟩

theorem produce_forM_eq_ok {lhs : α → NonterminalId} {body : α → List Term}
    {action : α → Action} {node : α → Option NodeId} {xs : List α} {u : Unit}
    (h : (xs.forM fun a => produce (lhs a) (body a) (action a) (node a)) d = .ok u d') :
    d.Produces d' (xs.map fun a => ⟨lhs a, body a, action a, node a⟩) := by
  induction xs generalizing d with
  | nil =>
    simp only [List.forM_eq_forM, List.forM_nil, pure_eq_ok] at h
    obtain ⟨-, rfl⟩ := h
    exact ⟨rfl, by simp, rfl⟩
  | cons a rest ih =>
    simp only [List.forM_eq_forM, List.forM_cons, bind_eq_ok] at h
    obtain ⟨_, d₁, hfirst, hrest⟩ := h
    exact (produce_eq_ok hfirst).append (ih hrest)

theorem warnNested_eq_ok {sc : LoweringScope} {e : Expr} {absorbed : List Absorption} {u : Unit}
    (h : warnNested sc e absorbed d = .ok u d') : d.Produces d' [] := by
  simp only [warnNested, modify_eq_ok] at h
  subst h
  exact ⟨rfl, by simp, rfl⟩

@[simp] theorem contentOf_eq_ok {term : Term} {content : Content} :
    contentOf term d = .ok content d' ↔ term.contentIn d.nonterminals = content ∧ d = d' := by
  simp only [contentOf, bind_eq_ok, get_eq_ok, pure_eq_ok]
  grind

/-- Assigning only adds the term to the assembly. -/
theorem assign_eq_ok {sc : LoweringScope} {c : ClassId} {owner e : Expr} {term : Term}
    {a a' : Assembly} (h : assign sc c owner e term a d = .ok a' d') :
    d' = d ∧ a'.body = a.body.push term := by
  unfold assign at h
  cases hfield : sc.model.fieldFor? c owner.id with
  | none =>
    simp only [hfield, pure_eq_ok] at h
    obtain ⟨rfl, rfl⟩ := h
    exact ⟨rfl, rfl⟩
  | some field =>
    cases hvalue : (term.contentIn d.nonterminals).value? <;> cases e <;>
      (try rename Terminal => t; cases t) <;>
      simp [hfield, hvalue, and_assoc] at h <;>
      simp [← h.1, h.2]

theorem bearerClass_eq_ok {sc : LoweringScope} {e : Expr} {c : ClassId}
    (h : bearerClass sc e d = .ok c d') : d' = d ∧ sc.model.nodeClasses.get? e.id = some c := by
  unfold bearerClass at h
  cases hc : sc.model.nodeClasses.get? e.id <;> simp_all

theorem forwarding_eq_ok {value : Option Value} {position : Option Nat} {e : Expr}
    {action : Action} (h : forwarding value position e d = .ok action d') : d' = d := by
  unfold forwarding at h
  cases value <;> cases position <;> simp_all

/-! ## Fragments -/

/-- The productions of a fragment: the nonterminal `n` for the quantified part `e`, whose operand
was put together in `a`. -/
def fragmentProductions (n : NonterminalId) (c : ClassId) (e : Expr) (found : Collapsed)
    (a : Assembly) : List Production :=
  let recursive := a.pushFragment (.nonterminal n) true
  match found.quantifier with
  | .optional => [⟨n, a.terms, a.construct c, found.atom.id⟩, ⟨n, [], .absent, e.id⟩]
  | .zeroOrMore =>
    [⟨n, recursive.terms, recursive.construct c, found.atom.id⟩, ⟨n, [], .construct c [], e.id⟩]
  | .oneOrMore =>
    [⟨n, recursive.terms, recursive.construct c, found.atom.id⟩,
      ⟨n, a.terms, a.construct c, found.atom.id⟩]

/-- Puts together the operand of a fragment; a marked quantifier that was taken up fills its field
from every match of the operand. -/
def fragmentOperand (sc : LoweringScope) (c : ClassId) (found : Collapsed) : Lowering Assembly :=
  match found.carrier with
  | some carrier => do
    let term ← elementTerm sc found.atom .group
    assign sc c carrier found.atom term .empty
  | none => construct sc c found.atom false .empty

theorem fragmentTerm_eq (sc : LoweringScope) (c : ClassId) (e : Expr) (quantifier : Quantifier)
    (body : Expr) :
    let found := body.absorb quantifier none
    fragmentTerm sc c e quantifier body = (do
      warnNested sc e found.absorbed
      let n ← synthesize sc e (if found.quantifier.isList then .list else .optional)
        (.fragment c found.quantifier.isList)
      let a ← fragmentOperand sc c found
      (fragmentProductions n c e found a).forM fun p => produce p.lhs p.body p.action p.node
      return (.nonterminal n, found.quantifier.isList)) := by
  intro found
  rw [fragmentTerm]
  refine bind_congr fun _ => bind_congr fun n => ?_
  unfold fragmentOperand fragmentProductions
  subst found
  generalize body.absorb quantifier none = found
  obtain ⟨atom, quantifier, carrier, absorbed⟩ := found
  cases carrier <;> cases quantifier <;> simp [Quantifier.isList]

theorem fragmentTerm_eq_ok {sc : LoweringScope} {c : ClassId} {e body : Expr}
    {quantifier : Quantifier} {result : Term × Bool}
    (h : fragmentTerm sc c e quantifier body d = .ok result d') :
    let found := body.absorb quantifier none
    ∃ n d₁ d₂ a d₃, result = (.nonterminal n, found.quantifier.isList) ∧
      d.Produces d₁ [] ∧
      d₁.Declares d₂ n (.fragment c found.quantifier.isList)
        (.synthesized sc.rule.id e.id (if found.quantifier.isList then .list else .optional)) ∧
      fragmentOperand sc c found d₂ = .ok a d₃ ∧
      d₃.Produces d' (fragmentProductions n c e found a) := by
  intro found
  rw [fragmentTerm_eq] at h
  simp only [bind_eq_ok, pure_eq_ok] at h
  obtain ⟨_, d₁, hwarn, n, d₂, hn, a, d₃, ha, _, d₄, hproduce, rfl, rfl⟩ := h
  have hproduces := produce_forM_eq_ok hproduce
  rw [List.map_id'] at hproduces
  exact ⟨n, d₁, d₂, a, d₃, rfl, warnNested_eq_ok hwarn, synthesize_eq_ok hn, ha, hproduces⟩

/-! ## Variants -/

/-- Where the payload of a variant lies, when the value of its branch lies at `position`. -/
def variantPayload (variant : Variant) (position : Option Nat) (branch : Expr) :
    Lowering (Option Nat) :=
  match variant.payload, position with
  | none, _ => pure none
  | some _, some position => pure (some position)
  | some _, none => fail (.payloadWithoutValue variant.tag) branch.span

theorem variantProductions_cons (sc : LoweringScope) (lhs : NonterminalId) (c : ClassId)
    (index : Nat) (branch : Expr) (rest : List Expr) (variant : Variant) (later : List Variant) :
    variantProductions sc lhs c index (branch :: rest) (variant :: later) =
      if variant.node ≠ branch.id then fail (.variantOrder variant.tag) branch.span
      else (do
        let result ← flatten sc branch #[]
        let payload ← variantPayload variant result.2 branch
        produce lhs result.1.toList (.choose c index payload) branch.id
        variantProductions sc lhs c (index + 1) rest later) := by
  rw [variantProductions]
  by_cases hnode : variant.node ≠ branch.id
  · rw [if_pos hnode, if_pos hnode]
  · rw [if_neg hnode, if_neg hnode]
    refine bind_congr fun result => ?_
    obtain ⟨terms, position⟩ := result
    unfold variantPayload
    cases variant.payload <;> cases position <;> rfl

theorem variantPayload_eq_ok {variant : Variant} {position payload : Option Nat} {branch : Expr}
    (h : variantPayload variant position branch d = .ok payload d') : d' = d := by
  unfold variantPayload at h
  cases hpayload : variant.payload <;> cases position <;> simp_all

/-! ## Equations without proofs inside -/

theorem bearerProductions_eq (sc : LoweringScope) (lhs : NonterminalId) (c : ClassId)
    (bearer : Expr) :
    bearerProductions sc lhs c bearer =
      if (sc.model.class? c).map (·.kind) = some .abstract then
        alternativeProductions sc lhs c bearer.classContent.1.core
      else classProductions sc lhs c bearer.classContent.1 bearer.classContent.2 := by
  rw [bearerProductions]

theorem classProductions_some (sc : LoweringScope) (lhs : NonterminalId) (c : ClassId)
    {content : Expr} (isBearer : Bool) {branches : List Expr}
    (h : content.classAlternatives? = some branches) :
    classProductions sc lhs c content isBearer = constructBranches sc lhs c branches := by
  rw [classProductions]
  split <;> simp_all

theorem classProductions_none (sc : LoweringScope) (lhs : NonterminalId) (c : ClassId)
    {content : Expr} (isBearer : Bool) (h : content.classAlternatives? = none) :
    classProductions sc lhs c content isBearer =
      construct sc c content isBearer .empty >>= fun a =>
        produce lhs a.terms (a.construct c) content.id := by
  rw [classProductions]
  split <;> simp_all

end Lowering
end AnnotatedGrammar
