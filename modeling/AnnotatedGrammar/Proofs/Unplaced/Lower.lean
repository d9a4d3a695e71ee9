import Mathlib
import AnnotatedGrammar.Proofs.Lowering.Run
import AnnotatedGrammar.Proofs.Unplaced.Query

/-!
# Lowering without places

A production set keeps places only in its warnings, and a fault only to show where it was found.
Lowering a model without places does what lowering the model does, apart from the places.
-/

namespace AnnotatedGrammar

/-- The warning without its place. -/
def NestedQuantifiers.unplaced (w : NestedQuantifiers) : NestedQuantifiers :=
  { w with span := default }

namespace InternalFault

/-- The fault without its place. -/
def unplaced : InternalFault → InternalFault
  | invariant stage finding span => invariant stage finding (span.map fun _ => default)
  | other => other

@[simp] theorem message_unplaced (fault : InternalFault) :
    fault.unplaced.message = fault.message := by
  cases fault <;> rfl

@[simp] theorem code_unplaced (fault : InternalFault) : fault.unplaced.code = fault.code := by
  cases fault <;> rfl

end InternalFault

/-- The draft without places. -/
def ProductionDraft.unplaced (d : ProductionDraft) : ProductionDraft :=
  { d with warnings := d.warnings.map NestedQuantifiers.unplaced }

namespace Lowering

/-- What came of a step of lowering, without places. -/
def unplacedResult {α : Type} :
    EStateM.Result InternalFault ProductionDraft α → EStateM.Result InternalFault ProductionDraft α
  | .ok a d => .ok a d.unplaced
  | .error fault d => .error fault.unplaced d.unplaced

/-- On a draft without places `x'` does what `x` does on the draft, apart from the places. -/
def IgnoresPlaces {α : Type} (x x' : Lowering α) : Prop :=
  ∀ d, x' d.unplaced = unplacedResult (x d)

namespace IgnoresPlaces

variable {α β : Type} {x x' : Lowering α} {f f' : α → Lowering β}

theorem pure (a : α) : IgnoresPlaces (Pure.pure a) (Pure.pure a) := fun _ => rfl

theorem throw (fault : InternalFault) :
    IgnoresPlaces (throw fault : Lowering α) (throw fault.unplaced) := fun _ => rfl

/-- A step gives up with the same finding, whatever the place is. -/
theorem fail (finding : Finding) (span : Option Span) :
    IgnoresPlaces (fail finding span : Lowering α)
      (Lowering.fail finding (span.map fun _ => default)) :=
  .throw _

theorem bind (hx : IgnoresPlaces x x') (hf : ∀ a, IgnoresPlaces (f a) (f' a)) :
    IgnoresPlaces (x >>= f) (x' >>= f') := by
  intro d
  change EStateM.bind x' f' d.unplaced = unplacedResult (EStateM.bind x f d)
  unfold EStateM.bind
  rw [hx d]
  cases x d with
  | ok a d' => exact hf a d'
  | error fault d' => rfl

/-- What is read from the draft may be read without places. -/
theorem get_bind {f f' : ProductionDraft → Lowering β}
    (hf : ∀ d, IgnoresPlaces (f d) (f' d.unplaced)) :
    IgnoresPlaces (get >>= f) (get >>= f') := fun d => hf d d

theorem modify {g g' : ProductionDraft → ProductionDraft}
    (h : ∀ d, g' d.unplaced = (g d).unplaced) : IgnoresPlaces (modify g) (modify g') :=
  fun d => congrArg (EStateM.Result.ok ()) (h d)

theorem discard (hx : IgnoresPlaces x x') : IgnoresPlaces (discard x) (discard x') := by
  intro d
  change EStateM.map (Function.const α PUnit.unit) x' d.unplaced =
    unplacedResult (EStateM.map (Function.const α PUnit.unit) x d)
  unfold EStateM.map
  rw [hx d]
  cases x d <;> rfl

theorem ite {p : Prop} [Decidable p] {y y' : Lowering α} (hx : p → IgnoresPlaces x x')
    (hy : ¬p → IgnoresPlaces y y') :
    IgnoresPlaces (if p then x else y) (if p then x' else y') := by
  split
  · exact hx ‹_›
  · exact hy ‹_›

theorem forM {γ : Type} {g g' : γ → Lowering PUnit} (h : ∀ a, IgnoresPlaces (g a) (g' a))
    (as : List γ) : IgnoresPlaces (as.forM g) (as.forM g') := by
  induction as with
  | nil => exact pure _
  | cons a rest ih => exact (h a).bind fun _ => ih

end IgnoresPlaces
end Lowering

/-- What lowering a rule needs to know, without places. -/
def LoweringScope.unplaced (sc : LoweringScope) (symbols : SymbolTable) : LoweringScope :=
  { sc with
    model := sc.model.unplaced symbols
    rule := sc.rule.unplaced }

namespace Lowering

variable {sc : LoweringScope} {symbols : SymbolTable}

/-! ## Operations -/

theorem declare_ignoresPlaces (base : String) (content : Content) (origin : NonterminalOrigin) :
    IgnoresPlaces (declare base content origin) (declare base content origin) :=
  .get_bind fun _ => .bind (.modify fun _ => rfl) fun _ => .pure _

theorem produce_ignoresPlaces (lhs : NonterminalId) (body : List Term) (action : Action)
    (node : Option NodeId) :
    IgnoresPlaces (produce lhs body action node) (produce lhs body action node) :=
  .modify fun _ => rfl

theorem warnNested_ignoresPlaces (e : Expr) (absorbed : List Absorption) :
    IgnoresPlaces (warnNested sc e absorbed)
      (warnNested (sc.unplaced symbols) e.unplaced absorbed) := by
  refine .modify fun d => ?_
  rw [Expr.span_unplaced]
  simp only [ProductionDraft.unplaced, Array.map_append, List.map_toArray, List.map_map]
  rfl

theorem synthesize_ignoresPlaces (sc : LoweringScope) (symbols : SymbolTable) (e : Expr)
    (kind : SynthesizedKind) (content : Content) :
    IgnoresPlaces (synthesize sc e kind content)
      (synthesize (sc.unplaced symbols) e.unplaced kind content) := by
  unfold synthesize
  rw [Expr.id_unplaced]
  refine (declare_ignoresPlaces _ _ _).bind fun n => ?_
  refine .ite (fun _ => ?_) fun _ => .pure n
  exact .bind (.modify fun _ => rfl) fun _ => .pure n

theorem contentOf_ignoresPlaces (term : Term) :
    IgnoresPlaces (contentOf term) (contentOf term) :=
  .get_bind fun _ => .pure _

theorem leafTerm_ignoresPlaces (hsymbols : sc.model.symbols.Agrees symbols) (e : Expr)
    (name : String) :
    IgnoresPlaces (leafTerm sc e name) (leafTerm (sc.unplaced symbols) e.unplaced name) := by
  have hresolve : (sc.unplaced symbols).model.symbols.resolve? name =
      sc.model.symbols.resolve? name := hsymbols name
  unfold leafTerm
  rw [hresolve, Expr.span_unplaced]
  split
  · exact .pure _
  · exact .pure _
  · exact .fail _ _

theorem bearerClass_ignoresPlaces (e : Expr) :
    IgnoresPlaces (bearerClass sc e) (bearerClass (sc.unplaced symbols) e.unplaced) := by
  have hclasses : (sc.unplaced symbols).model.nodeClasses = sc.model.nodeClasses := rfl
  unfold bearerClass
  rw [hclasses, Expr.id_unplaced, Expr.span_unplaced, Expr.display_unplaced]
  split
  · exact .pure _
  · exact .fail _ _

theorem forwarding_ignoresPlaces (value : Option Value) (position : Option Nat) (e : Expr) :
    IgnoresPlaces (forwarding value position e) (forwarding value position e.unplaced) := by
  unfold forwarding
  rw [Expr.span_unplaced, Expr.display_unplaced]
  split
  · exact .pure _
  · exact .pure _
  · exact .fail _ _

theorem assign_ignoresPlaces (c : ClassId) (owner e : Expr) (term : Term) (a : Assembly) :
    IgnoresPlaces (assign sc c owner e term a)
      (assign (sc.unplaced symbols) c owner.unplaced e.unplaced term a) := by
  have hfield : (sc.unplaced symbols).model.fieldFor? c owner.unplaced.id =
      sc.model.fieldFor? c owner.id := by
    rw [Expr.id_unplaced]
    exact sc.model.fieldFor?_unplaced symbols c owner.id
  unfold assign
  rw [hfield]
  cases sc.model.fieldFor? c owner.id with
  | none => exact .pure _
  | some field =>
    have hfail (e : Expr) : IgnoresPlaces
        (fail (.fieldWithoutValue field.name e.display) (some e.span) :
          Lowering (FieldSource × Cardinality))
        (fail (.fieldWithoutValue field.name e.unplaced.display) (some e.unplaced.span)) := by
      rw [Expr.display_unplaced, Expr.span_unplaced]
      exact .fail _ _
    -- every expression but a literal gives its field what its term carries
    cases e with
    | terminal info t =>
      cases t with
      | literal text => exact .pure _
      | pattern p =>
        refine (contentOf_ignoresPlaces term).bind fun content => ?_
        cases content.value? with
        | some v => exact .pure _
        | none => exact (hfail _).bind fun _ => .pure _
    | _ =>
      refine (contentOf_ignoresPlaces term).bind fun content => ?_
      cases content.value? with
      | some v => exact .pure _
      | none => exact (hfail _).bind fun _ => .pure _

end Lowering
end AnnotatedGrammar
