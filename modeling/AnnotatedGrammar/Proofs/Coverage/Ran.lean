import AnnotatedGrammar.Proofs.Lowering.Additions
import AnnotatedGrammar.Proofs.Lowering.Progress

/-!
# Runs that a finished draft has behind it

A draft that is only added to keeps what each run on the way to it has made. So a run is described
here by the draft in which everything ends: which runs it consisted of, which productions it left
there, and which expression each term there stands for.
-/

namespace AnnotatedGrammar

/-- What an instance is built from, rather than merged into: no fragment. -/
def Content.IsWhole (content : Content) : Prop := ∀ c many, content ≠ .fragment c many

/-- A term is what an expression was lowered to as one element. -/
inductive Term.StandsFor (m : GrammarModel) (nonterminals : Array Nonterminal) :
    Expr → Term → Prop
  | terminal {info : NodeInfo} {t : Terminal} :
      StandsFor m nonterminals (.terminal info t) (.terminal t)
  | builtin {info : NodeInfo} {name : String} {p : Pattern}
      (hname : m.symbols.resolve? name = some (.builtin p)) :
      StandsFor m nonterminals (.reference info name) (.terminal (.pattern p))
  | rule {info : NodeInfo} {name : String} {id : RuleId}
      (hname : m.symbols.resolve? name = some (.rule id)) :
      StandsFor m nonterminals (.reference info name) (.nonterminal id)
  | group {info : NodeInfo} {body : Expr} {t : Term} (h : StandsFor m nonterminals body t) :
      StandsFor m nonterminals (.group info body) t
  | synthesized {e : Expr} {n : NonterminalId} {found : Nonterminal} {rule : RuleId}
      {kind : SynthesizedKind} (hfound : nonterminals[n]? = some found)
      (horigin : found.origin = .synthesized rule e.id kind) :
      StandsFor m nonterminals e (.nonterminal n)

namespace Assembly

/-- One assembly is what another one began with. -/
structure Begins (a a' : Assembly) : Prop where
  terms : a.terms <+: a'.terms
  steps : a.steps.toList <+: a'.steps.toList

variable {a a₁ a' : Assembly}

theorem Begins.refl (a : Assembly) : a.Begins a := ⟨List.prefix_rfl, List.prefix_rfl⟩

theorem Begins.trans (h : a.Begins a₁) (h' : a₁.Begins a') : a.Begins a' :=
  ⟨h.terms.trans h'.terms, h.steps.trans h'.steps⟩

theorem begins_of_body {t : Term} (hbody : a'.body = a.body.push t)
    (hsteps : a.steps.toList <+: a'.steps.toList) : a.Begins a' where
  terms := by
    rw [terms, terms, hbody, Array.toList_push]
    exact List.prefix_append _ _
  steps := hsteps

/-- An assembly goes on with the terms of so many parts. -/
structure Adds (a : Assembly) (count : Nat) (a' : Assembly) : Prop extends a.Begins a' where
  size_eq : a'.body.size = a.body.size + count

theorem Adds.refl (a : Assembly) : a.Adds 0 a := ⟨.refl a, rfl⟩

theorem Adds.trans {count count' : Nat} (h : a.Adds count a₁) (h' : a₁.Adds count' a') :
    a.Adds (count + count') a' :=
  ⟨h.toBegins.trans h'.toBegins, by rw [h'.size_eq, h.size_eq, Nat.add_assoc]⟩

theorem adds_push (a : Assembly) (t : Term) : a.Adds 1 (a.push t) :=
  ⟨begins_of_body rfl List.prefix_rfl, Array.size_push t⟩

theorem adds_pushStep (a : Assembly) (t : Term) (step : Step) :
    a.Adds 1 ⟨a.body.push t, a.steps.push step⟩ where
  toBegins := begins_of_body rfl (by
    rw [Array.toList_push]
    exact List.prefix_append _ _)
  size_eq := Array.size_push t

theorem adds_pushFragment (a : Assembly) (t : Term) (many : Bool) :
    a.Adds 1 (a.pushFragment t many) :=
  adds_pushStep a t _

end Assembly

namespace ProductionDraft

variable {d d' : ProductionDraft} {c : ClassId} {whole : Expr} {a a' : Assembly}
  {n : NonterminalId}

/-- The nonterminal carries no fragment. -/
def IsWhole (d : ProductionDraft) (n : NonterminalId) : Prop :=
  (d.nonterminals.getD n default).content.IsWhole

/-- The draft holds a production for an expression that builds an instance, or a fragment, of a
class from more than what an assembly has. -/
def Builds (d : ProductionDraft) (c : ClassId) (whole : Expr) (a : Assembly) : Prop :=
  ∃ p ∈ d.productions, p.node = some whole.id ∧
    ∃ steps, p.action = .construct c steps ∧ a.terms <+: p.body ∧ a.steps.toList <+: steps

theorem Builds.of_begins (h : d.Builds c whole a') (hbegins : a.Begins a') :
    d.Builds c whole a := by
  obtain ⟨p, hp, hnode, steps, haction, hterms, hsteps⟩ := h
  exact ⟨p, hp, hnode, steps, haction, hbegins.terms.trans hterms, hbegins.steps.trans hsteps⟩

theorem Builds.of_mem {lhs : NonterminalId}
    (h : ⟨lhs, a.terms, a.construct c, some whole.id⟩ ∈ d.productions) : d.Builds c whole a :=
  ⟨_, h, rfl, _, rfl, List.prefix_rfl, List.prefix_rfl⟩

theorem Grows.builds (h : d.Grows d') (hbuilds : d.Builds c whole a) : d'.Builds c whole a := by
  obtain ⟨p, hp, hrest⟩ := hbuilds
  exact ⟨p, h.keeps p hp, hrest⟩

theorem Grows.isWhole (h : d.Grows d') (hn : n < d.nonterminals.size) (hwhole : d.IsWhole n) :
    d'.IsWhole n := by
  rw [IsWhole, Array.getD_eq_getD_getElem?, h.keeps_nonterminal n hn,
    ← Array.getD_eq_getD_getElem?]
  exact hwhole

theorem Grows.standsFor {m : GrammarModel} (h : d.Grows d') {e : Expr} {t : Term}
    (hstands : t.StandsFor m d.nonterminals e) : t.StandsFor m d'.nonterminals e := by
  induction hstands with
  | terminal => exact .terminal
  | builtin hname => exact .builtin hname
  | rule hname => exact .rule hname
  | group _ ih => exact .group ih
  | synthesized hfound horigin =>
    refine .synthesized ?_ horigin
    rw [h.keeps_nonterminal _ (Array.getElem?_eq_some_iff.mp hfound).1, hfound]

theorem Declares.standsFor {m : GrammarModel} {content : Content} {rule : RuleId} {e : Expr}
    {kind : SynthesizedKind} (h : d.Declares d' n content (.synthesized rule e.id kind)) :
    (Term.nonterminal n).StandsFor m d'.nonterminals e := by
  obtain ⟨name, hname⟩ := h.getElem?_eq
  exact .synthesized hname rfl

theorem Declares.isWhole {content : Content} {origin : NonterminalOrigin}
    (h : d.Declares d' n content origin) (hcontent : content.IsWhole) : d'.IsWhole n := by
  rw [IsWhole, h.content_eq]
  exact hcontent

end ProductionDraft

theorem Content.isWhole_ofValue? (value : Option Value) : (Content.ofValue? value).IsWhole := by
  cases value <;> nofun

namespace Lowering

open ProductionDraft

variable {α β : Type} {D d d' : ProductionDraft} {sc : LoweringScope}

/-- A run with its result on the way to a draft. -/
def Ran (D : ProductionDraft) (x : Lowering α) (a : α) : Prop :=
  ∃ d d', x d = .ok a d' ∧ d'.Grows D

/-- Every run that succeeds only adds to the draft. -/
def Growing (x : Lowering α) : Prop := ∀ ⦃d a d'⦄, x d = .ok a d' → d.Grows d'

namespace Growing

theorem of_extending {x : Lowering α} {ids : List NodeId} {before : List Term}
    {after : α → List Term} (h : Extending sc ids before x after) : Growing x :=
  fun _ _ _ hx => (h hx).toGrows

theorem of_same {x : Lowering α} (h : ∀ ⦃d a d'⦄, x d = .ok a d' → d' = d) : Growing x := by
  intro d a d' hx
  rw [h hx]
  exact .refl d

theorem pure {a : α} : Growing (pure a : Lowering α) :=
  of_same fun _ _ _ hx => (pure_eq_ok.mp hx).2.symm

theorem bind {x : Lowering α} {f : α → Lowering β} (hx : Growing x) (hf : ∀ a, Growing (f a)) :
    Growing (x >>= f) := by
  intro d b d' h
  obtain ⟨a, d₁, ha, hb⟩ := bind_eq_ok.mp h
  exact (hx ha).trans (hf a hb)

theorem produce {lhs : NonterminalId} {body : List Term} {action : Action} {node : Option NodeId} :
    Growing (produce lhs body action node) :=
  fun _ _ _ h => (produce_eq_ok h).grows

theorem synthesize {e : Expr} {kind : SynthesizedKind} {content : Content} :
    Growing (synthesize sc e kind content) :=
  fun _ _ _ h => (synthesize_eq_ok h).grows

theorem forM {f : α → Lowering Unit} (hf : ∀ a, Growing (f a)) (xs : List α) :
    Growing (xs.forM f) := by
  induction xs with
  | nil => exact pure
  | cons a rest ih =>
    rw [List.forM_eq_forM, List.forM_cons]
    exact (hf a).bind fun _ => ih

theorem forM_produce {lhs : α → NonterminalId} {body : α → List Term} {action : α → Action}
    {node : α → Option NodeId} {xs : List α} :
    Growing (xs.forM fun a => Lowering.produce (lhs a) (body a) (action a) (node a)) :=
  forM (fun _ => produce) xs

theorem assign {c : ClassId} {owner e : Expr} {t : Term} {a : Assembly} :
    Growing (assign sc c owner e t a) :=
  of_same fun _ _ _ h => (assign_eq_ok h).1

theorem forwarding {value : Option Value} {position : Option Nat} {e : Expr} :
    Growing (forwarding value position e) :=
  of_same fun _ _ _ h => forwarding_eq_ok h

end Growing

namespace Ran

variable {x : Lowering α} {f : α → Lowering β} {a : α} {b : β}

/-- A run in two parts. -/
theorem bind (h : Ran D (x >>= f) b) (hf : ∀ a, Growing (f a)) :
    ∃ a, Ran D x a ∧ Ran D (f a) b := by
  obtain ⟨d, d', hrun, hgrows⟩ := h
  obtain ⟨a, d₁, hx, hrest⟩ := bind_eq_ok.mp hrun
  exact ⟨a, ⟨d, d₁, hx, (hf a hrest).trans hgrows⟩, d₁, d', hrest, hgrows⟩

/-- A run for each of several things. -/
theorem forM {f : α → Lowering Unit} {xs : List α} {u : Unit} (h : Ran D (xs.forM f) u)
    (hf : ∀ a, Growing (f a)) (ha : a ∈ xs) : Ran D (f a) () := by
  induction xs with
  | nil => cases ha
  | cons first rest ih =>
    rw [List.forM_eq_forM, List.forM_cons] at h
    obtain ⟨_, hfirst, hrest⟩ := h.bind fun _ => .forM hf rest
    rcases List.mem_cons.mp ha with rfl | ha
    · exact hfirst
    · exact ih hrest ha

theorem produced {lhs : NonterminalId} {body : List Term} {action : Action} {node : Option NodeId}
    {u : Unit} (h : Ran D (produce lhs body action node) u) :
    ⟨lhs, body, action, node⟩ ∈ D.productions := by
  obtain ⟨d, d', hrun, hgrows⟩ := h
  exact hgrows.keeps _ ((produce_eq_ok hrun).mem_iff.mpr (.inr (List.mem_singleton.mpr rfl)))

/-- The nonterminal made for an expression. -/
theorem synthesized {e : Expr} {kind : SynthesizedKind} {content : Content} {n : NonterminalId}
    (h : Ran D (synthesize sc e kind content) n) :
    (Term.nonterminal n).StandsFor sc.model D.nonterminals e ∧
      (content.IsWhole → D.IsWhole n) := by
  obtain ⟨d, d', hrun, hgrows⟩ := h
  have hdeclares := synthesize_eq_ok hrun
  exact ⟨hgrows.standsFor hdeclares.standsFor,
    fun hcontent => hgrows.isWhole hdeclares.lt_size (hdeclares.isWhole hcontent)⟩

theorem result_eq {a' : α} (h : Ran D (pure a' : Lowering α) a) : a' = a := by
  obtain ⟨d, d', hrun, -⟩ := h
  exact (pure_eq_ok.mp hrun).1

theorem class_eq {e : Expr} {c : ClassId} (h : Ran D (bearerClass sc e) c) :
    sc.model.nodeClasses.get? e.id = some c := by
  obtain ⟨d, d', hrun, -⟩ := h
  exact (bearerClass_eq_ok hrun).2

end Ran

/-! ## Terms for elements -/

theorem leafTerm_standsFor {info : NodeInfo} {name : String} {t : Term}
    (h : Ran D (leafTerm sc (.reference info name) name) t) :
    t.StandsFor sc.model D.nonterminals (.reference info name) := by
  unfold leafTerm at h
  split at h
  · rename_i p hname
    rw [← h.result_eq]
    exact .builtin hname
  · rename_i id hname
    rw [← h.result_eq]
    exact .rule hname
  · obtain ⟨d, d', hrun, -⟩ := h
    exact (fail_ne_ok.mp hrun).elim

/-- Every run that succeeds gives the nonterminal. -/
def Returning (n : NonterminalId) (x : Lowering Term) : Prop :=
  ∀ ⦃d t d'⦄, x d = .ok t d' → t = .nonterminal n ∧ d.Grows d'

namespace Returning

variable {n : NonterminalId}

theorem pure : Returning n (pure (.nonterminal n)) := by
  intro d t d' h
  obtain ⟨rfl, rfl⟩ := pure_eq_ok.mp h
  exact ⟨rfl, .refl d⟩

theorem bind {x : Lowering α} {f : α → Lowering Term} (hx : Growing x)
    (hf : ∀ a, Returning n (f a)) : Returning n (x >>= f) := by
  intro d t d' h
  obtain ⟨a, d₁, ha, ht⟩ := bind_eq_ok.mp h
  exact ⟨(hf a ht).1, (hx ha).trans (hf a ht).2⟩

theorem growing {x : Lowering Term} (h : Returning n x) : Growing x := fun _ _ _ hx => (h hx).2

end Returning

/-- The nonterminal made for an expression stands for it. -/
theorem Ran.standsFor {e : Expr} {kind : SynthesizedKind} {content : Content}
    {f : NonterminalId → Lowering Term} (hf : ∀ n, Returning n (f n)) {t : Term}
    (h : Ran D (synthesize sc e kind content >>= f) t) :
    t.StandsFor sc.model D.nonterminals e := by
  obtain ⟨n, hn, d, d', hrun, -⟩ := h.bind fun n => (hf n).growing
  rw [(hf n hrun).1]
  exact hn.synthesized.1

theorem Ran.afterWarning {e : Expr} {absorbed : List Absorption} {f : Unit → Lowering α} {a : α}
    (h : Ran D (warnNested sc e absorbed >>= f) a) : Ran D (f ()) a := by
  obtain ⟨d, d', hrun, hgrows⟩ := h
  obtain ⟨_, d₁, -, hrest⟩ := bind_eq_ok.mp hrun
  exact ⟨d₁, d', hrest, hgrows⟩

theorem plainQuantified_standsFor {e body : Expr} {quantifier : Quantifier} {t : Term}
    (h : Ran D (plainQuantified sc e quantifier body) t) :
    t.StandsFor sc.model D.nonterminals e := by
  obtain ⟨-, -, hterms, -⟩ := @plain_extends sc
  rw [plainQuantified] at h
  refine h.afterWarning.standsFor fun n => ?_
  exact .bind (.of_extending (hterms _)) fun _ => .bind .forM_produce fun _ => .pure

theorem plainTerm_standsFor : ∀ {e : Expr} {t : Term}, Ran D (plainTerm sc e) t →
    t.StandsFor sc.model D.nonterminals e
  | .terminal info terminal, t, h => by
    rw [plainTerm] at h
    rw [← h.result_eq]
    exact .terminal
  | .reference info name, t, h => by
    rw [plainTerm] at h
    exact leafTerm_standsFor h
  | .group info body, t, h => by
    rw [plainTerm] at h
    exact .group (plainTerm_standsFor h)
  | .sequence info items, t, h => by
    obtain ⟨-, -, -, hterms, -⟩ := @plain_extends sc
    rw [plainTerm] at h
    refine h.standsFor fun n => ?_
    exact .bind (.of_extending (hterms items)) fun _ => .bind .produce fun _ => .pure
  | .alternation info branches, t, h => by
    obtain ⟨-, -, -, -, hbranches⟩ := @plain_extends sc
    rw [plainTerm] at h
    refine h.standsFor fun n => ?_
    exact .bind (.of_extending (hbranches n branches)) fun _ => .pure
  | .optional info body, t, h => by
    rw [plainTerm] at h
    exact plainQuantified_standsFor h
  | .repeated info body kind, t, h => by
    rw [plainTerm] at h
    exact plainQuantified_standsFor h

theorem quantifiedTerm_standsFor {e body : Expr} {quantifier : Quantifier} {value : Option Value}
    {t : Term} (h : Ran D (quantifiedTerm sc e quantifier body value) t) :
    t.StandsFor sc.model D.nonterminals e := by
  obtain ⟨helement, -⟩ := @valued_extends sc
  rw [quantifiedTerm] at h
  refine h.afterWarning.standsFor fun n => ?_
  refine .bind (.of_extending (helement _ _)) fun item => ?_
  cases value with
  | none => exact .bind .forM_produce fun _ => .pure
  | some v => exact .bind .forM_produce fun _ => .pure

/-- What holds of the shape of an expression holds of the expression as one element. -/
theorem elementTerm_standsFor_of {e : Expr} {kind : SynthesizedKind} {t : Term}
    (hshape : ∀ {value : Option Value}, Ran D (shapeTerm sc e value kind) t →
      t.StandsFor sc.model D.nonterminals e) (h : Ran D (elementTerm sc e kind) t) :
    t.StandsFor sc.model D.nonterminals e := by
  obtain ⟨-, -, -, -, -, -, -, -, -, -, -, -, -, -, -, hbearer, -⟩ := @valued_extends sc
  rw [elementTerm] at h
  split at h
  · exact plainTerm_standsFor h
  split at h
  · have hproduces (c : ClassId) (n : NonterminalId) :
        Returning n (do bearerProductions sc n c e; return .nonterminal n) :=
      .bind (.of_extending (hbearer n c e)) fun _ => .pure
    obtain ⟨c, -, h⟩ := h.bind fun c => .bind .synthesize
      fun n => (hproduces c n).growing
    exact h.standsFor (hproduces c)
  · exact hshape h

theorem shapeTerm_standsFor : ∀ {e : Expr} {value : Option Value} {kind : SynthesizedKind}
    {t : Term}, Ran D (shapeTerm sc e value kind) t → t.StandsFor sc.model D.nonterminals e
  | .terminal info terminal, _, _, _, h => by
    rw [shapeTerm] at h
    rw [← h.result_eq]
    exact .terminal
  | .reference info name, _, _, _, h => by
    rw [shapeTerm] at h
    exact leafTerm_standsFor h
  | .group info body, _, _, _, h => by
    rw [shapeTerm] at h
    exact .group (elementTerm_standsFor_of shapeTerm_standsFor h)
  | .sequence info items, _, _, _, h => by
    obtain ⟨-, -, -, -, -, hitems, -⟩ := @valued_extends sc
    rw [shapeTerm] at h
    refine h.standsFor fun n => .bind (.of_extending (hitems items _)) ?_
    rintro ⟨terms, position⟩
    exact .bind .forwarding fun _ => .bind .produce fun _ => .pure
  | .alternation info branches, value, kind, t, h => by
    obtain ⟨-, -, -, hflat, -, -, -, halternatives, -⟩ := @valued_extends sc
    rw [shapeTerm] at h
    refine h.standsFor fun n => ?_
    cases hclass : sc.model.nodeClasses.get? info.id with
    | some c => exact .bind (.of_extending (halternatives n c _)) fun _ => .pure
    | none =>
      dsimp only
      split
      · exact .bind (fun _ _ _ hrun => (fail_ne_ok.mp hrun).elim) fun _ => .pure
      · exact .bind (.of_extending (hflat n branches)) fun _ => .pure
  | .optional info body, _, _, _, h => by
    rw [shapeTerm] at h
    exact quantifiedTerm_standsFor h
  | .repeated info body kind, _, _, _, h => by
    rw [shapeTerm] at h
    exact quantifiedTerm_standsFor h

theorem elementTerm_standsFor {e : Expr} {kind : SynthesizedKind} {t : Term}
    (h : Ran D (elementTerm sc e kind) t) : t.StandsFor sc.model D.nonterminals e :=
  elementTerm_standsFor_of shapeTerm_standsFor h

/-! ## Fields -/

variable {c : ClassId} {e owner : Expr} {t : Term} {a a' : Assembly}

/-- Assigning adds the term, and a step if there is a field to fill. -/
inductive Assigns (sc : LoweringScope) (c : ClassId) (owner e : Expr) (t : Term) (a : Assembly) :
    Assembly → Prop
  | nothing (hfield : sc.model.fieldFor? c owner.id = none) : Assigns sc c owner e t a (a.push t)
  | position {f : FieldModel} {mode : AssignMode}
      (hfield : sc.model.fieldFor? c owner.id = some f) : Assigns sc c owner e t a
        ⟨a.body.push t, a.steps.push (.assign f.id (.position a.body.size) mode)⟩
  | lexeme {f : FieldModel} {mode : AssignMode} {text : String}
      (hfield : sc.model.fieldFor? c owner.id = some f) (htext : e.literalText? = some text) :
      Assigns sc c owner e t a
        ⟨a.body.push t, a.steps.push (.assign f.id (.lexeme text) mode)⟩

theorem assign_assigns (h : assign sc c owner e t a d = .ok a' d') :
    Assigns sc c owner e t a a' := by
  cases hfield : sc.model.fieldFor? c owner.id with
  | none =>
    rw [assign_of_none hfield, pure_eq_ok] at h
    rw [← h.1]
    exact .nothing hfield
  | some f =>
    by_cases hliteral : e.literalText?.isSome = true
    · obtain ⟨info, text, rfl⟩ := exists_literal hliteral
      rw [assign_of_literal hfield, pure_eq_ok] at h
      rw [← h.1]
      exact .lexeme hfield rfl
    · rw [Bool.not_eq_true, Option.isSome_eq_false_iff, Option.isNone_iff_eq_none] at hliteral
      cases hcontent : t.contentIn d.nonterminals with
      | value w =>
        rw [assign_of_value hfield hliteral hcontent] at h
        cases h
        exact .position hfield
      | nothing | fragment =>
        unfold assign at h
        cases e <;> (try rename Terminal => terminal; cases terminal) <;>
          simp [hfield, hcontent, Expr.literalText?, Content.value?] at h hliteral

theorem Assigns.adds (h : Assigns sc c owner e t a a') : a.Adds 1 a' := by
  cases h with
  | nothing => exact a.adds_push t
  | position | lexeme => exact a.adds_pushStep t _

end Lowering
end AnnotatedGrammar
