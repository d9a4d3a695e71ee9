import AnnotatedGrammar.Proofs.Analysis.Agreement
import AnnotatedGrammar.Proofs.Lowering.Run
import AnnotatedGrammar.Proofs.Model.Built

/-!
# Work that succeeds

A lowering can give up. Here it is said of an operation that it does not, together with what it
leaves behind: productions that fit, a term that carries what it should, and a production for every
new nonterminal.
-/

namespace AnnotatedGrammar

/-- The content is a value that agrees with another one. -/
def Content.Carries (strict : Prop) (v : Value) (content : Content) : Prop :=
  ∃ w, content = .value w ∧ v.Agrees strict w

/-- The content is a value, and an instance of a class may go there. -/
def Content.Accepts (strict : Prop) (m : GrammarModel) (c : ClassId) (content : Content) : Prop :=
  ∃ w, content = .value w ∧ (Value.ofClass c).FitsInto strict m w

theorem Content.Carries.accepts {strict : Prop} {m : GrammarModel} {c : ClassId}
    {content : Content} (h : content.Carries strict (.ofClass c)) :
    content.Accepts strict m c := by
  obtain ⟨w, rfl, hagrees⟩ := h
  exact ⟨w, rfl, (Value.Agrees.refl _).fitsInto hagrees⟩

theorem Content.Accepts.ofBase {strict : Prop} {m : GrammarModel} {c base : ClassId}
    {content : Content} (h : content.Accepts strict m base) (hbase : m.HasBase c base) :
    content.Accepts strict m c := by
  obtain ⟨w, rfl, hfits⟩ := h
  exact ⟨w, rfl, hfits.ofBase hbase⟩

theorem Content.carries_ofValue? {strict : Prop} {v : Value} {value : Option Value}
    (h : Option.Rel (Value.Agrees strict) (some v) value) :
    (Content.ofValue? value).Carries strict v := by
  cases h with
  | some hagrees => exact ⟨_, rfl, hagrees⟩

namespace GrammarModel

variable {m : GrammarModel} {d d' : ProductionDraft}

/-- The nonterminals of the rules are there and carry the values of the rules. -/
structure Ready (m : GrammarModel) (d : ProductionDraft) : Prop where
  inScope : d.Scoped m.rules.size
  content_eq : ∀ id rule, m.rule? id = some rule →
    (d.nonterminals.getD id default).content = .ofValue? rule.value

theorem Ready.grows (h : m.Ready d) (hgrows : d.Grows d') (hscoped : d'.Scoped m.rules.size) :
    m.Ready d' where
  inScope := hscoped
  content_eq id rule hrule := by
    have hid : id < m.rules.size := (Array.getElem?_eq_some_iff.mp hrule).1
    rw [Array.getD_eq_getD_getElem?,
      hgrows.keeps_nonterminal id (Nat.lt_of_lt_of_le hid h.inScope.count_le),
      ← Array.getD_eq_getD_getElem?]
    exact h.content_eq id rule hrule

theorem Ready.completes {strict : Prop} (h : m.Ready d)
    (hcompletes : d.Completes strict m m.rules.size d') : m.Ready d' :=
  h.grows hcompletes.toGrows (hcompletes.inScope h.inScope)

theorem Ready.declares {n : NonterminalId} {content : Content} {origin : NonterminalOrigin}
    (h : m.Ready d) (hdeclares : d.Declares d' n content origin) : m.Ready d' :=
  h.grows hdeclares.grows (hdeclares.inScope h.inScope)

/-- The fields of a class know their index and their class. -/
def FieldsOwned (m : GrammarModel) : Prop :=
  ∀ c model, m.class? c = some model → ∀ id ∈ model.fields, ∀ f, m.field? id = some f →
    f.id = id ∧ f.owner = c

theorem FieldsOwned.fieldFor? (h : m.FieldsOwned) {c : ClassId} {node : NodeId} {f : FieldModel}
    (hf : m.fieldFor? c node = some f) : m.field? f.id = some f ∧ f.owner = c := by
  have hmem := List.mem_of_find?_eq_some hf
  unfold fieldsOf at hmem
  cases hmodel : m.class? c with
  | none => simp [hmodel] at hmem
  | some model =>
    simp only [hmodel, List.mem_filterMap] at hmem
    obtain ⟨id, hid, hfield⟩ := hmem
    obtain ⟨rfl, howner⟩ := h c model hmodel id hid f hfield
    exact ⟨hfield, howner⟩

end GrammarModel

namespace Lowering

variable {α β : Type} {x : Lowering α} {d : ProductionDraft} {post : α → ProductionDraft → Prop}

/-- The work succeeds, with a result and a draft as described. -/
def Succeeds (x : Lowering α) (d : ProductionDraft) (post : α → ProductionDraft → Prop) : Prop :=
  ∃ a d', x d = .ok a d' ∧ post a d'

theorem Succeeds.pure {a : α} (h : post a d) : Succeeds (pure a) d post := ⟨a, d, rfl, h⟩

theorem Succeeds.bind {f : α → Lowering β} {mid : α → ProductionDraft → Prop}
    {post : β → ProductionDraft → Prop} (h : Succeeds x d mid)
    (hf : ∀ a d', mid a d' → Succeeds (f a) d' post) : Succeeds (x >>= f) d post := by
  obtain ⟨a, d₁, hx, hmid⟩ := h
  obtain ⟨b, d₂, hb, hpost⟩ := hf a d₁ hmid
  exact ⟨b, d₂, bind_eq_ok.mpr ⟨a, d₁, hx, hb⟩, hpost⟩

theorem Succeeds.imp {post' : α → ProductionDraft → Prop} (h : Succeeds x d post)
    (himp : ∀ a d', post a d' → post' a d') : Succeeds x d post' := by
  obtain ⟨a, d', hx, hpost⟩ := h
  exact ⟨a, d', hx, himp a d' hpost⟩

theorem declare_succeeds (base : String) (content : Content) (origin : NonterminalOrigin)
    (d : ProductionDraft) :
    Succeeds (declare base content origin) d fun n d' => d.Declares d' n content origin :=
  ⟨_, _, rfl, declare_eq_ok rfl⟩

theorem synthesize_succeeds (sc : LoweringScope) (e : Expr) (kind : SynthesizedKind)
    (content : Content) (d : ProductionDraft) :
    Succeeds (synthesize sc e kind content) d fun n d' =>
      d.Declares d' n content (.synthesized sc.rule.id e.id kind) := by
  have hok : ∃ n d', synthesize sc e kind content d = .ok n d' := by
    unfold synthesize
    cases sc.reports <;> exact ⟨_, _, rfl⟩
  obtain ⟨n, d', h⟩ := hok
  exact ⟨n, d', h, synthesize_eq_ok h⟩

theorem produce_succeeds (lhs : NonterminalId) (body : List Term) (action : Action)
    (node : Option NodeId) (d : ProductionDraft) :
    Succeeds (produce lhs body action node) d fun _ d' =>
      d.Produces d' [⟨lhs, body, action, node⟩] :=
  ⟨_, _, rfl, produce_eq_ok rfl⟩

theorem warnNested_succeeds (sc : LoweringScope) (e : Expr) (absorbed : List Absorption)
    (d : ProductionDraft) :
    Succeeds (warnNested sc e absorbed) d fun _ d' => d.Produces d' [] :=
  ⟨_, _, rfl, warnNested_eq_ok rfl⟩

end Lowering

/-! ## Instances being built -/

/-- The terms of an instance being built exist, and its steps fit them. -/
structure Assembly.Fits (strict : Prop) (m : GrammarModel) (nonterminals : Array Nonterminal)
    (c : ClassId) (a : Assembly) : Prop where
  below : ∀ t ∈ a.terms, t.Below nonterminals.size
  fits : ∀ step ∈ a.steps.toList, step.Fits strict m nonterminals c a.terms

namespace Assembly

variable {strict : Prop} {m : GrammarModel} {nonterminals : Array Nonterminal} {c : ClassId}
  {a : Assembly} {t : Term}

theorem fits_empty : Assembly.empty.Fits strict m nonterminals c :=
  ⟨fun _ h => absurd h List.not_mem_nil, fun _ h => absurd h List.not_mem_nil⟩

theorem terms_push (a : Assembly) (t : Term) : (a.push t).terms = a.terms ++ [t] := by
  simp [terms, push]

theorem Fits.push (h : a.Fits strict m nonterminals c) (ht : t.Below nonterminals.size) :
    (a.push t).Fits strict m nonterminals c where
  below := by
    rw [terms_push]
    exact List.forall_mem_append.mpr ⟨h.below, List.forall_mem_singleton.mpr ht⟩
  fits step hstep := by
    rw [terms_push]
    exact (h.fits step hstep).append [t]

/-- One more term, with a step that fits the terms together with it. -/
theorem Fits.pushStep {step : Step} (h : a.Fits strict m nonterminals c)
    (ht : t.Below nonterminals.size)
    (hstep : step.Fits strict m nonterminals c (a.terms ++ [t])) :
    (⟨a.body.push t, a.steps.push step⟩ : Assembly).Fits strict m nonterminals c := by
  have hterms : (⟨a.body.push t, a.steps.push step⟩ : Assembly).terms = a.terms ++ [t] :=
    terms_push a t
  refine ⟨hterms ▸ (h.push ht).below, fun step' hstep' => ?_⟩
  rw [hterms]
  rcases List.mem_append.mp (Array.toList_push ▸ hstep') with hold | hnew
  · exact (h.fits step' hold).append [t]
  · rw [List.mem_singleton.mp hnew]
    exact hstep

theorem carriesAt_last (a : Assembly) (t : Term) :
    Term.CarriesAt nonterminals (a.terms ++ [t]) a.body.size (t.contentIn nonterminals) :=
  ⟨t, by simp [terms], rfl⟩

theorem Fits.pushFragment {many : Bool} (h : a.Fits strict m nonterminals c)
    (ht : t.Below nonterminals.size) (hcontent : t.contentIn nonterminals = .fragment c many) :
    (a.pushFragment t many).Fits strict m nonterminals c :=
  h.pushStep ht (by
    have hlast : Term.CarriesAt nonterminals (a.terms ++ [t]) a.body.size
        (t.contentIn nonterminals) := a.carriesAt_last t
    rw [hcontent] at hlast
    exact hlast)

theorem Fits.grows {d d' : ProductionDraft} (h : a.Fits strict m d.nonterminals c)
    (hgrows : d.Grows d') : a.Fits strict m d'.nonterminals c where
  below t ht := (h.below t ht).mono hgrows.size_le
  fits step hstep := (h.fits step hstep).congr h.below hgrows.keeps_nonterminal

theorem Fits.production (h : a.Fits strict m nonterminals c) (hc : Settled.HasKind m c .concrete)
    (lhs : NonterminalId) (node : Option NodeId) :
    (⟨lhs, a.terms, a.construct c, node⟩ : Production).Fits strict m nonterminals :=
  ⟨hc, h.fits⟩

end Assembly
end AnnotatedGrammar
