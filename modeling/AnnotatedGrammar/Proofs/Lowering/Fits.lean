import Mathlib.Logic.Relation
import AnnotatedGrammar.Production.Check
import AnnotatedGrammar.Proofs.Lowering.Growth

/-!
# Productions that fit

A production fits when everything its action reads is there and may go where the action puts it.
Cardinalities are always compared. Element types are compared only in the strict sense; a declared
type may turn the element of one value into a base without changing the values around it, so that
only the weaker sense holds of every production set.
-/

namespace AnnotatedGrammar

/-- A value with the cardinality of another one and, in the strict sense, its element. -/
structure Value.Agrees (strict : Prop) (v w : Value) : Prop where
  cardinality_eq : w.cardinality = v.cardinality
  element_eq : strict → w.element = v.element

/-- A class derives directly from a base. -/
def GrammarModel.HasBase (m : GrammarModel) (c base : ClassId) : Prop :=
  ∃ model, m.class? c = some model ∧ model.base = some base

/-- A class is another one or derives from it. -/
def GrammarModel.Derives (m : GrammarModel) (c ancestor : ClassId) : Prop :=
  Relation.ReflTransGen m.HasBase c ancestor

/-- A class of some kind. -/
def Settled.HasKind (m : GrammarModel) (c : ClassId) (kind : ClassKind) : Prop :=
  ∃ model, m.class? c = some model ∧ model.kind = kind

/-- An element may stand where another one is expected: it is the same, or its class derives from
the other. -/
def ElementType.FitsInto (m : GrammarModel) (source target : ElementType) : Prop :=
  source = target ∨
    ∃ c ancestor, source = .instance c ∧ target = .instance ancestor ∧ m.Derives c ancestor

/-- A value may go where another one is expected. -/
structure Value.FitsInto (strict : Prop) (m : GrammarModel) (source target : Value) : Prop where
  rank_le : source.cardinality.rank ≤ target.cardinality.rank
  element : strict → source.element.FitsInto m target.element

/-- A way of assigning that suits a field and a value. -/
def AssignMode.Suits : AssignMode → Cardinality → Cardinality → Prop
  | set, field, value => field ≠ .list ∧ value ≠ .list
  | append, field, _ | extend, field, _ => field = .list

/-- The value that a field holds. -/
def FieldModel.value (f : FieldModel) : Value := ⟨f.element, f.cardinality⟩

/-- The term at a position carries some content. -/
def Term.CarriesAt (nonterminals : Array Nonterminal) (body : List Term) (position : Nat)
    (content : Content) : Prop :=
  ∃ t, body[position]? = some t ∧ t.contentIn nonterminals = content

variable (strict : Prop) (m : GrammarModel) (nonterminals : Array Nonterminal)

/-- The content at a position is a value that may go into another content. -/
def Term.FlowsAt (body : List Term) (position : Nat) (target : Content) : Prop :=
  ∃ v w, Term.CarriesAt nonterminals body position (.value v) ∧ target = .value w ∧
    v.FitsInto strict m w

/-- A step that fills an instance of a class from the terms of a body. -/
def Step.Fits (c : ClassId) (body : List Term) : Step → Prop
  | .assign field source mode =>
    ∃ f, m.field? field = some f ∧ f.owner = c ∧
      match source with
      | .position i =>
        ∃ v, Term.CarriesAt nonterminals body i (.value v) ∧ v.FitsInto strict m f.value ∧
          mode.Suits f.cardinality v.cardinality
      | .lexeme _ =>
        (strict → f.element = .primitive .keyword) ∧ mode.Suits f.cardinality .scalar
  | .merge position many => Term.CarriesAt nonterminals body position (.fragment c many)

/-- The payload of a variant and the position it is taken from. -/
def Variant.Fits (variant : Variant) (body : List Term) (payload : Option Nat) : Prop :=
  match variant.payload, payload with
  | none, none => True
  | some field, some i =>
    ∃ f, m.field? field = some f ∧ Term.FlowsAt strict m nonterminals body i (.value f.value)
  | _, _ => False

/-- A production whose action reads what is there and puts it where it may go. -/
def Production.Fits (p : Production) : Prop :=
  let target := (nonterminals.getD p.lhs default).content
  match p.action with
  | .nothing => target = .nothing
  | .forward i | .accept i => Term.FlowsAt strict m nonterminals p.body i target
  | .absent => ProductionSet.isOptionalContent target = true
  | .emptyList => ProductionSet.isListContent target = true
  | .prepend item list =>
    ProductionSet.isListContent target = true ∧
      Term.FlowsAt strict m nonterminals p.body item target ∧
        Term.CarriesAt nonterminals p.body list target
  | .singleton item =>
    ProductionSet.isListContent target = true ∧
      Term.FlowsAt strict m nonterminals p.body item target
  | .construct c steps =>
    Settled.HasKind m c .concrete ∧ ∀ step ∈ steps, step.Fits strict m nonterminals c p.body
  | .choose c index payload =>
    ∃ model variant, m.class? c = some model ∧ model.variants[index]? = some variant ∧
      variant.Fits strict m nonterminals p.body payload

variable {strict m nonterminals}

namespace Value

theorem Agrees.refl (v : Value) : v.Agrees strict v := ⟨rfl, fun _ => rfl⟩

theorem FitsInto.refl (v : Value) : v.FitsInto strict m v := ⟨Nat.le_refl _, fun _ => .inl rfl⟩

/-- An instance may go wherever an instance of its base may. -/
theorem FitsInto.ofBase {c base : ClassId} {w : Value}
    (h : (Value.ofClass base).FitsInto strict m w)
    (hbase : m.HasBase c base) : (Value.ofClass c).FitsInto strict m w where
  rank_le := h.rank_le
  element hstrict := by
    rcases h.element hstrict with heq | ⟨b, ancestor, hb, hancestor, hderives⟩
    · exact .inr ⟨c, base, rfl, heq.symm, .single hbase⟩
    · cases hb
      exact .inr ⟨c, ancestor, rfl, hancestor, .head hbase hderives⟩

/-- Two values that agree with a third may go into each other. -/
theorem Agrees.fitsInto {v w w' : Value} (h : v.Agrees strict w) (h' : v.Agrees strict w') :
    w.FitsInto strict m w' where
  rank_le := Nat.le_of_eq (by rw [h.cardinality_eq, h'.cardinality_eq])
  element hstrict := .inl (by rw [h.element_eq hstrict, h'.element_eq hstrict])

theorem Agrees.wrapped {v w : Value} (h : v.Agrees strict w) (outer : Cardinality) :
    (v.wrapped outer).Agrees strict (w.wrapped outer) where
  cardinality_eq := by simp [Value.wrapped, h.cardinality_eq]
  element_eq hstrict := h.element_eq hstrict

theorem rank_le_wrap (outer inner : Cardinality) : inner.rank ≤ (outer.wrap inner).rank := by
  cases outer <;> cases inner <;> decide

/-- A value may go where the same value is expected inside something optional or repeated. -/
theorem Agrees.fitsInto_wrapped {v w w' : Value} {outer : Cardinality} (h : v.Agrees strict w)
    (h' : (v.wrapped outer).Agrees strict w') : w.FitsInto strict m w' where
  rank_le := by
    rw [h.cardinality_eq, h'.cardinality_eq]
    exact rank_le_wrap outer v.cardinality
  element hstrict := .inl (by rw [h.element_eq hstrict, h'.element_eq hstrict]; rfl)

end Value

/-! ## Growing drafts -/

namespace Term

variable {body : List Term} {nonterminals' : Array Nonterminal}

theorem contentIn_congr {bound : Nat} {t : Term} (ht : t.Below bound)
    (hkeeps : ∀ n < bound, nonterminals'[n]? = nonterminals[n]?) :
    t.contentIn nonterminals' = t.contentIn nonterminals := by
  cases t with
  | terminal t => rfl
  | nonterminal n =>
    simp only [contentIn, Array.getD_eq_getD_getElem?]
    rw [hkeeps n ht]

theorem CarriesAt.congr {bound : Nat} {i : Nat} {content : Content}
    (h : CarriesAt nonterminals body i content) (hbody : ∀ t ∈ body, t.Below bound)
    (hkeeps : ∀ n < bound, nonterminals'[n]? = nonterminals[n]?) :
    CarriesAt nonterminals' body i content := by
  obtain ⟨t, ht, hcontent⟩ := h
  refine ⟨t, ht, ?_⟩
  rw [contentIn_congr (hbody t (List.mem_of_getElem? ht)) hkeeps]
  exact hcontent

theorem CarriesAt.append {i : Nat} {content : Content}
    (h : CarriesAt nonterminals body i content) (more : List Term) :
    CarriesAt nonterminals (body ++ more) i content := by
  obtain ⟨t, ht, hcontent⟩ := h
  refine ⟨t, ?_, hcontent⟩
  rw [List.getElem?_append_left (List.getElem?_eq_some_iff.mp ht).1]
  exact ht

theorem FlowsAt.congr {bound : Nat} {i : Nat} {target : Content}
    (h : FlowsAt strict m nonterminals body i target) (hbody : ∀ t ∈ body, t.Below bound)
    (hkeeps : ∀ n < bound, nonterminals'[n]? = nonterminals[n]?) :
    FlowsAt strict m nonterminals' body i target := by
  obtain ⟨v, w, hcarries, htarget, hfits⟩ := h
  exact ⟨v, w, hcarries.congr hbody hkeeps, htarget, hfits⟩

end Term

theorem Step.Fits.congr {bound : Nat} {c : ClassId} {body : List Term} {step : Step}
    {nonterminals' : Array Nonterminal} (h : step.Fits strict m nonterminals c body)
    (hbody : ∀ t ∈ body, t.Below bound)
    (hkeeps : ∀ n < bound, nonterminals'[n]? = nonterminals[n]?) :
    step.Fits strict m nonterminals' c body := by
  cases step with
  | merge position many => exact Term.CarriesAt.congr h hbody hkeeps
  | assign field source mode =>
    obtain ⟨f, hf, howner, h⟩ := h
    refine ⟨f, hf, howner, ?_⟩
    cases source with
    | lexeme text => exact h
    | position i =>
      obtain ⟨v, hcarries, hfits⟩ := h
      exact ⟨v, hcarries.congr hbody hkeeps, hfits⟩

theorem Step.Fits.append {c : ClassId} {body : List Term} {step : Step}
    (h : step.Fits strict m nonterminals c body) (more : List Term) :
    step.Fits strict m nonterminals c (body ++ more) := by
  cases step with
  | merge position many => exact Term.CarriesAt.append h more
  | assign field source mode =>
    obtain ⟨f, hf, howner, h⟩ := h
    refine ⟨f, hf, howner, ?_⟩
    cases source with
    | lexeme text => exact h
    | position i =>
      obtain ⟨v, hcarries, hfits⟩ := h
      exact ⟨v, hcarries.append more, hfits⟩

/-- A production that fits goes on to fit while its nonterminals stay. -/
theorem Production.Fits.congr {bound : Nat} {p : Production}
    {nonterminals' : Array Nonterminal} (h : p.Fits strict m nonterminals) (hlhs : p.lhs < bound)
    (hbody : ∀ t ∈ p.body, t.Below bound)
    (hkeeps : ∀ n < bound, nonterminals'[n]? = nonterminals[n]?) :
    p.Fits strict m nonterminals' := by
  have htarget : nonterminals'.getD p.lhs default = nonterminals.getD p.lhs default := by
    rw [Array.getD_eq_getD_getElem?, Array.getD_eq_getD_getElem?, hkeeps p.lhs hlhs]
  unfold Production.Fits at h ⊢
  rw [htarget]
  cases haction : p.action with
  | nothing | absent | emptyList =>
    simp only [haction] at h ⊢
    exact h
  | forward i | accept i =>
    simp only [haction] at h ⊢
    exact h.congr hbody hkeeps
  | prepend item list =>
    simp only [haction] at h ⊢
    exact ⟨h.1, h.2.1.congr hbody hkeeps, h.2.2.congr hbody hkeeps⟩
  | singleton item =>
    simp only [haction] at h ⊢
    exact ⟨h.1, h.2.congr hbody hkeeps⟩
  | construct c steps =>
    simp only [haction] at h ⊢
    exact ⟨h.1, fun step hstep => (h.2 step hstep).congr hbody hkeeps⟩
  | choose c index payload =>
    simp only [haction] at h ⊢
    obtain ⟨model, variant, hmodel, hvariant, hfits⟩ := h
    refine ⟨model, variant, hmodel, hvariant, ?_⟩
    unfold Variant.Fits at hfits ⊢
    cases hpayload : variant.payload <;> cases payload <;> simp only [hpayload] at hfits ⊢
    obtain ⟨f, hf, hflows⟩ := hfits
    exact ⟨f, hf, hflows.congr hbody hkeeps⟩

/-- Work on a production set that only adds productions that fit, and leaves no new nonterminal
without a production. -/
structure ProductionDraft.Completes (strict : Prop) (m : GrammarModel) (count : Nat)
    (d d' : ProductionDraft) : Prop extends Grows d d' where
  inScope : d.Scoped count → d'.Scoped count
  fits : d.Scoped count → ∀ p ∈ d'.productions,
    p ∈ d.productions ∨ p.Fits strict m d'.nonterminals
  productive : ∀ n, d.nonterminals.size ≤ n → n < d'.nonterminals.size →
    ∃ p ∈ d'.productions, p.lhs = n

namespace ProductionDraft

variable {count : Nat} {d d₁ d₂ : ProductionDraft}

theorem Grows.fits (h : d.Grows d₁) (hscoped : d.Scoped count) {p : Production}
    (hp : p ∈ d.productions) (hfits : p.Fits strict m d.nonterminals) :
    p.Fits strict m d₁.nonterminals :=
  hfits.congr (hscoped.lhs_lt p hp) (hscoped.below p hp) h.keeps_nonterminal

theorem Grows.contentIn_eq (h : d.Grows d₁) {t : Term} (ht : t.Below d.nonterminals.size) :
    t.contentIn d₁.nonterminals = t.contentIn d.nonterminals :=
  Term.contentIn_congr ht h.keeps_nonterminal

theorem Grows.content_eq (h : d.Grows d₁) {n : NonterminalId} (hn : n < d.nonterminals.size) :
    (d₁.nonterminals.getD n default).content = (d.nonterminals.getD n default).content :=
  h.contentIn_eq (t := .nonterminal n) hn

namespace Completes

theorem refl (d : ProductionDraft) : d.Completes strict m count d where
  toGrows := .refl d
  inScope h := h
  fits _ _ hp := .inl hp
  productive _ hle hlt := absurd hlt (Nat.not_lt.mpr hle)

theorem trans (h : d.Completes strict m count d₁) (h' : d₁.Completes strict m count d₂) :
    d.Completes strict m count d₂ where
  toGrows := h.toGrows.trans h'.toGrows
  inScope hscoped := h'.inScope (h.inScope hscoped)
  fits hscoped p hp := by
    have hscoped₁ := h.inScope hscoped
    rcases h'.fits hscoped₁ p hp with hp₁ | hfits
    · rcases h.fits hscoped p hp₁ with hp₀ | hfits
      · exact .inl hp₀
      · exact .inr (h'.toGrows.fits hscoped₁ hp₁ hfits)
    · exact .inr hfits
  productive n hle hlt := by
    by_cases hn : n < d₁.nonterminals.size
    · obtain ⟨p, hp, hlhs⟩ := h.productive n hle hn
      exact ⟨p, h'.keeps p hp, hlhs⟩
    · exact h'.productive n (Nat.not_lt.mp hn) hlt

/-- Productions that fit may be added. -/
theorem ofProduces {added : List Production} (h : d.Produces d₁ added)
    (hlhs : ∀ p ∈ added, p.lhs < d.nonterminals.size)
    (hbody : ∀ p ∈ added, ∀ t ∈ p.body, t.Below d.nonterminals.size)
    (hfits : ∀ p ∈ added, p.Fits strict m d.nonterminals) : d.Completes strict m count d₁ where
  toGrows := h.grows
  inScope hscoped := h.inScope hscoped hlhs hbody
  fits _ p hp := by
    rw [h.nonterminals_eq]
    exact (h.mem_iff.mp hp).imp_right (hfits p)
  productive n hle hlt := by
    rw [h.nonterminals_eq] at hlt
    exact absurd hlt (Nat.not_lt.mpr hle)

/-- A new nonterminal may be declared if it gets a production. -/
theorem ofDeclares {n : NonterminalId} {content : Content} {origin : NonterminalOrigin}
    (h : d.Declares d₁ n content origin) (h' : d₁.Completes strict m count d₂)
    (hproduction : ∃ p ∈ d₂.productions, p.lhs = n) : d.Completes strict m count d₂ where
  toGrows := h.grows.trans h'.toGrows
  inScope hscoped := h'.inScope (h.inScope hscoped)
  fits hscoped p hp := by
    rw [← h.productions_eq]
    exact h'.fits (h.inScope hscoped) p hp
  productive k hle hlt := by
    by_cases hk : k = n
    · subst hk
      exact hproduction
    · refine h'.productive k ?_ hlt
      rw [h.size_eq]
      exact Nat.lt_of_le_of_ne hle fun heq => hk (heq.symm.trans h.index_eq.symm)

end Completes
end ProductionDraft
end AnnotatedGrammar
