import Mathlib
import AnnotatedGrammar.Proofs.Lowering.Progress

/-!
# The lowering never gives up

Each function of the lowering, applied to what the analysis has settled, succeeds. The statements
follow the functions: one for terms of elements, one for rows of terms, one for productions of a
nonterminal and one for parts of an instance.
-/

namespace AnnotatedGrammar.Lowering

open ProductionDraft Settled

variable {strict : Prop} {sc : LoweringScope} {d : ProductionDraft}

/-- The content carries the value, if there is one. -/
def CarriesValue (strict : Prop) (v : Option Value) (content : Content) : Prop :=
  ∀ u, v = some u → content.Carries strict u

theorem carriesValue_ofValue? {v value : Option Value}
    (h : Option.Rel (Value.Agrees strict) v value) :
    CarriesValue strict v (.ofValue? value) := by
  rintro u rfl
  exact Content.carries_ofValue? h

section

variable (strict sc)

/-- A term for an element carries its value. A literal carries none: what fills a field is its
text. -/
def ElementGives (e : Expr) (kind : SynthesizedKind) : Prop :=
  ∀ allowed v, Element strict sc.model allowed e v → e.Regular strict sc.model →
    GivesTerm strict sc.model (elementTerm sc e kind) fun content =>
      (allowed = true → e.literalText? = none) → CarriesValue strict v content

/-- A term for a shape carries its value. -/
def ShapeGives (e : Expr) (value : Option Value) (kind : SynthesizedKind) : Prop :=
  ∀ v, Shape strict sc.model e v → Option.Rel (Value.Agrees strict) v value →
    e.Regular strict sc.model →
      GivesTerm strict sc.model (shapeTerm sc e value kind) fun content =>
        (e.hasMarker .field = true → e.literalText? = none) → CarriesValue strict v content

/-- A term for a quantified element carries its value. -/
def QuantifiedGives (e : Expr) (quantifier : Quantifier) (body : Expr) (value : Option Value) :
    Prop :=
  ∀ v, Element strict sc.model false body v →
    Option.Rel (Value.Agrees strict) (v.map (·.wrapped quantifier.cardinality)) value →
      body.Regular strict sc.model →
        GivesTerm strict sc.model (quantifiedTerm sc e quantifier body value) (· = .ofValue? value)

/-- The terms of an element, inlined, and the position of its value. -/
def RowGives (e : Expr) (terms : Array Term) (x : Lowering (Array Term × Option Nat)) : Prop :=
  ∀ v, Element strict sc.model false e v → e.Regular strict sc.model →
    GivesRow strict sc.model x (terms, none) none v

/-- The terms of elements in a row, of which one may have a value. -/
def RowsGive (items : List Expr) (before : Array Term × Option Nat) : Prop :=
  ∀ vs known v, Elements strict sc.model items vs →
    known.toList ++ vs.filterMap (fun v => v) = v.toList →
      (∀ e ∈ items, e.Regular strict sc.model) →
        GivesRow strict sc.model (flattenAll sc items before) before known v

/-- Productions without a value for alternatives that have none. -/
def FlatGives (lhs : NonterminalId) (branches : List Expr) : Prop :=
  ∀ vs, Elements strict sc.model branches vs → (∀ e ∈ branches, e.Regular strict sc.model) →
    GivesProductions strict sc.model (flatBranches sc lhs branches) lhs (· = .nothing)
      (branches ≠ [])

/-- The productions of a class with settled alternatives. -/
def ChoiceGives (lhs : NonterminalId) (c : ClassId) (e : Expr) : Prop :=
  ∀ info branches, e = .alternation info branches → Choice strict sc.model c branches →
    e.Regular strict sc.model →
      GivesProductions strict sc.model (alternativeProductions sc lhs c e) lhs
        (Content.Accepts strict sc.model c) True

/-- The productions of variants from an index on. -/
def VariantsGive (lhs : NonterminalId) (c : ClassId) (index : Nat) (branches : List Expr)
    (variants : List Variant) : Prop :=
  ∀ model vs, sc.model.class? c = some model →
    (∀ i, variants[i]? = model.variants[index + i]?) →
      VariantsOf strict sc.model variants branches vs → Elements strict sc.model branches vs →
        (∀ e ∈ branches, e.Regular strict sc.model) →
          GivesProductions strict sc.model (variantProductions sc lhs c index branches variants)
            lhs (fun _ => True) (branches ≠ [])

/-- The productions of the alternatives under a base. -/
def BaseGives (lhs : NonterminalId) (branches : List Expr) : Prop :=
  ∀ base, BaseBranches strict sc.model base branches →
    (∀ e ∈ branches, e.Regular strict sc.model) →
      GivesProductions strict sc.model (baseProductions sc lhs branches) lhs
        (Content.Accepts strict sc.model base) (branches ≠ [])

/-- A part of an instance. -/
def ContentGives (c : ClassId) (e : Expr) (isBearer : Bool) (a : Assembly) : Prop :=
  Settled.Content strict sc.model c e isBearer → e.Regular strict sc.model →
    HasKind sc.model c .concrete →
      GivesParts strict sc.model (construct sc c e isBearer a) c a

/-- A quantified part of an instance, of which the operand is `body`. -/
def FragmentGives (c : ClassId) (e : Expr) (quantifier : Quantifier) (body : Expr) : Prop :=
  Settled.Content strict sc.model c body false →
    ¬(Expr.optional default body).isSimpleChain = true →
    body.Regular strict sc.model → HasKind sc.model c .concrete →
      ∀ ⦃d⦄, sc.model.Ready d → Succeeds (fragmentTerm sc c e quantifier body) d fun result d' =>
        d.Completes strict sc.model sc.model.rules.size d' ∧
          result.1.Below d'.nonterminals.size ∧
            result.1.contentIn d'.nonterminals = .fragment c result.2

/-- The one term of an expression as a part of an instance. -/
def UnitGives (c : ClassId) (e : Expr) (isBearer : Bool) (a : Assembly) : Prop :=
  ∀ v, (isBearer = false → Element strict sc.model true e v) →
    (isBearer = true → Shape strict sc.model e v) → FillsWith strict sc.model c e v →
      e.Regular strict sc.model →
        GivesParts strict sc.model (constructElement sc c e isBearer a) c a

/-- The productions of an expression that carries a class. -/
def BearerGives (lhs : NonterminalId) (c : ClassId) (bearer : Expr) : Prop :=
  Bearer strict sc.model bearer c → bearer.Regular strict sc.model →
    GivesProductions strict sc.model (bearerProductions sc lhs c bearer) lhs
      (Content.Accepts strict sc.model c) True

/-- The productions of the whole content of a class. -/
def BodyGives (lhs : NonterminalId) (c : ClassId) (content : Expr) (isBearer : Bool) : Prop :=
  Body strict sc.model c content isBearer → content.Regular strict sc.model →
    HasKind sc.model c .concrete →
      GivesProductions strict sc.model (classProductions sc lhs c content isBearer) lhs
        (fun _ => True) True

end

/-! ## Rows -/

theorem Row.ofTerms {terms : Array Term} (h : ∀ t ∈ terms.toList, t.Below d.nonterminals.size) :
    Row strict d.nonterminals (terms, none) none :=
  ⟨h, .none⟩

/-- A row after another one, where at most one of them has a value. -/
theorem Row.combine {d' : ProductionDraft} {before row : Array Term × Option Nat}
    {known v : Option Value} (hbefore : Row strict d.nonterminals before known)
    (hgrows : d.Grows d') (hextends : before.1.toList <+: row.1.toList)
    (hrow : Row strict d'.nonterminals row v) (hone : known = none ∨ v = none) :
    (before.2 = none ∨ row.2 = none) ∧
      Row strict d'.nonterminals (row.1, before.2 <|> row.2) (known <|> v) := by
  have hknown := hbefore.locates.grows hbefore.below hgrows hextends
  obtain ⟨hbelow, hlocates⟩ := hrow
  rcases hone with rfl | rfl
  · have hnone : before.2 = none := by
      have hposition := hbefore.locates
      generalize before.2 = position at hposition ⊢
      cases hposition
      rfl
    refine ⟨.inl hnone, hbelow, ?_⟩
    rw [hnone]
    simpa using hlocates
  · have hnone : row.2 = none := by
      generalize row.2 = position at hlocates ⊢
      cases hlocates
      rfl
    refine ⟨.inr hnone, hbelow, ?_⟩
    rw [hnone]
    simpa using hknown

/-! ## Single functions -/

variable {e body : Expr} {kind : SynthesizedKind} {quantifier : Quantifier}

theorem bearerClass_eq {c : ClassId} (h : Bearer strict sc.model e c) :
    bearerClass sc e = pure c := by
  have hclass : sc.model.nodeClasses.get? e.id = some c := by
    cases h <;> assumption
  unfold bearerClass
  rw [hclass]

theorem exists_of_choice {c : ClassId} {branches : List Expr}
    (h : Choice strict sc.model c branches) : ∃ model, sc.model.class? c = some model := by
  cases h with
  | base hkind =>
    obtain ⟨model, hmodel, -⟩ := hkind
    exact ⟨model, hmodel⟩
  | tagged hmodel => exact ⟨_, hmodel⟩

theorem element_gives_bearing
    (hproductions : ∀ c n, BearerGives strict sc n c e) {c : ClassId}
    (hbearer : Bearer strict sc.model e c) (hregular : e.Regular strict sc.model) :
    GivesTerm strict sc.model (do
      let c ← bearerClass sc e
      let n ← synthesize sc e .group (.value (Value.ofClass c))
      bearerProductions sc n c e
      return .nonterminal n) fun content => content = .value (.ofClass c) := by
  rw [bearerClass_eq hbearer, pure_bind]
  refine GivesTerm.ofNew fun n => ?_
  have h : GivesProductions strict sc.model (bearerProductions sc n c e) n
      (· = .value (.ofClass c)) True := fun d hready hn hcontent =>
    hproductions c n hbearer hregular hready hn ⟨_, hcontent, .refl _⟩
  exact h.fillsNew trivial

theorem quantified_gives {value : Option Value}
    (hatom : ElementGives strict sc (body.absorb quantifier none).atom .item) :
    QuantifiedGives strict sc e quantifier body value := by
  intro v hbody hvalue hregular
  obtain ⟨-, w, hw⟩ := hbody.absorb quantifier none
  rw [hw.wrapped_eq] at hvalue
  rw [quantifiedTerm]
  refine GivesTerm.afterWarning (GivesTerm.ofNew fun n d hready hn hcontent => ?_)
  have hitem := hatom false w hw.element (hregular.absorb quantifier none) hready
  refine hitem.bind fun item d₁ h₁ => ?_
  obtain ⟨hcompletes, hbelow, hcarries⟩ := h₁
  have hn₁ := Nat.lt_of_lt_of_le hn hcompletes.size_le
  have hcontent₁ := (hcompletes.content_eq hn).trans hcontent
  cases w with
  | none =>
    cases hvalue with
    | none =>
      have hproduce := plainAlternatives_give strict sc.model e
        (body.absorb quantifier none).quantifier hn₁
        hcontent₁ (List.forall_mem_singleton.mpr hbelow)
      exact hproduce.bind fun _ d₂ h₂ => .pure ⟨rfl, hcompletes.trans h₂.1, h₂.2⟩
  | some u =>
    cases hvalue with
    | some hagrees =>
      have hproduce := valuedAlternatives_give sc.model e hn₁ hbelow
        (hcarries (by simp) u rfl) hagrees
        hcontent₁
      exact hproduce.bind fun _ d₂ h₂ => .pure ⟨rfl, hcompletes.trans h₂.1, h₂.2⟩

/-- The operand of a fragment is put together: from the parts of the class, or from the one element
that a marked quantifier fills its field with. -/
theorem fragmentOperand_gives (howned : sc.model.FieldsOwned) {c : ClassId}
    (hatom : ElementGives strict sc (body.absorb quantifier none).atom .group)
    (hparts : ContentGives strict sc c (body.absorb quantifier none).atom false .empty)
    (hcontent : Settled.Content strict sc.model c body false)
    (hsimple : ¬(Expr.optional default body).isSimpleChain = true)
    (hregular : body.Regular strict sc.model) (hc : HasKind sc.model c .concrete) :
    GivesParts strict sc.model (fragmentOperand sc c (body.absorb quantifier none)) c .empty := by
  have hatomRegular := hregular.absorb quantifier none
  rcases hcontent.absorb hsimple quantifier with
    ⟨hcarrier, hinner⟩ | ⟨carrier, w, hcarrier, helement, hfills, hoperand, hinside⟩
  · unfold fragmentOperand
    rw [hcarrier]
    exact hparts hinner hatomRegular hc
  · unfold fragmentOperand
    rw [hcarrier]
    intro d hready ha
    refine (hatom false w helement hatomRegular hready).bind fun t d₁ h₁ => ?_
    obtain ⟨hcompletes, hbelow, hcarries⟩ := h₁
    refine (assign_succeeds howned (ha.grows hcompletes.toGrows) hbelow hfills
      (fun u hu _ => hcarries (by simp) u hu) ?_).imp fun a d₂ h₂ => ?_
    · intro hstrict hliteral f hf
      refine element_eq_keyword (hregular carrier hinside) hoperand (fun hmarker => .inl ?_) hfills
        hstrict hliteral hf
      obtain ⟨info, text, hatomEq⟩ := exists_literal hliteral
      rw [hatomEq] at helement hmarker
      cases helement with
      | skipped => rfl
      | bearing _ hmarker' => exact absurd hmarker' hmarker
      | shaped _ _ hallowed _ hshape =>
        cases hshape with
        | literal => rfl
        | fieldLiteral hfield =>
          rw [hallowed rfl .field (by decide)] at hfield
          cases hfield
    · obtain ⟨rfl, ha'⟩ := h₂
      exact ⟨hcompletes, ha'⟩

theorem fragment_gives (howned : sc.model.FieldsOwned) {c : ClassId}
    (hatom : ElementGives strict sc (body.absorb quantifier none).atom .group)
    (hparts : ContentGives strict sc c (body.absorb quantifier none).atom false .empty) :
    FragmentGives strict sc c e quantifier body := by
  intro hcontent hsimple hregular hc d hready
  rw [fragmentTerm_eq]
  refine (warnNested_succeeds sc e _ d).bind fun _ d₁ hwarn => ?_
  refine (synthesize_succeeds sc e _ _ d₁).bind fun n d₂ hn => ?_
  have hcompletes₁ : d.Completes strict sc.model sc.model.rules.size d₁ :=
    .ofProduces hwarn (by simp) (by simp) (by simp)
  have hready₂ := (hready.completes hcompletes₁).declares hn
  have hoperand := fragmentOperand_gives howned hatom hparts hcontent hsimple hregular hc
  refine (hoperand hready₂ Assembly.fits_empty).bind fun a d₃ h₃ => ?_
  obtain ⟨hcompletes₃, ha⟩ := h₃
  have hn₃ := Nat.lt_of_lt_of_le hn.lt_size hcompletes₃.size_le
  have hcontent₃ := (hcompletes₃.content_eq hn.lt_size).trans hn.content_eq
  refine (fragmentProductions_give e hc hn₃ hcontent₃ ha).bind fun _ d₄ h₄ => .pure ?_
  obtain ⟨hcompletes₄, hproduction⟩ := h₄
  refine ⟨hcompletes₁.trans (.ofDeclares hn (hcompletes₃.trans hcompletes₄) hproduction),
    Nat.lt_of_lt_of_le hn₃ hcompletes₄.size_le, ?_⟩
  exact (hcompletes₄.content_eq hn₃).trans hcontent₃

/-- The one term of an expression fills the field of the expression, if there is one. -/
theorem assign_gives (howned : sc.model.FieldsOwned) {c : ClassId} {x : Lowering Term}
    {v : Option Value} (a : Assembly)
    (hx : GivesTerm strict sc.model x fun content =>
      e.literalText? = none → CarriesValue strict v content)
    (hregular : e.IsRegular strict sc.model)
    (hvalue : ¬e.hasMarker .classOf = true → v = none ∨ Shape strict sc.model e v)
    (hfills : FillsWith strict sc.model c e v) :
    GivesParts strict sc.model (x >>= fun t => assign sc c e e t a) c a := by
  intro d hready ha
  refine (hx hready).bind fun t d₁ h₁ => ?_
  obtain ⟨hcompletes, hbelow, hcarries⟩ := h₁
  have hassign := assign_succeeds howned (ha.grows hcompletes.toGrows) hbelow hfills
    (fun u hu he => hcarries he u hu) fun hstrict hliteral f hf =>
      element_eq_keyword hregular (by
        obtain ⟨info, text, rfl⟩ := exists_literal hliteral
        rfl) hvalue hfills hstrict hliteral hf
  refine hassign.imp fun a' d₂ h₂ => ?_
  obtain ⟨rfl, ha'⟩ := h₂
  exact ⟨hcompletes, ha'⟩

/-- A production that builds an instance. -/
theorem GivesParts.produce {x : Lowering Assembly} {c : ClassId}
    (hx : GivesParts strict sc.model x c .empty) (hc : HasKind sc.model c .concrete)
    (lhs : NonterminalId) (node : Option NodeId) :
    GivesProductions strict sc.model (do
      let a ← x
      produce lhs a.terms (a.construct c) node) lhs (fun _ => True) True := by
  intro d hready hlhs _
  refine (hx hready Assembly.fits_empty).bind fun a d₁ h₁ => ?_
  obtain ⟨hcompletes, ha⟩ := h₁
  exact (produce_gives (Nat.lt_of_lt_of_le hlhs hcompletes.size_le) ha.below
    (ha.production hc lhs node)).imp fun _ _ h₂ => ⟨hcompletes.trans h₂.1, fun _ => h₂.2⟩

/-- A row of elements, from its first element on. -/
theorem flattenAll_cons_gives {e : Expr} {rest : List Expr} {before : Array Term × Option Nat}
    {known v u : Option Value} {vs : List (Option Value)}
    (he : RowGives strict sc e before.1 (flatten sc e before.1))
    (hrest : ∀ terms found position, RowsGive strict sc rest (terms, found <|> position))
    (hfirst : Element strict sc.model false e u) (hlater : Elements strict sc.model rest vs)
    (hone : known.toList ++ (u :: vs).filterMap (fun v => v) = v.toList)
    (hregular : ∀ e' ∈ e :: rest, e'.Regular strict sc.model) :
    GivesRow strict sc.model (do
      let (terms, position) ← flatten sc e before.1
      match before.2, position with
      | some _, some _ => fail .twoValues e.span
      | found, position => flattenAll sc rest (terms, found <|> position)) before known v := by
  intro d hready hbefore
  have hrow := he u hfirst (hregular e List.mem_cons_self) hready (Row.ofTerms hbefore.below)
  refine hrow.bind fun result d₁ h₁ => ?_
  obtain ⟨terms, position⟩ := result
  obtain ⟨hcompletes, hextends, hterms⟩ := h₁
  have hlength : known.toList.length + u.toList.length ≤ 1 := by
    have htotal := congrArg List.length hone
    have hv : v.toList.length ≤ 1 := by cases v <;> simp
    have hcons : ((u :: vs).filterMap fun v => v).length =
        u.toList.length + (vs.filterMap fun v => v).length := by
      cases u <;> simp [Nat.add_comm]
    rw [List.length_append, hcons] at htotal
    omega
  have hnone : known = none ∨ u = none := by
    cases known <;> cases u <;> simp_all
  obtain ⟨hposition, hboth⟩ := hbefore.combine hcompletes.toGrows hextends hterms hnone
  have honeRest : (known <|> u).toList ++ vs.filterMap (fun v => v) = v.toList := by
    rw [← hone]
    rcases hnone with rfl | rfl
    · cases u <;> simp
    · cases known <;> simp
  have hback := hrest terms before.2 position vs (known <|> u) v hlater honeRest
    (fun e' h => hregular e' (List.mem_cons_of_mem _ h)) (hready.completes hcompletes) hboth
  have hgoal : Succeeds (flattenAll sc rest (terms, before.2 <|> position)) d₁ fun row d' =>
      d.Completes strict sc.model sc.model.rules.size d' ∧
        before.1.toList <+: row.1.toList ∧ Row strict d'.nonterminals row v :=
    hback.imp fun row d₂ h₂ => ⟨hcompletes.trans h₂.1, hextends.trans h₂.2.1, h₂.2.2⟩
  rcases before with ⟨first, _ | i⟩
  · exact hgoal
  · obtain rfl : position = none := by simpa using hposition
    exact hgoal

/-! ## All functions -/

theorem valued_gives (hnames : sc.model.symbols.NamesBelow sc.model.rules.size)
    (howned : sc.model.FieldsOwned) :
    (∀ e kind, ElementGives strict sc e kind) ∧
      (∀ e value kind, ShapeGives strict sc e value kind) ∧
      (∀ e quantifier body value, QuantifiedGives strict sc e quantifier body value) ∧
      (∀ lhs branches, FlatGives strict sc lhs branches) ∧
      (∀ e terms, RowGives strict sc e terms (flatten sc e terms)) ∧
      (∀ items before, RowsGive strict sc items before) ∧
      (∀ e terms, RowGives strict sc e terms (flatElement sc e terms)) ∧
      (∀ lhs c e, ChoiceGives strict sc lhs c e) ∧
      (∀ lhs c index branches variants, VariantsGive strict sc lhs c index branches variants) ∧
      (∀ lhs branches, BaseGives strict sc lhs branches) ∧
      (∀ c e isBearer a, ContentGives strict sc c e isBearer a) ∧
      (∀ c e quantifier body a, Settled.Content strict sc.model c body false →
        ¬(Expr.optional default body).isSimpleChain = true → body.Regular strict sc.model →
          HasKind sc.model c .concrete →
            GivesParts strict sc.model (constructQuantified sc c e quantifier body a) c a) ∧
      (∀ c e quantifier body, FragmentGives strict sc c e quantifier body) ∧
      (∀ c e isBearer a, UnitGives strict sc c e isBearer a) ∧
      (∀ c items a, Contents strict sc.model c items → (∀ e ∈ items, e.Regular strict sc.model) →
        HasKind sc.model c .concrete →
          GivesParts strict sc.model (constructAll sc c items a) c a) ∧
      (∀ lhs c bearer, BearerGives strict sc lhs c bearer) ∧
      (∀ lhs c content isBearer, BodyGives strict sc lhs c content isBearer) ∧
      ∀ lhs c branches, Contents strict sc.model c branches →
        (∀ e ∈ branches, e.Regular strict sc.model) → HasKind sc.model c .concrete →
          GivesProductions strict sc.model (constructBranches sc lhs c branches) lhs
            (fun _ => True) (branches ≠ []) := by
  have hplain := plain_gives strict hnames
  apply elementTerm.mutual_induct sc
  case case1 =>
    intro e kind hskip allowed v h hregular
    rw [elementTerm, if_pos hskip]
    cases h with
    | skipped =>
      refine (hplain.1 e hregular).weaken fun content _ _ u hu => ?_
      cases hu
    | bearing hskip' => exact absurd hskip hskip'
    | shaped hskip' => exact absurd hskip hskip'
  case case2 =>
    intro e kind hskip hmarker hproductions allowed v h hregular
    rw [elementTerm, if_neg hskip, if_pos hmarker]
    cases h with
    | skipped hskip' => exact absurd hskip' hskip
    | bearing _ _ _ _ hbearer =>
      refine (element_gives_bearing hproductions hbearer hregular).weaken ?_
      rintro content rfl - u hu
      cases hu
      exact ⟨_, rfl, .refl _⟩
    | shaped _ hmarker' => exact absurd hmarker hmarker'
  case case3 =>
    intro e kind hskip hmarker hshape allowed v h hregular
    rw [elementTerm, if_neg hskip, if_neg hmarker]
    cases h with
    | skipped hskip' => exact absurd hskip' hskip
    | bearing _ hmarker' => exact absurd hmarker' hmarker
    | shaped _ _ hallowed hrecorded hvalue =>
      refine (hshape v hvalue hrecorded.valueOf? hregular).weaken ?_
      intro content hcarries hliteral
      refine hcarries fun hfield => ?_
      cases allowed with
      | true => exact hliteral rfl
      | false =>
        rw [hallowed rfl .field (by decide)] at hfield
        cases hfield
  case case4 =>
    intro value kind info t v h hvalue hregular d hready
    rw [shapeTerm]
    refine .pure ⟨.refl d, trivial, fun hliteral => ?_⟩
    cases h with
    | fieldLiteral hmarker => cases hliteral hmarker
    | literal =>
      intro u hu
      cases hu
    | pattern =>
      intro u hu
      cases hu
      exact ⟨_, rfl, .refl _⟩
  case case5 =>
    intro value kind info name v h hvalue hregular
    rw [shapeTerm]
    cases h with
    | reference =>
      refine (leafTerm_gives hnames (hregular.self.resolves info name rfl)).weaken ?_
      rintro content rfl - u hu
      rw [hu]
      exact ⟨_, rfl, .refl _⟩
  case case6 =>
    intro value kind info body hbody v h hvalue hregular
    rw [shapeTerm]
    cases h with
    | group helement =>
      exact (hbody false v helement hregular.ofGroup).weaken fun content hcarries _ =>
        hcarries (by simp)
  case case7 =>
    intro value kind info items hitems v h hvalue hregular
    rw [shapeTerm]
    cases h with
    | sequence helements hone =>
      refine (GivesTerm.ofNew fun n d hready hn hcontent => ?_).weaken ?_
      · have hrow := hitems _ none v helements hone hregular.ofSequence
        have hforward := hrow.forward hvalue (.sequence info items) n info.id
        simpa only [bind_assoc] using hforward.fillsNew trivial hready hn hcontent
      · rintro content rfl -
        exact carriesValue_ofValue? hvalue
  case case8 =>
    intro value kind info branches hclass hflat v h hvalue hregular
    rw [shapeTerm]
    have hbranches := hregular.self.hasBranches info branches rfl
    refine (GivesTerm.ofNew fun n => ?_).weaken ?_
    · cases h with
      | alternation helements hnone hc =>
        rw [hc]
        cases hvalue with
        | none => exact (hflat n _ helements hregular.ofAlternation).fillsNew hbranches
      | choice hc hchoice =>
        rw [hc]
        intro d hready hn hcontent
        have htarget : Content.Carries strict (.ofClass _)
            (d.nonterminals.getD n default).content :=
          hcontent ▸ Content.carries_ofValue? hvalue
        exact (hclass n _ info branches rfl hchoice hregular hready hn htarget.accepts).bind
          fun _ d₁ h₁ => .pure ⟨rfl, h₁.1, h₁.2 trivial⟩
    · rintro content rfl -
      exact carriesValue_ofValue? hvalue
  case case9 =>
    intro value kind info body hbody v h hvalue hregular
    rw [shapeTerm]
    cases h with
    | optional helement =>
      refine (hbody _ helement hvalue hregular.ofOptional).weaken ?_
      rintro content rfl -
      exact carriesValue_ofValue? hvalue
  case case10 =>
    intro value kind info body repetition hbody v h hvalue hregular
    rw [shapeTerm]
    cases h with
    | repeated helement =>
      rw [← Quantifier.cardinality_ofRepetition repetition] at hvalue ⊢
      refine (hbody _ helement hvalue hregular.ofRepeated).weaken ?_
      rintro content rfl -
      exact carriesValue_ofValue? hvalue
  case case11 =>
    intro e quantifier body value found hatom
    exact quantified_gives hatom
  case case12 =>
    intro lhs vs helements hregular
    rw [flatBranches]
    exact .nil (by simp)
  case case13 =>
    intro lhs branch rest hbranch hrest vs helements hregular
    rw [flatBranches]
    cases helements with
    | cons hfirst hlater =>
      have hrow := hbranch _ hfirst (hregular branch List.mem_cons_self)
      have hfirstGives := hrow.produceNothing lhs branch.id
      have hrestGives := hrest _ hlater fun e h => hregular e (List.mem_cons_of_mem _ h)
      simpa only [bind_assoc] using hfirstGives.andThen hrestGives _
  case case14 =>
    intro terms info body hunmarked hbody v h hregular
    rw [flatten, if_pos hunmarked]
    cases h.ofUnmarked hunmarked with
    | group helement => exact hbody v helement hregular.ofGroup
  case case15 =>
    intro terms info body hunmarked helement v h hregular
    rw [flatten, if_neg hunmarked]
    exact helement v h hregular
  case case16 =>
    intro terms info items hunmarked hitems v h hregular
    rw [flatten, if_pos hunmarked]
    cases h.ofUnmarked hunmarked with
    | sequence helements hone => exact hitems _ none v helements hone hregular.ofSequence
  case case17 =>
    intro terms info items hunmarked helement v h hregular
    rw [flatten, if_neg hunmarked]
    exact helement v h hregular
  case case18 =>
    intro terms e hgroup hsequence helement v h hregular
    rw [flatten.eq_def]
    split
    · exact absurd rfl (hgroup _ _)
    · exact absurd rfl (hsequence _ _)
    · exact helement v h hregular
  case case19 =>
    intro before vs known v helements hone hregular d hready hbefore
    rw [flattenAll]
    cases helements with
    | nil =>
      obtain rfl : known = v := by
        cases known <;> cases v <;> simp_all
      exact .pure ⟨.refl d, List.prefix_rfl, hbefore⟩
  case case20 =>
    intro before e rest he hrest vs known v helements hone hregular d hready hbefore
    rw [flattenAll]
    cases helements with
    | cons hfirst hlater =>
      exact flattenAll_cons_gives he hrest hfirst hlater hone hregular hready hbefore
  case case21 =>
    intro e terms he v h hregular d hready hbefore
    rw [flatElement]
    refine (he false v h hregular hready).bind fun t d₁ h₁ => .pure ?_
    obtain ⟨hcompletes, hbelow, hcarries⟩ := h₁
    have hrow := hbefore.push hcompletes.toGrows hbelow (hcarries (by simp))
    have hsome : (sc.model.valueOf? e).isSome = v.isSome := by
      have hvalue := h.valueOf?
      generalize sc.model.valueOf? e = w at hvalue ⊢
      cases hvalue <;> rfl
    rw [hsome]
    exact ⟨hcompletes, by simp, hrow⟩
  case case22 =>
    intro lhs c info branches id name sourceName base fields variants key origin span hc hbase
      info' branches' heq hchoice hregular
    cases heq
    rcases choice_cases hchoice hc with ⟨-, hbranches⟩ | ⟨hkind, -⟩
    · rw [alternativeProductions_abstract ⟨_, hc, rfl⟩]
      exact (hbase c hbranches hregular.ofAlternation).ofSome
        (hregular.self.hasBranches info branches rfl)
    · cases hkind
  case case23 =>
    intro lhs c info branches id name sourceName base fields variants key origin span hc hlength
      hvariants info' branches' heq hchoice hregular
    cases heq
    rcases choice_cases hchoice hc with ⟨hkind, -⟩ | ⟨-, vs, helements, hvariantsOf⟩
    · cases hkind
    · rw [alternativeProductions_tagged hc rfl hlength]
      have hgives := hvariants _ vs hc (fun i => by rw [Nat.zero_add]) hvariantsOf helements
        hregular.ofAlternation
      exact (hgives.mono fun _ _ => trivial).ofSome (hregular.self.hasBranches info branches rfl)
  case case24 =>
    intro lhs c info branches id name sourceName base fields variants key origin span hc hlength
      info' branches' heq hchoice hregular
    cases heq
    rcases choice_cases hchoice hc with ⟨hkind, -⟩ | ⟨-, vs, -, hvariantsOf⟩
    · cases hkind
    · exact absurd (length_of_variantsOf hvariantsOf) hlength
  case case25 =>
    intro lhs c info branches id name sourceName base fields variants key origin span hc
      info' branches' heq hchoice hregular
    rcases choice_cases hchoice hc with ⟨hkind, -⟩ | ⟨hkind, -⟩ <;> cases hkind
  case case26 =>
    intro lhs c info branches hc info' branches' heq hchoice hregular
    obtain ⟨model, hmodel⟩ := exists_of_choice hchoice
    rw [hc] at hmodel
    cases hmodel
  case case27 =>
    intro lhs c e halternation info branches heq hchoice hregular
    exact absurd heq (halternation info branches)
  case case28 =>
    intro lhs c index branch rest variant later hnode model vs hmodel hlater hvariants helements
      hregular
    cases hvariants with
    | cons hfirst => exact absurd hfirst.node_eq hnode
  case case29 =>
    intro lhs c index branch rest variant later hnode hbranch hrest model vs hmodel hlater
      hvariants helements hregular
    rw [variantProductions_cons, if_neg hnode]
    cases hvariants with
    | cons hfirst hrestVariants =>
      cases helements with
      | cons helement hrestElements =>
        have hindex : model.variants[index]? = some variant := (hlater 0).symm
        have hrow := hbranch _ helement (hregular branch List.mem_cons_self)
        have hchoose := hrow.choose hfirst hmodel hindex lhs
        have hlaterGives := hrest model _ hmodel (fun i => by
          rw [Nat.add_assoc, Nat.add_comm 1 i]
          exact hlater (i + 1)) hrestVariants hrestElements
          fun e h => hregular e (List.mem_cons_of_mem _ h)
        simpa only [bind_assoc] using hchoose.andThen hlaterGives _
  case case30 =>
    intro lhs c index branches variants hcons model vs hmodel hlater hvariants helements hregular
    cases hvariants with
    | nil =>
      rw [variantProductions.eq_def]
      exact .nil (by simp)
    | cons => exact absurd rfl (hcons _ _ _ _ rfl)
  case case31 =>
    intro lhs base hbranches hregular
    rw [baseProductions]
    exact .nil (by simp)
  case case32 =>
    intro lhs branch rest hmarker hrest hbranch base hbranches hregular
    rw [baseProductions, if_pos hmarker]
    cases hbranches with
    | @bearing _ c _ _ _ hbearer hbase hlater =>
      rw [bearerClass_eq hbearer, pure_bind]
      have hfirst := hbranch c hbearer (hregular branch List.mem_cons_self).core
      have hrestGives := hrest base hlater fun e h => hregular e (List.mem_cons_of_mem _ h)
      exact (hfirst.mono fun _ h => h.ofBase hbase).andThen hrestGives _
    | referring hmarker' => exact absurd hmarker hmarker'
    | synthesized hmarker' => exact absurd hmarker hmarker'
  case case33 =>
    intro lhs branch rest hmarker c hc hrest hbranch base hbranches hregular
    rw [baseProductions, if_neg hmarker, hc]
    cases hbranches with
    | bearing hmarker' => exact absurd hmarker' hmarker
    | referring _ _ _ _ hclass =>
      rw [hc] at hclass
      cases hclass
    | synthesized _ hclass hkind hcontent hlater =>
      obtain rfl := Option.some.inj (hc.symm.trans hclass)
      have hparts := hbranch hcontent (hregular branch List.mem_cons_self) hkind
      have hfirst := hparts.produce hkind lhs branch.id
      have hrestGives := hrest base hlater fun e h => hregular e (List.mem_cons_of_mem _ h)
      simpa only [bind_assoc] using (hfirst.mono fun _ _ => trivial).andThen hrestGives _
  case case34 =>
    intro lhs branch rest hmarker hc hrest hbranch base hbranches hregular
    rw [baseProductions, if_neg hmarker, hc]
    cases hbranches with
    | bearing hmarker' => exact absurd hmarker' hmarker
    | @referring _ c _ info name id _ _ hcore hname hvalue _ hbase hlater =>
      rw [elementTerm_of_core hcore (hcore ▸ hmarker)]
      have hcoreRegular := (hregular branch List.mem_cons_self).core.self
      have hleaf : GivesTerm strict sc.model (leafTerm sc (.reference info name) name)
          (· = .value (.ofClass c)) := by
        refine (leafTerm_gives hnames (hcoreRegular.resolves info name hcore)).weaken ?_
        rintro content rfl
        rw [GrammarModel.nameValue?, hname]
        exact congrArg Content.ofValue? hvalue
      have hfirst := forwardInstance_gives hleaf lhs branch.id
      have hrestGives := hrest base hlater fun e h => hregular e (List.mem_cons_of_mem _ h)
      simpa only [bind_assoc] using
        (hfirst.mono fun _ h => h.ofBase hbase).andThen hrestGives _
    | synthesized _ hclass =>
      rw [hc] at hclass
      cases hclass
  case case35 =>
    intro c e isBearer a hskip hcontent hregular hc d hready ha
    rw [construct.eq_def, if_pos hskip]
    refine (hplain.1 e hregular hready).bind fun t d₁ h₁ => .pure ⟨h₁.1, ?_⟩
    exact (ha.grows h₁.1.toGrows).push h₁.2.1
  case case36 =>
    intro c e isBearer a hskip hfield he hcontent hregular hc
    rw [construct.eq_def, if_neg hskip, if_pos hfield]
    cases hcontent with
    | skipped hskip' => exact absurd hskip' hskip
    | parts _ hfield' => exact absurd hfield hfield'
    | field _ _ helement hfills =>
      have hterm := he true _ helement hregular
      exact assign_gives howned a (hterm.weaken fun _ h hliteral => h fun _ => hliteral)
        hregular.self helement.shape_of_unmarked hfills
  case case37 =>
    intro c isBearer a info items hskip hfield hitems hcontent hregular hc
    rw [construct, if_neg hskip, if_neg hfield]
    cases hcontent.ofNeither hskip hfield with
    | sequence hcontents => exact hitems hcontents hregular.ofSequence hc
    | own hunit => exact hunit.elim
    | bearer hunit => exact hunit.elim
  case case38 =>
    intro c isBearer a info body hskip hfield hbody hcontent hregular hc
    rw [construct, if_neg hskip, if_neg hfield]
    cases hcontent.ofNeither hskip hfield with
    | group hinner => exact hbody hinner hregular.ofGroup hc
    | own hunit => exact hunit.elim
    | bearer hunit => exact hunit.elim
  case case39 =>
    intro c isBearer a info body hchain hskip hfield helement hcontent hregular hc
    rw [construct, if_neg hskip, if_neg hfield, if_pos hchain]
    cases hcontent.ofNeither hskip hfield with
    | own _ helement' hfills => exact helement _ (fun _ => helement') (by simp) hfills hregular
    | bearer _ hshape hfills => exact helement _ (by simp) (fun _ => hshape) hfills hregular
    | optional hchain' => exact absurd hchain hchain'
  case case40 =>
    intro c isBearer a info body hchain hskip hfield hquantified hcontent hregular hc
    rw [construct, if_neg hskip, if_neg hfield, if_neg hchain]
    cases hcontent.ofNeither hskip hfield with
    | own hunit => exact absurd hunit hchain
    | bearer hunit => exact absurd hunit hchain
    | optional _ hbody => exact hquantified hbody hchain hregular.ofOptional hc
  case case41 =>
    intro c isBearer a info body kind hchain hskip hfield helement hcontent hregular hc
    rw [construct, if_neg hskip, if_neg hfield, if_pos hchain]
    cases hcontent.ofNeither hskip hfield with
    | own _ helement' hfills => exact helement _ (fun _ => helement') (by simp) hfills hregular
    | bearer _ hshape hfills => exact helement _ (by simp) (fun _ => hshape) hfills hregular
    | repeated hchain' => exact absurd hchain hchain'
  case case42 =>
    intro c isBearer a info body kind hchain hskip hfield hquantified hcontent hregular hc
    rw [construct, if_neg hskip, if_neg hfield, if_neg hchain]
    cases hcontent.ofNeither hskip hfield with
    | own hunit => exact absurd hunit hchain
    | bearer hunit => exact absurd hunit hchain
    | repeated _ hbody => exact hquantified hbody hchain hregular.ofRepeated hc
  case case43 =>
    intro c isBearer a e hsequence hgroup hoptional hrepeated hskip hfield helement hcontent
      hregular hc
    rw [construct.eq_def, if_neg hskip, if_neg hfield]
    split
    · exact absurd rfl (hsequence _ _)
    · exact absurd rfl (hgroup _ _)
    · exact absurd rfl (hoptional _ _)
    · exact absurd rfl (hrepeated _ _ _)
    · cases hcontent.ofNeither hskip hfield with
      | own _ helement' hfills => exact helement _ (fun _ => helement') (by simp) hfills hregular
      | bearer _ hshape hfills => exact helement _ (by simp) (fun _ => hshape) hfills hregular
      | sequence => exact absurd rfl (hsequence _ _)
      | group => exact absurd rfl (hgroup _ _)
      | optional => exact absurd rfl (hoptional _ _)
      | repeated => exact absurd rfl (hrepeated _ _ _)
  case case44 =>
    intro c e quantifier body a hfills hfragment hcontent hsimple hregular hc d hready ha
    rw [constructQuantified, if_pos hfills]
    refine (hfragment hcontent hsimple hregular hc hready).bind fun result d₁ h₁ => .pure ?_
    obtain ⟨hcompletes, hbelow, hresult⟩ := h₁
    exact ⟨hcompletes, (ha.grows hcompletes.toGrows).pushFragment hbelow hresult⟩
  case case45 =>
    intro c e quantifier body a hfills hcontent hsimple hregular hc d hready ha
    rw [constructQuantified, if_neg hfills]
    refine (hplain.2.1 e quantifier body hregular hready).bind fun t d₁ h₁ => .pure ⟨h₁.1, ?_⟩
    exact (ha.grows h₁.1.toGrows).push h₁.2.1
  case case46 =>
    intro c e quantifier body found hatom hparts
    exact fragment_gives howned hatom hparts
  case case47 =>
    intro c e a hshape v helement hvalue hfills hregular
    rw [constructElement, if_pos rfl]
    have hterm := hshape v (hvalue rfl) (hvalue rfl).shapeValue? hregular
    exact assign_gives howned a (hterm.weaken fun _ h hliteral => h fun _ => hliteral)
      hregular.self (fun _ => .inr (hvalue rfl)) hfills
  case case48 =>
    intro c e isBearer a hbearer he v helement hvalue hfills hregular
    rw [constructElement, if_neg hbearer]
    have hvalue' := helement (by simpa using hbearer)
    have hterm := he true v hvalue' hregular
    exact assign_gives howned a (hterm.weaken fun _ h hliteral => h fun _ => hliteral)
      hregular.self hvalue'.shape_of_unmarked hfills
  case case49 =>
    intro c a hcontents hregular hc d hready ha
    rw [constructAll]
    exact .pure ⟨.refl d, ha⟩
  case case50 =>
    intro c a e rest he hrest hcontents hregular hc d hready ha
    rw [constructAll]
    cases hcontents with
    | cons hfirst hlater =>
      refine (he hfirst (hregular e List.mem_cons_self) hc hready ha).bind fun a₁ d₁ h₁ => ?_
      have hback := hrest a₁ hlater (fun e' h => hregular e' (List.mem_cons_of_mem _ h)) hc
        (hready.completes h₁.1) h₁.2
      exact hback.imp fun _ _ h₂ => ⟨h₁.1.trans h₂.1, h₂.2⟩
  case case51 =>
    intro lhs c bearer content isBearer hcontent habstract halternatives hbearer hregular
    rw [bearerProductions_eq, if_pos habstract, hcontent]
    cases hbearer with
    | base hclass hkind hcore hbranches =>
      rw [hcontent] at hcore
      have hcoreRegular : content.core.Regular strict sc.model := by
        have h := hregular.classContent
        rw [hcontent] at h
        exact h.core
      exact halternatives _ _ hcore (.base hkind hbranches) hcoreRegular
    | concrete hclass hkind =>
      obtain ⟨model, hmodel, hkind⟩ := hkind
      simp [hmodel, hkind] at habstract
  case case52 =>
    intro lhs c bearer content isBearer hcontent habstract hbody hbearer hregular
    rw [bearerProductions_eq, if_neg habstract, hcontent]
    cases hbearer with
    | base hclass hkind =>
      obtain ⟨model, hmodel, hkind⟩ := hkind
      simp [hmodel, hkind] at habstract
    | concrete hclass hkind hwhole =>
      rw [hcontent] at hwhole
      have hcontentRegular := hregular.classContent
      rw [hcontent] at hcontentRegular
      exact (hbody hwhole hcontentRegular hkind).mono fun _ _ => trivial
  case case53 =>
    intro lhs c content isBearer branches hbranches hconstruct hbody hregular hc
    rw [classProductions_some sc lhs c isBearer hbranches]
    cases hbody with
    | single hnone =>
      rw [hbranches] at hnone
      cases hnone
    | several hsome hcontents =>
      obtain rfl := Option.some.inj (hbranches.symm.trans hsome)
      exact (hconstruct hcontents (hregular.classAlternatives hbranches) hc).ofSome
        (hregular.alternatives_ne_nil hbranches)
  case case54 =>
    intro lhs c content isBearer hbranches hconstruct hbody hregular hc
    rw [classProductions_none sc lhs c isBearer hbranches]
    cases hbody with
    | single _ hcontent => exact (hconstruct hcontent hregular hc).produce hc lhs content.id
    | several hsome =>
      rw [hbranches] at hsome
      cases hsome
  case case55 =>
    intro lhs c hcontents hregular hc
    rw [constructBranches]
    exact .nil (by simp)
  case case56 =>
    intro lhs c branch rest hbranch hrest hcontents hregular hc
    rw [constructBranches]
    cases hcontents with
    | cons hfirst hlater =>
      have hparts := hbranch hfirst (hregular branch List.mem_cons_self) hc
      have hrestGives := hrest hlater (fun e h => hregular e (List.mem_cons_of_mem _ h)) hc
      simpa only [bind_assoc] using (hparts.produce hc lhs branch.id).andThen hrestGives _

theorem flatten_gives (hnames : sc.model.symbols.NamesBelow sc.model.rules.size)
    (howned : sc.model.FieldsOwned) (e : Expr) (terms : Array Term) :
    RowGives strict sc e terms (flatten sc e terms) :=
  (valued_gives hnames howned).2.2.2.2.1 e terms

theorem alternativeProductions_give (hnames : sc.model.symbols.NamesBelow sc.model.rules.size)
    (howned : sc.model.FieldsOwned) (lhs : NonterminalId) (c : ClassId) (e : Expr) :
    ChoiceGives strict sc lhs c e :=
  (valued_gives hnames howned).2.2.2.2.2.2.2.1 lhs c e

theorem bearerProductions_give (hnames : sc.model.symbols.NamesBelow sc.model.rules.size)
    (howned : sc.model.FieldsOwned) (lhs : NonterminalId) (c : ClassId) (bearer : Expr) :
    BearerGives strict sc lhs c bearer :=
  (valued_gives hnames howned).2.2.2.2.2.2.2.2.2.2.2.2.2.2.2.1 lhs c bearer

theorem classProductions_give (hnames : sc.model.symbols.NamesBelow sc.model.rules.size)
    (howned : sc.model.FieldsOwned) (lhs : NonterminalId) (c : ClassId) (content : Expr)
    (isBearer : Bool) : BodyGives strict sc lhs c content isBearer :=
  (valued_gives hnames howned).2.2.2.2.2.2.2.2.2.2.2.2.2.2.2.2.1 lhs c content isBearer

end AnnotatedGrammar.Lowering
