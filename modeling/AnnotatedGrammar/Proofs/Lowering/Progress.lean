import AnnotatedGrammar.Proofs.Lowering.Gives

/-!
# Lowering settled expressions

The lowering of an expression that the analysis has settled succeeds, whichever of its ways it
takes. Every production it makes fits, every new nonterminal has one, and the term for an element
carries its value.
-/

namespace AnnotatedGrammar.Lowering

open ProductionDraft Settled

variable {strict : Prop} {m : GrammarModel} {sc : LoweringScope} {d : ProductionDraft}

/-! ## Fields -/

theorem assignMode_suits {field value : Cardinality} (h : value.rank ≤ field.rank) :
    (assignMode field value).Suits field value := by
  cases field <;> cases value <;> simp_all [assignMode, AssignMode.Suits, Cardinality.rank]

theorem assign_of_none {c : ClassId} {owner e : Expr} {term : Term} {a : Assembly}
    (h : sc.model.fieldFor? c owner.id = none) :
    assign sc c owner e term a = pure (a.push term) := by
  unfold assign
  rw [h]

theorem assign_of_literal {c : ClassId} {owner : Expr} {info : NodeInfo} {text : String}
    {term : Term} {a : Assembly} {f : FieldModel}
    (h : sc.model.fieldFor? c owner.id = some f) :
    assign sc c owner (.terminal info (.literal text)) term a =
      pure ⟨a.body.push term,
        a.steps.push (.assign f.id (.lexeme text) (assignMode f.cardinality .scalar))⟩ := by
  unfold assign
  rw [h]
  rfl

theorem assign_of_value {c : ClassId} {owner e : Expr} {term : Term} {a : Assembly}
    {f : FieldModel} {w : Value} (h : sc.model.fieldFor? c owner.id = some f)
    (he : e.literalText? = none) (hw : term.contentIn d.nonterminals = .value w) :
    assign sc c owner e term a d =
      .ok ⟨a.body.push term, a.steps.push (.assign f.id (.position a.body.size)
        (assignMode f.cardinality w.cardinality))⟩ d := by
  have hcontent : contentOf term d = .ok (.value w) d := contentOf_eq_ok.mpr ⟨hw, rfl⟩
  unfold assign
  rw [h]
  cases e with
  | terminal info t =>
    cases t with
    | literal text => cases he
    | pattern p => simp [hcontent, Content.value?]
  | _ => simp [hcontent, Content.value?]

theorem exists_literal {e : Expr} (h : e.literalText?.isSome = true) :
    ∃ info text, e = .terminal info (.literal text) := by
  unfold Expr.literalText? at h
  split at h
  · exact ⟨_, _, rfl⟩
  · cases h

/-- A term with the value of an expression can be put into the field that the expression fills. -/
theorem assign_succeeds (howned : sc.model.FieldsOwned) {c : ClassId} {owner e : Expr}
    {term : Term} {a : Assembly} {v : Option Value}
    (ha : a.Fits strict sc.model d.nonterminals c) (hterm : term.Below d.nonterminals.size)
    (hfills : FillsWith strict sc.model c owner v)
    (hcarries : ∀ u, v = some u → e.literalText? = none →
      (term.contentIn d.nonterminals).Carries strict u)
    (hliteral : strict → e.literalText?.isSome = true → ∀ f,
      sc.model.fieldFor? c owner.id = some f → f.element = .primitive .keyword) :
    Succeeds (assign sc c owner e term a) d fun a' d' =>
      d' = d ∧ a'.Fits strict sc.model d.nonterminals c := by
  cases hfield : sc.model.fieldFor? c owner.id with
  | none =>
    rw [assign_of_none hfield]
    exact .pure ⟨rfl, ha.push hterm⟩
  | some f =>
    obtain ⟨hget, howner⟩ := howned.fieldFor? hfield
    obtain ⟨u, rfl, htakes⟩ := hfills f hfield
    cases htext : e.literalText? with
    | some found =>
      obtain ⟨info, text, rfl⟩ := exists_literal (e := e) (by simp [htext])
      rw [assign_of_literal hfield]
      refine .pure ⟨rfl, ha.pushStep hterm ⟨f, hget, howner, ?_, ?_⟩⟩
      · exact fun hstrict => hliteral hstrict rfl f hfield
      · exact assignMode_suits (Nat.zero_le _)
    | none =>
      obtain ⟨w, hw, hagrees⟩ := hcarries u rfl htext
      refine ⟨_, _, assign_of_value hfield htext hw, rfl, ?_⟩
      have hrank : w.cardinality.rank ≤ f.cardinality.rank := by
        rw [hagrees.cardinality_eq]
        exact htakes.rank_le
      refine ha.pushStep hterm ⟨f, hget, howner, w, ?_, ⟨hrank, fun hstrict => .inl ?_⟩,
        assignMode_suits hrank⟩
      · have hlast : Term.CarriesAt d.nonterminals (a.terms ++ [term]) a.body.size
            (term.contentIn d.nonterminals) := a.carriesAt_last term
        rw [hw] at hlast
        exact hlast
      · rw [hagrees.element_eq hstrict]
        exact (htakes.element_eq hstrict).symm

/-- A field that is filled from a literal holds texts. -/
theorem element_eq_keyword {c : ClassId} {owner e : Expr} {v : Option Value} {f : FieldModel}
    (hregular : owner.IsRegular strict m) (hatom : owner.quantifiedAtom = e)
    (hvalue : ¬e.hasMarker .classOf = true → v = none ∨ Shape strict m e v)
    (hfills : FillsWith strict m c owner v) (hstrict : strict)
    (hliteral : e.literalText?.isSome = true) (hf : m.fieldFor? c owner.id = some f) :
    f.element = .primitive .keyword := by
  obtain ⟨info, text, rfl⟩ := exists_literal hliteral
  by_cases hmarker : (Expr.terminal info (.literal text)).hasMarker .classOf = true
  · exact hregular.fillsText hstrict info text hatom (hatom ▸ hmarker) c f hf
  · obtain ⟨u, rfl, htakes⟩ := hfills f hf
    rcases hvalue hmarker with hnone | hshape
    · cases hnone
    · cases hshape
      exact htakes.element_eq hstrict

/-! ## Rows of terms -/

theorem carriesAt_of_extends {nonterminals : Array Nonterminal} {terms terms' : List Term}
    {i : Nat} {content : Content} (h : Term.CarriesAt nonterminals terms i content)
    (hextends : terms <+: terms') : Term.CarriesAt nonterminals terms' i content := by
  obtain ⟨more, rfl⟩ := hextends
  exact h.append more

theorem Locates.grows {d' : ProductionDraft} {terms terms' : Array Term} {position : Option Nat}
    {v : Option Value} (h : Locates strict d.nonterminals terms position v)
    (hbelow : ∀ t ∈ terms.toList, t.Below d.nonterminals.size) (hgrows : d.Grows d')
    (hextends : terms.toList <+: terms'.toList) :
    Locates strict d'.nonterminals terms' position v := by
  cases h with
  | none => exact .none
  | some hi =>
    obtain ⟨content, hcarries, hcontent⟩ := hi
    have hcarries' := hcarries.congr hbelow hgrows.keeps_nonterminal
    exact .some ⟨content, carriesAt_of_extends hcarries' hextends, hcontent⟩

/-- One more term, of which the value lies at its place. -/
theorem Row.push {d' : ProductionDraft} {before : Array Term × Option Nat}
    {known v : Option Value} {t : Term} (h : Row strict d.nonterminals before known)
    (hgrows : d.Grows d') (ht : t.Below d'.nonterminals.size)
    (hcarries : ∀ u, v = some u → (t.contentIn d'.nonterminals).Carries strict u) :
    Row strict d'.nonterminals (before.1.push t, if v.isSome then some before.1.size else none)
      v where
  below := by
    rw [Array.toList_push]
    refine List.forall_mem_append.mpr ⟨fun t' ht' => ?_, List.forall_mem_singleton.mpr ht⟩
    exact (h.below t' ht').mono hgrows.size_le
  locates := by
    cases v with
    | none => exact .none
    | some u => exact .some ⟨_, ⟨t, by simp, rfl⟩, hcarries u rfl⟩

variable (m) in
/-- The action that passes a value on is found, and fits. -/
theorem forwarding_succeeds {position : Option Nat} {v value : Option Value} (e : Expr)
    {terms : Array Term} {lhs : NonterminalId} (node : Option NodeId)
    (hlocates : Locates strict d.nonterminals terms position v)
    (hvalue : Option.Rel (Value.Agrees strict) v value)
    (hlhs : (d.nonterminals.getD lhs default).content = .ofValue? value) :
    Succeeds (forwarding value position e) d fun action d' =>
      d' = d ∧ (⟨lhs, terms.toList, action, node⟩ : Production).Fits strict m d.nonterminals := by
  cases hvalue with
  | none => exact .pure ⟨rfl, hlhs⟩
  | some hagrees =>
    cases hlocates with
    | some hi =>
      obtain ⟨content, hcarries, w, rfl, hw⟩ := hi
      exact .pure ⟨rfl, w, _, hcarries, hlhs, hw.fitsInto hagrees⟩

/-- A production that passes the value of a row on. -/
theorem GivesRow.forward {x : Lowering (Array Term × Option Nat)} {v value : Option Value}
    (hx : GivesRow strict m x (#[], none) none v)
    (hvalue : Option.Rel (Value.Agrees strict) v value) (e : Expr) (lhs : NonterminalId)
    (node : Option NodeId) :
    GivesProductions strict m (do
      let (terms, position) ← x
      let action ← forwarding value position e
      produce lhs terms.toList action node) lhs (· = .ofValue? value) True := by
  intro d hready hlhs hcontent
  refine (hx hready ⟨by simp, .none⟩).bind fun ⟨terms, position⟩ d₁ h₁ => ?_
  obtain ⟨hcompletes, -, hrow⟩ := h₁
  have hlhs₁ := Nat.lt_of_lt_of_le hlhs hcompletes.size_le
  have hcontent₁ := (hcompletes.content_eq hlhs).trans hcontent
  have hforwarding := forwarding_succeeds m e node hrow.locates hvalue hcontent₁
  refine hforwarding.bind fun action d₂ h₂ => ?_
  obtain ⟨rfl, hfits⟩ := h₂
  exact (produce_gives hlhs₁ hrow.below hfits).imp fun _ d₃ h₃ =>
    ⟨hcompletes.trans h₃.1, fun _ => h₃.2⟩

/-- A production without a value for a row. -/
theorem GivesRow.produceNothing {x : Lowering (Array Term × Option Nat)} {v : Option Value}
    (hx : GivesRow strict m x (#[], none) none v) (lhs : NonterminalId) (node : Option NodeId) :
    GivesProductions strict m (do
      let (terms, _) ← x
      produce lhs terms.toList .nothing node) lhs (· = .nothing) True := by
  have hterms : GivesTerms strict m ((fun row => row.1.toList) <$> x) := by
    intro d hready
    obtain ⟨row, d₁, hrow, hcompletes, -, hfits⟩ := hx hready ⟨by simp, .none⟩
    exact ⟨row.1.toList, d₁, map_eq_ok.mpr ⟨row, hrow, rfl⟩, hcompletes, hfits.below⟩
  simpa only [bind_map_left] using hterms.produceNothing lhs node

/-! ## Quantified operands -/

/-- The productions of a quantified operand fit. -/
theorem valuedAlternatives_fit {quantifier : Quantifier} {u w : Value} {item : Term}
    {alternative : List Term × Action} {lhs : NonterminalId} {node : Option NodeId}
    (hitem : (item.contentIn d.nonterminals).Carries strict u)
    (hvalue : (u.wrapped quantifier.cardinality).Agrees strict w)
    (hlhs : (d.nonterminals.getD lhs default).content = .value w)
    (h : alternative ∈ valuedAlternatives quantifier w item (.nonterminal lhs)) :
    (⟨lhs, alternative.1, alternative.2, node⟩ : Production).Fits strict m d.nonterminals := by
  obtain ⟨x, hx, hagrees⟩ := hitem
  have hfits : x.FitsInto strict m w := hagrees.fitsInto_wrapped hvalue
  have hflows (more : List Term) :
      Term.FlowsAt strict m d.nonterminals (item :: more) 0 (.value w) :=
    ⟨x, w, ⟨item, rfl, hx⟩, rfl, hfits⟩
  have hlist (hq : quantifier.cardinality = .list) :
      ProductionSet.isListContent (d.nonterminals.getD lhs default).content = true := by
    rw [hlhs]
    have hcardinality := hvalue.cardinality_eq
    rw [hq] at hcardinality
    rcases u with ⟨element, _ | _ | _⟩ <;>
      exact beq_iff_eq.mpr hcardinality
  cases quantifier with
  | optional =>
    simp only [valuedAlternatives, List.mem_cons, List.not_mem_nil, or_false] at h
    rcases h with rfl | rfl
    · show Term.FlowsAt strict m d.nonterminals [item] 0 _
      rw [hlhs]
      exact hflows []
    · by_cases hw : w.cardinality = .list
      · rw [if_pos hw]
        show ProductionSet.isListContent _ = true
        rw [hlhs]
        exact beq_iff_eq.mpr hw
      · rw [if_neg hw]
        show ProductionSet.isOptionalContent _ = true
        rw [hlhs]
        have hcardinality := hvalue.cardinality_eq
        rcases u with ⟨element, _ | _ | _⟩
        · exact beq_iff_eq.mpr hcardinality
        · exact beq_iff_eq.mpr hcardinality
        · exact absurd hcardinality hw
  | zeroOrMore =>
    simp only [valuedAlternatives, List.mem_cons, List.not_mem_nil, or_false] at h
    rcases h with rfl | rfl
    · refine ⟨hlist rfl, hlhs ▸ hflows [.nonterminal lhs], ?_⟩
      rw [hlhs]
      exact ⟨.nonterminal lhs, rfl, hlhs⟩
    · exact hlist rfl
  | oneOrMore =>
    simp only [valuedAlternatives, List.mem_cons, List.not_mem_nil, or_false] at h
    rcases h with rfl | rfl
    · refine ⟨hlist rfl, hlhs ▸ hflows [.nonterminal lhs], ?_⟩
      rw [hlhs]
      exact ⟨.nonterminal lhs, rfl, hlhs⟩
    · exact ⟨hlist rfl, hlhs ▸ hflows []⟩

variable (m) in
/-- The alternatives of a quantified operand with a value. -/
theorem valuedAlternatives_give {quantifier : Quantifier} {u w : Value} {item : Term}
    {n : NonterminalId} (e : Expr) (hn : n < d.nonterminals.size)
    (hbelow : item.Below d.nonterminals.size)
    (hitem : (item.contentIn d.nonterminals).Carries strict u)
    (hvalue : (u.wrapped quantifier.cardinality).Agrees strict w)
    (hcontent : (d.nonterminals.getD n default).content = .value w) :
    Succeeds ((valuedAlternatives quantifier w item (.nonterminal n)).forM fun alternative =>
        produce n alternative.1 alternative.2 e.id) d fun _ d' =>
      d.Completes strict m m.rules.size d' ∧ ∃ p ∈ d'.productions, p.lhs = n := by
  have hbody : ∀ a ∈ valuedAlternatives quantifier w item (.nonterminal n), ∀ t ∈ a.1,
      t.Below d.nonterminals.size := by
    intro a ha t ht
    have hterm : t = item ∨ t = .nonterminal n := by
      revert ha
      cases quantifier <;> simp only [valuedAlternatives, List.mem_cons, List.not_mem_nil,
        or_false] <;> rintro (rfl | rfl) <;> simp_all
    rcases hterm with rfl | rfl
    · exact hbelow
    · exact hn
  have hproduce := produce_forM_gives strict m
    ((valuedAlternatives quantifier w item (.nonterminal n)).map fun a =>
      ⟨n, a.1, a.2, e.id⟩)
    (List.forall_mem_map.mpr fun _ _ => rfl) hn (List.forall_mem_map.mpr hbody)
    (List.forall_mem_map.mpr fun a ha => valuedAlternatives_fit hitem hvalue hcontent ha)
    (by cases quantifier <;> simp [valuedAlternatives])
  simpa only [List.forM_eq_forM, List.forM_map] using hproduce

/-! ## Alternatives of a class -/

theorem alternativeProductions_abstract {lhs : NonterminalId} {c : ClassId} {info : NodeInfo}
    {branches : List Expr} (h : HasKind sc.model c .abstract) :
    alternativeProductions sc lhs c (.alternation info branches) =
      baseProductions sc lhs branches := by
  obtain ⟨⟨_, _, _, _, _, _, _, _, _, _⟩, hmodel, rfl⟩ := h
  rw [alternativeProductions]
  simp [hmodel]

theorem alternativeProductions_tagged {lhs : NonterminalId} {c : ClassId} {info : NodeInfo}
    {branches : List Expr} {model : ClassModel} (h : sc.model.class? c = some model)
    (hkind : model.kind = .tagged) (hlength : model.variants.length = branches.length) :
    alternativeProductions sc lhs c (.alternation info branches) =
      variantProductions sc lhs c 0 branches model.variants := by
  obtain ⟨_, _, _, _, _, _, variants, _, _, _⟩ := model
  obtain rfl := hkind
  rw [alternativeProductions]
  simp only [h]
  exact if_pos hlength

/-- The productions of a fragment. -/
theorem fragmentProductions_give {c : ClassId} {n : NonterminalId} {a : Assembly}
    {found : Collapsed} (e : Expr) (hc : HasKind m c .concrete)
    (hn : n < d.nonterminals.size)
    (hcontent : (d.nonterminals.getD n default).content = .fragment c found.quantifier.isList)
    (ha : a.Fits strict m d.nonterminals c) :
    Succeeds ((fragmentProductions n c e found a).forM fun p =>
        produce p.lhs p.body p.action p.node) d fun _ d' =>
      d.Completes strict m m.rules.size d' ∧ ∃ p ∈ d'.productions, p.lhs = n := by
  have hfinished (a : Assembly) (node : Option NodeId) (h : a.Fits strict m d.nonterminals c) :
      (∀ t ∈ a.terms, t.Below d.nonterminals.size) ∧
        (⟨n, a.terms, a.construct c, node⟩ : Production).Fits strict m d.nonterminals :=
    ⟨h.below, h.production hc n node⟩
  have hempty (node : Option NodeId) :
      (⟨n, [], .construct c [], node⟩ : Production).Fits strict m d.nonterminals :=
    (hfinished .empty node Assembly.fits_empty).2
  have hfragment : ∀ p ∈ fragmentProductions n c e found a,
      p.lhs = n ∧ (∀ t ∈ p.body, t.Below d.nonterminals.size) ∧
        p.Fits strict m d.nonterminals := by
    unfold fragmentProductions
    cases hq : found.quantifier with
    | optional =>
      rw [hq] at hcontent
      have habsent : (⟨n, [], .absent, e.id⟩ : Production).Fits strict m d.nonterminals := by
        show ProductionSet.isOptionalContent _ = true
        rw [hcontent]
        rfl
      simp only [List.forall_mem_cons, List.not_mem_nil, false_implies, implies_true, and_true,
        true_and]
      exact ⟨hfinished a _ ha, habsent⟩
    | zeroOrMore =>
      rw [hq] at hcontent
      have hrecursive : (a.pushFragment (.nonterminal n) true).Fits strict m d.nonterminals c :=
        ha.pushFragment hn hcontent
      simp only [List.forall_mem_cons, List.not_mem_nil, false_implies, implies_true, and_true,
        true_and]
      exact ⟨hfinished _ _ hrecursive, hempty _⟩
    | oneOrMore =>
      rw [hq] at hcontent
      have hrecursive : (a.pushFragment (.nonterminal n) true).Fits strict m d.nonterminals c :=
        ha.pushFragment hn hcontent
      simp only [List.forall_mem_cons, List.not_mem_nil, false_implies, implies_true, and_true,
        true_and]
      exact ⟨hfinished _ _ hrecursive, hfinished a _ ha⟩
  refine produce_forM_gives strict m _ (fun p hp => (hfragment p hp).1) hn
    (fun p hp => (hfragment p hp).2.1) (fun p hp => (hfragment p hp).2.2) ?_
  unfold fragmentProductions
  cases found.quantifier <;> simp

/-- A class that alternatives stand for is a base or has their variants. -/
theorem choice_cases {c : ClassId} {branches : List Expr} {model : ClassModel}
    (h : Choice strict m c branches) (hmodel : m.class? c = some model) :
    (model.kind = .abstract ∧ BaseBranches strict m c branches) ∨
      (model.kind = .tagged ∧ ∃ vs, Elements strict m branches vs ∧
        VariantsOf strict m model.variants branches vs) := by
  cases h with
  | base hkind hbranches =>
    obtain ⟨model', hmodel', hkind⟩ := hkind
    obtain rfl := Option.some.inj (hmodel.symm.trans hmodel')
    exact .inl ⟨hkind, hbranches⟩
  | tagged hmodel' hkind helements hvariants =>
    obtain rfl := Option.some.inj (hmodel.symm.trans hmodel')
    exact .inr ⟨hkind, _, helements, hvariants⟩

/-- The production of one variant. -/
theorem GivesRow.choose {x : Lowering (Array Term × Option Nat)} {v : Option Value}
    {variant : Variant} {branch : Expr} {c : ClassId} {model : ClassModel} {index : Nat}
    (hx : GivesRow strict m x (#[], none) none v) (hvariant : VariantOf strict m variant branch v)
    (hmodel : m.class? c = some model) (hindex : model.variants[index]? = some variant)
    (lhs : NonterminalId) :
    GivesProductions strict m (do
      let result ← x
      let payload ← variantPayload variant result.2 branch
      produce lhs result.1.toList (.choose c index payload) branch.id) lhs (fun _ => True)
        True := by
  intro d hready hlhs _
  refine (hx hready ⟨by simp, .none⟩).bind fun ⟨terms, position⟩ d₁ h₁ => ?_
  obtain ⟨hcompletes, -, hbelow, hlocates⟩ := h₁
  have hlhs₁ := Nat.lt_of_lt_of_le hlhs hcompletes.size_le
  have hpayload : Succeeds (variantPayload variant position branch) d₁ fun payload d₂ =>
      d₂ = d₁ ∧ variant.Fits strict m d₁.nonterminals terms.toList payload := by
    unfold variantPayload Variant.Fits
    cases hfield : variant.payload with
    | none => exact .pure ⟨rfl, trivial⟩
    | some id =>
      obtain ⟨f, u, hf, rfl, htakes⟩ := hvariant.withPayload id hfield
      change Locates strict d₁.nonterminals terms position (some u) at hlocates
      cases hlocates with
      | some hi =>
        obtain ⟨content, hcarries, w, rfl, hagrees⟩ := hi
        refine .pure ⟨rfl, f, hf, w, f.value, hcarries, rfl, ?_, fun hstrict => .inl ?_⟩
        · rw [hagrees.cardinality_eq]
          exact htakes.rank_le
        · rw [hagrees.element_eq hstrict]
          exact (htakes.element_eq hstrict).symm
  refine hpayload.bind fun payload d₂ h₂ => ?_
  obtain ⟨rfl, hfits⟩ := h₂
  have hchoose : (⟨lhs, terms.toList, .choose c index payload, branch.id⟩ : Production).Fits
      strict m d₂.nonterminals := ⟨model, variant, hmodel, hindex, hfits⟩
  exact (produce_gives hlhs₁ hbelow hchoose).imp fun _ _ h₃ =>
    ⟨hcompletes.trans h₃.1, fun _ => h₃.2⟩

theorem length_of_variantsOf {variants : List Variant} {branches : List Expr}
    {vs : List (Option Value)} (h : VariantsOf strict m variants branches vs) :
    variants.length = branches.length := by
  induction h with
  | nil => rfl
  | cons _ _ ih => simp [ih]

/-- A branch that comes down to a reference is lowered to the nonterminal of the rule, also if it is
skipped. -/
theorem elementTerm_of_core {e : Expr} {kind : SynthesizedKind} {info : NodeInfo} {name : String}
    (hcore : e.core = .reference info name)
    (hmarker : ¬(Expr.reference info name).hasMarker .classOf = true) :
    elementTerm sc e kind = leafTerm sc (.reference info name) name := by
  unfold Expr.core at hcore
  fun_induction Expr.stripGroups e generalizing kind with
  | case1 => cases hcore
  | case2 info' body hkeeps =>
    rename_i inner ih
    have hclass : ¬(Expr.group info' body).hasMarker .classOf = true := by
      intro h
      simp [Expr.keepsGroup, h] at hkeeps
    have hskip : ¬(Expr.group info' body).hasMarker .skip = true := by
      intro h
      simp [Expr.keepsGroup, h] at hkeeps
    rw [elementTerm, if_neg hskip, if_neg hclass, shapeTerm]
    exact ih hcore
  | case3 e =>
    obtain rfl : e = .reference info name := hcore
    rw [elementTerm]
    by_cases hskip : (Expr.reference info name).hasMarker .skip = true
    · rw [if_pos hskip, plainTerm]
    · rw [if_neg hskip, if_neg hmarker, shapeTerm]

/-- A production that passes an instance on, as one of a base of its class. -/
theorem forwardInstance_gives {x : Lowering Term} {c : ClassId}
    (hx : GivesTerm strict m x (· = .value (.ofClass c))) (lhs : NonterminalId)
    (node : Option NodeId) :
    GivesProductions strict m (do
      let term ← x
      produce lhs [term] (.forward 0) node) lhs (Content.Accepts strict m c) True := by
  intro d hready hlhs htarget
  refine (hx hready).bind fun t d₁ h₁ => ?_
  obtain ⟨hcompletes, hbelow, hcontent⟩ := h₁
  obtain ⟨w, hw, hfits⟩ := htarget
  rw [← hcompletes.content_eq hlhs] at hw
  have hforward : (⟨lhs, [t], .forward 0, node⟩ : Production).Fits strict m d₁.nonterminals :=
    ⟨_, w, ⟨t, rfl, hcontent⟩, hw, hfits⟩
  exact (produce_gives (Nat.lt_of_lt_of_le hlhs hcompletes.size_le)
    (List.forall_mem_singleton.mpr hbelow) hforward).imp fun _ _ h₂ =>
      ⟨hcompletes.trans h₂.1, fun _ => h₂.2⟩

end AnnotatedGrammar.Lowering
