import Mathlib
import AnnotatedGrammar.Proofs.Unplaced.Lower

/-!
# Productions of expressions without places

Every function that lowers expressions does to an expression without places what it does to the
expression, apart from the places.
-/

namespace AnnotatedGrammar
namespace Lowering

variable {sc : LoweringScope} {symbols : SymbolTable}

/-! ## Without values -/

theorem plain_ignoresPlaces (hsymbols : sc.model.symbols.Agrees symbols) :
    (∀ e, IgnoresPlaces (plainTerm sc e) (plainTerm (sc.unplaced symbols) e.unplaced)) ∧
      (∀ e quantifier body, IgnoresPlaces (plainQuantified sc e quantifier body)
        (plainQuantified (sc.unplaced symbols) e.unplaced quantifier body.unplaced)) ∧
      (∀ e, IgnoresPlaces (plainTerms sc e) (plainTerms (sc.unplaced symbols) e.unplaced)) ∧
      (∀ items, IgnoresPlaces (plainTermsAll sc items)
        (plainTermsAll (sc.unplaced symbols) (items.map Expr.unplaced))) ∧
      ∀ lhs branches, IgnoresPlaces (plainBranches sc lhs branches)
        (plainBranches (sc.unplaced symbols) lhs (branches.map Expr.unplaced)) := by
  apply plainTerm.mutual_induct
  case case1 =>
    intro info t
    rw [Expr.unplaced, plainTerm, plainTerm]
    exact .pure _
  case case2 =>
    intro info name
    rw [Expr.unplaced, plainTerm, plainTerm]
    exact leafTerm_ignoresPlaces hsymbols (.reference info name) name
  case case3 =>
    intro info body hbody
    rw [Expr.unplaced, plainTerm, plainTerm]
    exact hbody
  case case4 =>
    intro info items hitems
    have hn := synthesize_ignoresPlaces sc symbols (.sequence info items) .group .nothing
    rw [Expr.unplaced, Expr.unplacedAll_eq_map] at hn ⊢
    rw [plainTerm, plainTerm]
    exact hn.bind fun n => hitems.bind fun terms =>
      (produce_ignoresPlaces n terms .nothing info.id).bind fun _ => .pure _
  case case5 =>
    intro info branches hbranches
    have hn := synthesize_ignoresPlaces sc symbols (.alternation info branches) .alternation
      .nothing
    rw [Expr.unplaced, Expr.unplacedAll_eq_map] at hn ⊢
    rw [plainTerm, plainTerm]
    exact hn.bind fun n => (hbranches n).bind fun _ => .pure _
  case case6 =>
    intro info body hbody
    rw [Expr.unplaced, plainTerm, plainTerm]
    exact hbody
  case case7 =>
    intro info body kind hbody
    rw [Expr.unplaced, plainTerm, plainTerm]
    exact hbody
  case case8 =>
    intro e quantifier body found hatom
    have hfound : body.unplaced.absorb quantifier none = found.unplaced :=
      Expr.absorb_unplaced quantifier none body
    rw [plainQuantified, plainQuantified, hfound, Expr.id_unplaced]
    refine (warnNested_ignoresPlaces e found.absorbed).bind fun _ => ?_
    refine (synthesize_ignoresPlaces sc symbols e _ _).bind fun n => ?_
    refine hatom.bind fun item => ?_
    exact (IgnoresPlaces.forM (fun _ => produce_ignoresPlaces n _ _ _) _).bind fun _ => .pure _
  case case9 =>
    intro info items hitems
    rw [Expr.unplaced, Expr.unplacedAll_eq_map, plainTerms, plainTerms]
    exact hitems
  case case10 =>
    intro info body hbody
    rw [Expr.unplaced, plainTerms, plainTerms]
    exact hbody
  case case11 =>
    intro e hsequence hgroup he
    cases e with
    | sequence info items => exact (hsequence info items rfl).elim
    | group info body => exact (hgroup info body rfl).elim
    | terminal | reference | alternation | optional | repeated =>
      rw [Expr.unplaced] at he ⊢
      simp only [plainTerms]
      exact he.bind fun _ => .pure _
  case case12 =>
    rw [List.map_nil, plainTermsAll, plainTermsAll]
    exact .pure _
  case case13 =>
    intro e rest he hrest
    rw [List.map_cons, plainTermsAll, plainTermsAll]
    exact he.bind fun terms => hrest.bind fun more => .pure _
  case case14 =>
    intro lhs
    rw [List.map_nil, plainBranches, plainBranches]
    exact .pure _
  case case15 =>
    intro lhs branch rest hbranch hrest
    rw [List.map_cons, plainBranches, plainBranches, Expr.id_unplaced]
    exact hbranch.bind fun terms =>
      (produce_ignoresPlaces lhs terms .nothing branch.id).bind fun _ => hrest

/-! ## With values -/

theorem variantPayload_ignoresPlaces (variant : Variant) (position : Option Nat) (branch : Expr) :
    IgnoresPlaces (variantPayload variant position branch)
      (variantPayload variant position branch.unplaced) := by
  unfold variantPayload
  rw [Expr.span_unplaced]
  split
  · exact .pure _
  · exact .pure _
  · exact .fail _ _

theorem valued_ignoresPlaces (hsymbols : sc.model.symbols.Agrees symbols) :
    (∀ e kind, IgnoresPlaces (elementTerm sc e kind)
        (elementTerm (sc.unplaced symbols) e.unplaced kind)) ∧
      (∀ e value kind, IgnoresPlaces (shapeTerm sc e value kind)
        (shapeTerm (sc.unplaced symbols) e.unplaced value kind)) ∧
      (∀ e quantifier body value, IgnoresPlaces (quantifiedTerm sc e quantifier body value)
        (quantifiedTerm (sc.unplaced symbols) e.unplaced quantifier body.unplaced value)) ∧
      (∀ lhs branches, IgnoresPlaces (flatBranches sc lhs branches)
        (flatBranches (sc.unplaced symbols) lhs (branches.map Expr.unplaced))) ∧
      (∀ e terms, IgnoresPlaces (flatten sc e terms)
        (flatten (sc.unplaced symbols) e.unplaced terms)) ∧
      (∀ items before, IgnoresPlaces (flattenAll sc items before)
        (flattenAll (sc.unplaced symbols) (items.map Expr.unplaced) before)) ∧
      (∀ e terms, IgnoresPlaces (flatElement sc e terms)
        (flatElement (sc.unplaced symbols) e.unplaced terms)) ∧
      (∀ lhs c e, IgnoresPlaces (alternativeProductions sc lhs c e)
        (alternativeProductions (sc.unplaced symbols) lhs c e.unplaced)) ∧
      (∀ lhs c index branches variants, IgnoresPlaces
        (variantProductions sc lhs c index branches variants)
        (variantProductions (sc.unplaced symbols) lhs c index (branches.map Expr.unplaced)
          variants)) ∧
      (∀ lhs branches, IgnoresPlaces (baseProductions sc lhs branches)
        (baseProductions (sc.unplaced symbols) lhs (branches.map Expr.unplaced))) ∧
      (∀ c e isBearer a, IgnoresPlaces (construct sc c e isBearer a)
        (construct (sc.unplaced symbols) c e.unplaced isBearer a)) ∧
      (∀ c e quantifier body a, IgnoresPlaces (constructQuantified sc c e quantifier body a)
        (constructQuantified (sc.unplaced symbols) c e.unplaced quantifier body.unplaced a)) ∧
      (∀ c e quantifier body, IgnoresPlaces (fragmentTerm sc c e quantifier body)
        (fragmentTerm (sc.unplaced symbols) c e.unplaced quantifier body.unplaced)) ∧
      (∀ c e isBearer a, IgnoresPlaces (constructElement sc c e isBearer a)
        (constructElement (sc.unplaced symbols) c e.unplaced isBearer a)) ∧
      (∀ c items a, IgnoresPlaces (constructAll sc c items a)
        (constructAll (sc.unplaced symbols) c (items.map Expr.unplaced) a)) ∧
      (∀ lhs c bearer, IgnoresPlaces (bearerProductions sc lhs c bearer)
        (bearerProductions (sc.unplaced symbols) lhs c bearer.unplaced)) ∧
      (∀ lhs c content isBearer, IgnoresPlaces (classProductions sc lhs c content isBearer)
        (classProductions (sc.unplaced symbols) lhs c content.unplaced isBearer)) ∧
      ∀ lhs c branches, IgnoresPlaces (constructBranches sc lhs c branches)
        (constructBranches (sc.unplaced symbols) lhs c (branches.map Expr.unplaced)) := by
  obtain ⟨hvalue, hshapeValue, -⟩ := GrammarModel.values_unplaced hsymbols
  obtain ⟨hplain, hplainQuantified, -⟩ := plain_ignoresPlaces hsymbols
  have hvalueOf (e : Expr) :
      (sc.unplaced symbols).model.valueOf? e.unplaced = sc.model.valueOf? e := hvalue e
  have hshapeOf (e : Expr) :
      (sc.unplaced symbols).model.shapeValue? e.unplaced = sc.model.shapeValue? e := hshapeValue e
  have hclasses : (sc.unplaced symbols).model.nodeClasses = sc.model.nodeClasses := rfl
  have hclass (c : ClassId) : (sc.unplaced symbols).model.class? c =
      (sc.model.class? c).map ClassModel.unplaced := sc.model.class?_unplaced symbols c
  have hnotSkipped {e : Expr} {isBearer : Bool} (h : ¬(!isBearer && e.hasMarker .skip) = true) :
      ¬(!isBearer && e.unplaced.hasMarker .skip) = true := by
    rwa [Expr.hasMarker_unplaced]
  have hnotField {e : Expr} {isBearer : Bool} (h : ¬(!isBearer && e.isFieldElement) = true) :
      ¬(!isBearer && e.unplaced.isFieldElement) = true := by
    rwa [Expr.isFieldElement_unplaced]
  apply elementTerm.mutual_induct sc
  case case1 =>
    intro e kind hskip
    rw [elementTerm, elementTerm, Expr.hasMarker_unplaced, if_pos hskip, if_pos hskip]
    exact hplain e
  case case2 =>
    intro e kind hskip hbearer hfill
    rw [elementTerm, elementTerm, Expr.hasMarker_unplaced, Expr.hasMarker_unplaced, if_neg hskip,
      if_neg hskip, if_pos hbearer, if_pos hbearer]
    exact (bearerClass_ignoresPlaces e).bind fun c =>
      (synthesize_ignoresPlaces sc symbols e _ _).bind fun n => (hfill c n).bind fun _ => .pure _
  case case3 =>
    intro e kind hskip hbearer hshape
    rw [elementTerm, elementTerm, Expr.hasMarker_unplaced, Expr.hasMarker_unplaced, if_neg hskip,
      if_neg hskip, if_neg hbearer, if_neg hbearer, hvalueOf]
    exact hshape
  case case4 =>
    intro value kind info t
    rw [Expr.unplaced, shapeTerm, shapeTerm]
    exact .pure _
  case case5 =>
    intro value kind info name
    rw [Expr.unplaced, shapeTerm, shapeTerm]
    exact leafTerm_ignoresPlaces hsymbols (.reference info name) name
  case case6 =>
    intro value kind info body hbody
    rw [Expr.unplaced, shapeTerm, shapeTerm]
    exact hbody
  case case7 =>
    intro value kind info items hitems
    have hn := synthesize_ignoresPlaces sc symbols (.sequence info items) kind (.ofValue? value)
    have haction (position : Option Nat) :=
      forwarding_ignoresPlaces value position (.sequence info items)
    rw [Expr.unplaced, Expr.unplacedAll_eq_map] at hn ⊢
    simp only [Expr.unplaced, Expr.unplacedAll_eq_map] at haction
    rw [shapeTerm, shapeTerm]
    refine hn.bind fun n => hitems.bind ?_
    rintro ⟨terms, position⟩
    exact (haction position).bind fun action =>
      (produce_ignoresPlaces n terms.toList action info.id).bind fun _ => .pure _
  case case8 =>
    intro value kind info branches hclass hflat
    have hn := synthesize_ignoresPlaces sc symbols (.alternation info branches) .alternation
      (.ofValue? value)
    rw [Expr.unplaced, Expr.unplacedAll_eq_map] at hn ⊢
    rw [shapeTerm, shapeTerm, hclasses]
    refine hn.bind fun n => ?_
    have hid : info.unplaced.id = info.id := rfl
    rw [hid]
    split
    · have hbranches := hclass n ‹_›
      rw [Expr.unplaced, Expr.unplacedAll_eq_map] at hbranches
      exact hbranches.bind fun _ => .pure _
    · split
      · exact (IgnoresPlaces.fail _ _).bind fun _ => .pure _
      · exact (hflat n).bind fun _ => .pure _
  case case9 =>
    intro value kind info body hbody
    rw [Expr.unplaced, shapeTerm, shapeTerm]
    exact hbody
  case case10 =>
    intro value kind info body repetition hbody
    rw [Expr.unplaced, shapeTerm, shapeTerm]
    exact hbody
  case case11 =>
    intro e quantifier body value found hatom
    have hfound : body.unplaced.absorb quantifier none = found.unplaced :=
      Expr.absorb_unplaced quantifier none body
    rw [quantifiedTerm, quantifiedTerm, hfound, Expr.id_unplaced]
    refine (warnNested_ignoresPlaces e found.absorbed).bind fun _ => ?_
    refine (synthesize_ignoresPlaces sc symbols e _ _).bind fun n => ?_
    refine hatom.bind fun item => ?_
    cases value with
    | some v =>
      exact (IgnoresPlaces.forM (fun _ => produce_ignoresPlaces n _ _ _) _).bind fun _ => .pure _
    | none =>
      exact (IgnoresPlaces.forM (fun _ => produce_ignoresPlaces n _ _ _) _).bind fun _ => .pure _
  case case12 =>
    intro lhs
    rw [List.map_nil, flatBranches, flatBranches]
    exact .pure _
  case case13 =>
    intro lhs branch rest hbranch hrest
    rw [List.map_cons, flatBranches, flatBranches, Expr.id_unplaced]
    refine hbranch.bind ?_
    rintro ⟨terms, -⟩
    exact (produce_ignoresPlaces lhs terms.toList .nothing branch.id).bind fun _ => hrest
  case case14 =>
    intro terms info body hunmarked hbody
    have hunmarked' := hunmarked
    rw [← Expr.isUnmarked_unplaced, Expr.unplaced] at hunmarked'
    rw [Expr.unplaced, flatten, flatten, if_pos hunmarked, if_pos hunmarked']
    exact hbody
  case case15 =>
    intro terms info body hunmarked helement
    have hunmarked' := hunmarked
    rw [← Expr.isUnmarked_unplaced, Expr.unplaced] at hunmarked'
    rw [Expr.unplaced] at helement ⊢
    rw [flatten, flatten, if_neg hunmarked, if_neg hunmarked']
    exact helement
  case case16 =>
    intro terms info items hunmarked hitems
    have hunmarked' := hunmarked
    rw [← Expr.isUnmarked_unplaced, Expr.unplaced, Expr.unplacedAll_eq_map] at hunmarked'
    rw [Expr.unplaced, Expr.unplacedAll_eq_map, flatten, flatten, if_pos hunmarked,
      if_pos hunmarked']
    exact hitems
  case case17 =>
    intro terms info items hunmarked helement
    have hunmarked' := hunmarked
    rw [← Expr.isUnmarked_unplaced, Expr.unplaced] at hunmarked'
    rw [Expr.unplaced] at helement ⊢
    rw [flatten, flatten, if_neg hunmarked, if_neg hunmarked']
    exact helement
  case case18 =>
    intro terms e hgroup hsequence helement
    cases e with
    | sequence info items => exact (hsequence info items rfl).elim
    | group info body => exact (hgroup info body rfl).elim
    | terminal | reference | alternation | optional | repeated =>
      rw [Expr.unplaced] at helement ⊢
      simp only [flatten]
      exact helement
  case case19 =>
    intro before
    rw [List.map_nil, flattenAll, flattenAll]
    exact .pure _
  case case20 =>
    intro before e rest he hrest
    rw [List.map_cons, flattenAll, flattenAll, Expr.span_unplaced]
    refine he.bind ?_
    rintro ⟨terms, position⟩
    cases before.2 <;> cases position
    · exact hrest _ _ _
    · exact hrest _ _ _
    · exact hrest _ _ _
    · exact .fail _ _
  case case21 =>
    intro e terms he
    rw [flatElement, flatElement, hvalueOf]
    exact he.bind fun _ => .pure _
  case case22 =>
    intro lhs c info branches id name sourceName base fields variants key origin span hc hbase
    rw [Expr.unplaced, Expr.unplacedAll_eq_map]
    simp only [alternativeProductions, hclass, hc]
    exact hbase
  case case23 =>
    intro lhs c info branches id name sourceName base fields variants key origin span hc hlength
      hvariants
    rw [Expr.unplaced, Expr.unplacedAll_eq_map]
    simp only [alternativeProductions, hclass, hc, if_pos hlength, Option.map_some,
      ClassModel.unplaced, List.length_map]
    exact hvariants
  case case24 =>
    intro lhs c info branches id name sourceName base fields variants key origin span hc hlength
    rw [Expr.unplaced, Expr.unplacedAll_eq_map]
    simp only [alternativeProductions, hclass, hc, if_neg hlength, Option.map_some,
      ClassModel.unplaced, List.length_map]
    exact .fail _ _
  case case25 =>
    intro lhs c info branches id name sourceName base fields variants key origin span hc
    rw [Expr.unplaced]
    simp only [alternativeProductions, hclass, hc]
    exact .fail _ _
  case case26 =>
    intro lhs c info branches hc
    rw [Expr.unplaced]
    simp only [alternativeProductions, hclass, hc]
    exact .throw _
  case case27 =>
    intro lhs c e halternation
    have hname : (sc.unplaced symbols).model.className c = sc.model.className c :=
      sc.model.className_unplaced symbols c
    cases e with
    | alternation info branches => exact (halternation info branches rfl).elim
    | sequence | group | terminal | reference | optional | repeated =>
      rw [Expr.unplaced]
      simp only [alternativeProductions, hname]
      exact .fail _ _
  case case28 =>
    intro lhs c index branch rest variant later hnode
    have hnode' : variant.node ≠ branch.unplaced.id := by rwa [Expr.id_unplaced]
    rw [List.map_cons, variantProductions_cons, variantProductions_cons, if_pos hnode,
      if_pos hnode', Expr.span_unplaced]
    exact .fail _ _
  case case29 =>
    intro lhs c index branch rest variant later hnode hbranch hrest
    have hnode' : ¬variant.node ≠ branch.unplaced.id := by rwa [Expr.id_unplaced]
    rw [List.map_cons, variantProductions_cons, variantProductions_cons, if_neg hnode,
      if_neg hnode', Expr.id_unplaced]
    exact hbranch.bind fun result =>
      (variantPayload_ignoresPlaces variant result.2 branch).bind fun payload =>
        (produce_ignoresPlaces lhs _ _ _).bind fun _ => hrest
  case case30 =>
    intro lhs c index branches variants hcons
    cases branches with
    | nil =>
      simp only [List.map_nil, variantProductions]
      exact .pure _
    | cons branch rest =>
      cases variants with
      | nil =>
        simp only [List.map_cons, variantProductions]
        exact .pure _
      | cons variant later => exact (hcons branch rest variant later rfl rfl).elim
  case case31 =>
    intro lhs
    rw [List.map_nil, baseProductions, baseProductions]
    exact .pure _
  case case32 =>
    intro lhs branch rest hbearer hrest hbranch
    rw [List.map_cons, baseProductions, baseProductions, Expr.core_unplaced,
      Expr.hasMarker_unplaced, if_pos hbearer, if_pos hbearer]
    exact (bearerClass_ignoresPlaces branch.core).bind fun c => (hbranch c).bind fun _ => hrest
  case case33 =>
    intro lhs branch rest hbearer c hc hrest hbranch
    simp only [List.map_cons, baseProductions, Expr.core_unplaced, Expr.hasMarker_unplaced,
      if_neg hbearer, Expr.id_unplaced, hclasses, hc]
    exact hbranch.bind fun a => (produce_ignoresPlaces lhs _ _ _).bind fun _ => hrest
  case case34 =>
    intro lhs branch rest hbearer hc hrest hbranch
    simp only [List.map_cons, baseProductions, Expr.core_unplaced, Expr.hasMarker_unplaced,
      if_neg hbearer, Expr.id_unplaced, hclasses, hc]
    exact hbranch.bind fun a => (produce_ignoresPlaces lhs _ _ _).bind fun _ => hrest
  case case35 =>
    intro c e isBearer a hskip
    have hskip' : (!isBearer && e.unplaced.hasMarker .skip) = true := by
      rwa [Expr.hasMarker_unplaced]
    rw [construct.eq_def, construct.eq_def, if_pos hskip, if_pos hskip']
    exact (hplain e).bind fun _ => .pure _
  case case36 =>
    intro c e isBearer a hskip hfield he
    have hskip' : ¬(!isBearer && e.unplaced.hasMarker .skip) = true := by
      rwa [Expr.hasMarker_unplaced]
    have hfield' : (!isBearer && e.unplaced.isFieldElement) = true := by
      rwa [Expr.isFieldElement_unplaced]
    rw [construct.eq_def, construct.eq_def, if_neg hskip, if_neg hskip', if_pos hfield,
      if_pos hfield']
    exact he.bind fun term => assign_ignoresPlaces c e e term a
  case case37 =>
    intro c isBearer a info items hskip hfield hitems
    rw [construct.eq_def, construct.eq_def, if_neg hskip, if_neg (hnotSkipped hskip),
      if_neg hfield, if_neg (hnotField hfield), Expr.unplaced, Expr.unplacedAll_eq_map]
    exact hitems
  case case38 =>
    intro c isBearer a info body hskip hfield hbody
    rw [construct.eq_def, construct.eq_def, if_neg hskip, if_neg (hnotSkipped hskip),
      if_neg hfield, if_neg (hnotField hfield)]
    exact hbody
  case case39 =>
    intro c isBearer a info body hchain hskip hfield helement
    have hchain' := (Expr.isSimpleChain_unplaced _).trans hchain
    rw [Expr.unplaced] at hchain'
    rw [construct.eq_def, construct.eq_def, if_neg hskip, if_neg (hnotSkipped hskip),
      if_neg hfield, if_neg (hnotField hfield), Expr.unplaced]
    simp only [if_pos hchain, if_pos hchain']
    exact helement
  case case40 =>
    intro c isBearer a info body hchain hskip hfield hquantified
    have hchain' := hchain
    rw [← Expr.isSimpleChain_unplaced, Expr.unplaced] at hchain'
    rw [construct.eq_def, construct.eq_def, if_neg hskip, if_neg (hnotSkipped hskip),
      if_neg hfield, if_neg (hnotField hfield), Expr.unplaced]
    simp only [if_neg hchain, if_neg hchain']
    exact hquantified
  case case41 =>
    intro c isBearer a info body kind hchain hskip hfield helement
    have hchain' := (Expr.isSimpleChain_unplaced _).trans hchain
    rw [Expr.unplaced] at hchain'
    rw [construct.eq_def, construct.eq_def, if_neg hskip, if_neg (hnotSkipped hskip),
      if_neg hfield, if_neg (hnotField hfield), Expr.unplaced]
    simp only [if_pos hchain, if_pos hchain']
    exact helement
  case case42 =>
    intro c isBearer a info body kind hchain hskip hfield hquantified
    have hchain' := hchain
    rw [← Expr.isSimpleChain_unplaced, Expr.unplaced] at hchain'
    rw [construct.eq_def, construct.eq_def, if_neg hskip, if_neg (hnotSkipped hskip),
      if_neg hfield, if_neg (hnotField hfield), Expr.unplaced]
    simp only [if_neg hchain, if_neg hchain']
    exact hquantified
  case case43 =>
    intro c isBearer a e hsequence hgroup hoptional hrepeated hskip hfield helement
    rw [construct.eq_def, construct.eq_def, if_neg hskip, if_neg (hnotSkipped hskip),
      if_neg hfield, if_neg (hnotField hfield)]
    cases e with
    | sequence info items => exact (hsequence info items rfl).elim
    | group info body => exact (hgroup info body rfl).elim
    | optional info body => exact (hoptional info body rfl).elim
    | repeated info body kind => exact (hrepeated info body kind rfl).elim
    | terminal | reference | alternation => exact helement
  case case44 =>
    intro c e quantifier body a hfills hfragment
    have hfills' : (sc.unplaced symbols).model.fillsFieldsOf e.unplaced c = true :=
      (sc.model.fillsFieldsOf_unplaced symbols e c).trans hfills
    rw [constructQuantified, constructQuantified, if_pos hfills, if_pos hfills']
    exact hfragment.bind fun _ => .pure _
  case case45 =>
    intro c e quantifier body a hfills
    have hfills' : ¬(sc.unplaced symbols).model.fillsFieldsOf e.unplaced c = true := by
      rwa [← sc.model.fillsFieldsOf_unplaced symbols] at hfills
    rw [constructQuantified, constructQuantified, if_neg hfills, if_neg hfills']
    exact (hplainQuantified e quantifier body).bind fun _ => .pure _
  case case46 =>
    intro c e quantifier body found hatom hparts
    have hfound : body.unplaced.absorb quantifier none = found.unplaced :=
      Expr.absorb_unplaced quantifier none body
    have hoperand : IgnoresPlaces (fragmentOperand sc c found)
        (fragmentOperand (sc.unplaced symbols) c found.unplaced) := by
      unfold fragmentOperand Collapsed.unplaced
      cases found.carrier with
      | some carrier =>
        exact hatom.bind fun term => assign_ignoresPlaces c carrier found.atom term .empty
      | none => exact hparts
    have hproductions (n : NonterminalId) (a : Assembly) :
        fragmentProductions n c e.unplaced found.unplaced a =
          fragmentProductions n c e found a := by
      simp only [fragmentProductions, Expr.id_unplaced, Collapsed.unplaced]
    rw [fragmentTerm_eq, fragmentTerm_eq, hfound]
    refine (warnNested_ignoresPlaces e found.absorbed).bind fun _ => ?_
    refine (synthesize_ignoresPlaces sc symbols e _ _).bind fun n => ?_
    refine hoperand.bind fun a => ?_
    rw [hproductions]
    exact (IgnoresPlaces.forM (fun p => produce_ignoresPlaces _ _ _ _) _).bind fun _ => .pure _
  case case47 =>
    intro c e a hshape
    simp only [constructElement, if_true, hshapeOf]
    exact hshape.bind fun term => assign_ignoresPlaces c e e term a
  case case48 =>
    intro c e isBearer a hbearer he
    simp only [constructElement, if_neg hbearer]
    exact he.bind fun term => assign_ignoresPlaces c e e term a
  case case49 =>
    intro c a
    rw [List.map_nil, constructAll, constructAll]
    exact .pure _
  case case50 =>
    intro c a e rest he hrest
    rw [List.map_cons, constructAll, constructAll]
    exact he.bind hrest
  case case51 =>
    intro lhs c bearer content isBearer hcontent habstract halternatives
    have habstract' : ((sc.unplaced symbols).model.class? c).map (·.kind) = some .abstract := by
      rw [hclass, Option.map_map]
      exact habstract
    rw [bearerProductions_eq, bearerProductions_eq, if_pos habstract, if_pos habstract',
      Expr.classContent_unplaced, hcontent, Expr.core_unplaced]
    exact halternatives
  case case52 =>
    intro lhs c bearer content isBearer hcontent habstract hproductions
    have habstract' : ¬((sc.unplaced symbols).model.class? c).map (·.kind) = some .abstract := by
      rw [hclass, Option.map_map]
      exact habstract
    rw [bearerProductions_eq, bearerProductions_eq, if_neg habstract, if_neg habstract',
      Expr.classContent_unplaced, hcontent]
    exact hproductions
  case case53 =>
    intro lhs c content isBearer branches hbranches hconstruct
    have hbranches' : content.unplaced.classAlternatives? = some (branches.map Expr.unplaced) := by
      rw [Expr.classAlternatives?_unplaced, hbranches, Option.map_some]
    rw [classProductions_some sc lhs c isBearer hbranches,
      classProductions_some _ lhs c isBearer hbranches']
    exact hconstruct
  case case54 =>
    intro lhs c content isBearer hbranches hconstruct
    have hbranches' : content.unplaced.classAlternatives? = none := by
      rw [Expr.classAlternatives?_unplaced, hbranches, Option.map_none]
    rw [classProductions_none sc lhs c isBearer hbranches,
      classProductions_none _ lhs c isBearer hbranches', Expr.id_unplaced]
    exact hconstruct.bind fun a => produce_ignoresPlaces lhs _ _ _
  case case55 =>
    intro lhs c
    rw [List.map_nil, constructBranches, constructBranches]
    exact .pure _
  case case56 =>
    intro lhs c branch rest hbranch hrest
    rw [List.map_cons, constructBranches, constructBranches, Expr.id_unplaced]
    exact hbranch.bind fun a => (produce_ignoresPlaces lhs _ _ _).bind fun _ => hrest

end Lowering
end AnnotatedGrammar
