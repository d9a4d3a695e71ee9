import Mathlib
import AnnotatedGrammar.Proofs.Lowering.Extends
import AnnotatedGrammar.Proofs.Lowering.Whole

/-!
# What lowering adds

Every function that lowers expressions extends the draft: whatever nonterminal it makes is named
after the rule and taken up by a production, and branches are chosen once at most.
-/

namespace AnnotatedGrammar

namespace Lowering

open ProductionDraft

variable {sc : LoweringScope} {ids : List NodeId} {d d' : ProductionDraft} {β : Type}

/-! ## Without values -/

theorem plain_extends :
    (∀ e, Extending sc [] [] (plainTerm sc e) fun t => [t]) ∧
      (∀ e quantifier body, Extending sc [] [] (plainQuantified sc e quantifier body)
        fun t => [t]) ∧
      (∀ e, Extending sc [] [] (plainTerms sc e) fun terms => terms) ∧
      (∀ items, Extending sc [] [] (plainTermsAll sc items) fun terms => terms) ∧
      ∀ lhs branches, Extending sc [] [] (plainBranches sc lhs branches) fun _ => [] := by
  apply plainTerm.mutual_induct
  case case1 =>
    intro info t
    rw [plainTerm]
    exact .pure (List.nil_subset _)
  case case2 =>
    intro info name
    rw [plainTerm]
    exact leafTerm_extends _ name
  case case3 =>
    intro info body hbody
    rw [plainTerm]
    exact hbody
  case case4 =>
    intro info items hitems
    rw [plainTerm]
    refine (synthesize_extends _ _ .nothing).bind_nil_left fun n => ?_
    refine (hitems.frame [.nonterminal n]).bind_nil_left fun terms => ?_
    refine (produce_extends n _ [.nonterminal n] (by simp)).bind_nil_left fun _ => ?_
    exact .pure (List.Subset.refl _)
  case case5 =>
    intro info branches hbranches
    rw [plainTerm]
    refine (synthesize_extends _ _ .nothing).bind_nil_left fun n => ?_
    refine ((hbranches n).frame [.nonterminal n]).bind_nil_left fun _ => ?_
    exact .pure (List.Subset.refl _)
  case case6 =>
    intro info body hbody
    rw [plainTerm]
    exact hbody
  case case7 =>
    intro info body kind hbody
    rw [plainTerm]
    exact hbody
  case case8 =>
    intro e quantifier body found hatom
    rw [plainQuantified]
    refine (warnNested_extends _ _).bind_nil_left fun _ => ?_
    refine (synthesize_extends _ _ .nothing).bind_nil_left fun n => ?_
    refine (hatom.frame [.nonterminal n]).bind_nil_left fun item => ?_
    refine (produce_forM_extends (by simp) fun t ht => ?_).bind_nil_left fun _ => ?_
    · exact exists_mem_plainAlternatives _ _ ht
    · exact .pure (List.Subset.refl _)
  case case9 =>
    intro info items hitems
    rw [plainTerms]
    exact hitems
  case case10 =>
    intro info body hbody
    rw [plainTerms]
    exact hbody
  case case11 =>
    intro e hsequence hgroup he
    rw [plainTerms.eq_def]
    split
    · exact absurd rfl (hsequence _ _)
    · exact absurd rfl (hgroup _ _)
    · exact he.bind_nil_left fun t => .pure (List.Subset.refl _)
  case case12 =>
    rw [plainTermsAll]
    exact .pure (List.Subset.refl _)
  case case13 =>
    intro e rest he hrest
    rw [plainTermsAll]
    refine he.bind_nil_left fun terms => ?_
    have hrest := hrest.frame terms
    rw [List.append_nil] at hrest
    exact hrest.bind_nil_left fun more => .pure (List.Subset.refl _)
  case case14 =>
    intro lhs
    rw [plainBranches]
    exact .pure (List.Subset.refl _)
  case case15 =>
    intro lhs branch rest hbranch hrest
    rw [plainBranches]
    refine hbranch.bind_nil_left fun terms => ?_
    exact (produce_extends lhs _ [] (by simp)).bind_nil_left fun _ => hrest

theorem plainTerm_extends (e : Expr) : Extending sc [] [] (plainTerm sc e) fun t => [t] :=
  plain_extends.1 e

theorem plainQuantified_extends (e : Expr) (quantifier : Quantifier) (body : Expr) :
    Extending sc [] [] (plainQuantified sc e quantifier body) fun t => [t] :=
  plain_extends.2.1 e quantifier body

/-! ## With values -/

/-- A term is added to an instance being built. -/
theorem Extending.push {x : Lowering Term} (hx : Extending sc ids [] x fun t => [t])
    (a : Assembly) :
    Extending sc ids a.terms (do return a.push (← x)) fun a' => a'.terms := by
  have h := hx.frame a.terms
  rw [List.append_nil] at h
  refine h.bind_nil_right fun t => .pure ?_
  simp [Assembly.terms, Assembly.push]

/-- A term is added to an instance being built, with the step that fills its field. -/
theorem Extending.assign {x : Lowering Term} (hx : Extending sc ids [] x fun t => [t])
    (c : ClassId) (owner e : Expr) (a : Assembly) :
    Extending sc ids a.terms (do assign sc c owner e (← x) a) fun a' => a'.terms := by
  have h := hx.frame a.terms
  rw [List.append_nil] at h
  exact h.bind_nil_right fun t => assign_extends c owner e t a

theorem fragmentProductions_ne_choose (n : NonterminalId) (c : ClassId) (e : Expr)
    (found : Collapsed) (a : Assembly) : ∀ p ∈ fragmentProductions n c e found a,
      ∀ c' index payload, p.action ≠ .choose c' index payload := by
  unfold fragmentProductions
  split <;> simp [Assembly.construct]

theorem exists_mem_fragmentProductions (n : NonterminalId) (c : ClassId) (e : Expr)
    (found : Collapsed) {a : Assembly} {t : Term} (h : t ∈ a.terms) :
    ∃ p ∈ fragmentProductions n c e found a, t ∈ p.body := by
  have hmem : t ∈ (a.pushFragment (.nonterminal n) true).terms := by
    rw [Assembly.terms, Assembly.pushFragment, Array.toList_push]
    exact List.mem_append_left _ h
  unfold fragmentProductions
  split <;> exact ⟨_, List.mem_cons_self, by assumption⟩

theorem variantPayload_isSome {variant : Variant} {position payload : Option Nat} {branch : Expr}
    (h : variantPayload variant position branch d = .ok payload d') :
    payload.isSome = variant.payload.isSome := by
  unfold variantPayload at h
  cases hpayload : variant.payload <;> cases position <;> simp [hpayload] at h <;> simp [← h.1]

/-- The production of a variant chooses it, once, for the branch that it stands for. -/
theorem Extending.choosing {lhs : NonterminalId} {c : ClassId} {cls : ClassModel} {index : Nat}
    {variant : Variant} {position : Option Nat} {branch : Expr} {body : List Term}
    {x : Lowering β} {after : β → List Term}
    (hcls : sc.model.class? c = some cls) (hvariant : cls.variants[index]? = some variant)
    (hnode : variant.node = branch.id) (hx : Extending sc ids [] x after) :
    Extending sc (branch.id :: ids) body (do
      let payload ← variantPayload variant position branch
      produce lhs body (.choose c index payload) branch.id
      x) after := by
  intro d b d' h
  simp only [bind_eq_ok] at h
  obtain ⟨payload, d₁, hpayload, _, d₂, hproduce, h⟩ := h
  have hisSome := variantPayload_isSome hpayload
  obtain rfl := variantPayload_eq_ok hpayload
  refine (Extends.ofChoice (produce_eq_ok hproduce) ?_ (rfl : _ = some branch.id)).trans (hx h)
  rintro _ _ _ ⟨⟩
  exact ⟨cls, variant, hcls, hvariant, by rw [hnode], hisSome⟩

theorem valued_extends :
    (∀ e kind, Extending sc e.innerIds [] (elementTerm sc e kind) fun t => [t]) ∧
      (∀ e value kind, sc.model.MayCarry e (.ofValue? value) →
        Extending sc e.innerIds [] (shapeTerm sc e value kind) fun t => [t]) ∧
      (∀ e quantifier body value, sc.model.MayCarry e (.ofValue? value) →
        Extending sc body.ids [] (quantifiedTerm sc e quantifier body value) fun t => [t]) ∧
      (∀ lhs branches, Extending sc (Expr.idsAll branches) [] (flatBranches sc lhs branches)
        fun _ => []) ∧
      (∀ e terms, Extending sc e.innerIds terms.toList (flatten sc e terms)
        fun result => result.1.toList) ∧
      (∀ items before, Extending sc (Expr.idsAll items) before.1.toList
        (flattenAll sc items before) fun result => result.1.toList) ∧
      (∀ e terms, Extending sc e.innerIds terms.toList (flatElement sc e terms)
        fun result => result.1.toList) ∧
      (∀ lhs c e, Extending sc e.innerIds [] (alternativeProductions sc lhs c e) fun _ => []) ∧
      (∀ lhs c index branches variants,
        (∃ cls, sc.model.class? c = some cls ∧ cls.variants.drop index = variants) →
          Extending sc (Expr.idsAll branches) []
            (variantProductions sc lhs c index branches variants) fun _ => []) ∧
      (∀ lhs branches, Extending sc (Expr.idsAll branches) [] (baseProductions sc lhs branches)
        fun _ => []) ∧
      (∀ c e isBearer a, Extending sc e.innerIds a.terms (construct sc c e isBearer a)
        fun a' => a'.terms) ∧
      (∀ c e quantifier body a, Extending sc body.ids a.terms
        (constructQuantified sc c e quantifier body a) fun a' => a'.terms) ∧
      (∀ c e quantifier body, sc.model.fillsFieldsOf e c = true →
        Extending sc body.ids [] (fragmentTerm sc c e quantifier body)
          fun result => [result.1]) ∧
      (∀ c e isBearer a, Extending sc e.innerIds a.terms (constructElement sc c e isBearer a)
        fun a' => a'.terms) ∧
      (∀ c items a, Extending sc (Expr.idsAll items) a.terms (constructAll sc c items a)
        fun a' => a'.terms) ∧
      (∀ lhs c bearer, Extending sc bearer.innerIds [] (bearerProductions sc lhs c bearer)
        fun _ => []) ∧
      (∀ lhs c content isBearer, Extending sc content.innerIds []
        (classProductions sc lhs c content isBearer) fun _ => []) ∧
      ∀ lhs c branches, Extending sc (Expr.idsAll branches) [] (constructBranches sc lhs c branches)
        fun _ => [] := by
  apply elementTerm.mutual_induct sc
  case case1 =>
    intro e kind hskip
    rw [elementTerm, if_pos hskip]
    exact (plainTerm_extends e).of_nil
  case case2 =>
    intro e kind hskip hbearer hfill
    rw [elementTerm, if_neg hskip, if_pos hbearer]
    refine Extending.bearerClass fun c hclass => ?_
    refine (synthesize_extends _ _ (.built hclass)).bind_nil_left fun n => ?_
    refine ((hfill c n).frame [.nonterminal n]).bind_nil_right fun _ => ?_
    exact .pure (List.Subset.refl _)
  case case3 =>
    intro e kind hskip hbearer hshape
    rw [elementTerm, if_neg hskip, if_neg hbearer]
    exact hshape .value
  case case4 =>
    intro value kind info t _
    rw [shapeTerm]
    exact (Extending.pure (List.nil_subset _)).of_nil
  case case5 =>
    intro value kind info name _
    rw [shapeTerm]
    exact (leafTerm_extends _ name).of_nil
  case case6 =>
    intro value kind info body hbody _
    rw [shapeTerm, Expr.innerIds_group]
    exact hbody.of_sublist body.innerIds_sublist
  case case7 =>
    intro value kind info items hitems hcarries
    rw [shapeTerm, Expr.innerIds_sequence]
    refine (synthesize_extends _ _ hcarries).bind_nil_left fun n => ?_
    refine (hitems.frame [.nonterminal n]).bind_nil_right fun ⟨terms, position⟩ => ?_
    refine Extending.forwarding fun action haction => ?_
    refine (produce_extends n _ [.nonterminal n] haction).bind_nil_left fun _ => ?_
    exact .pure (List.Subset.refl _)
  case case8 =>
    intro value kind info branches hclass hflat hcarries
    rw [shapeTerm, Expr.innerIds_alternation]
    refine (synthesize_extends _ _ hcarries).bind_nil_left fun n => ?_
    have hdone {f : Unit → Lowering Term} (hf : ∀ u, f u = return .nonterminal n) (u : Unit) :
        Extending sc [] [.nonterminal n] (f u) fun t => [t] := by
      rw [hf]
      exact .pure (List.Subset.refl _)
    split
    · exact ((hclass n _).frame [.nonterminal n]).bind_nil_right (hdone fun _ => rfl)
    · split
      · intro d t d' h
        simp at h
      · exact ((hflat n).frame [.nonterminal n]).bind_nil_right (hdone fun _ => rfl)
  case case9 =>
    intro value kind info body hbody hcarries
    rw [shapeTerm, Expr.innerIds_optional]
    exact hbody hcarries
  case case10 =>
    intro value kind info body repetition hbody hcarries
    rw [shapeTerm, Expr.innerIds_repeated]
    exact hbody hcarries
  case case11 =>
    intro e quantifier body value found hatom hcarries
    rw [quantifiedTerm]
    refine Extending.of_sublist ?_ (Expr.innerIds_absorb_sublist quantifier none body)
    refine (warnNested_extends _ _).bind_nil_left fun _ => ?_
    refine (synthesize_extends _ _ hcarries).bind_nil_left fun n => ?_
    refine (hatom.frame [.nonterminal n]).bind_nil_right fun item => ?_
    split
    · refine (produce_forM_extends (valuedAlternatives_ne_choose _ _ _ _)
        fun t ht => ?_).bind_nil_left fun _ => .pure (List.Subset.refl _)
      rw [List.mem_singleton.mp ht]
      exact exists_mem_valuedAlternatives _ _ _ _
    · refine (produce_forM_extends (by simp) fun t ht => ?_).bind_nil_left fun _ =>
        .pure (List.Subset.refl _)
      exact exists_mem_plainAlternatives _ _ ht
  case case12 =>
    intro lhs
    rw [flatBranches]
    exact .pure (List.Subset.refl _)
  case case13 =>
    intro lhs branch rest hbranch hrest
    rw [flatBranches, Expr.idsAll_cons]
    refine Extending.bind (hbranch.of_sublist branch.innerIds_sublist) fun result => ?_
    exact (produce_extends lhs _ [] (by simp)).bind_nil_left fun _ => hrest
  case case14 =>
    intro terms info body hunmarked hbody
    rw [flatten, if_pos hunmarked, Expr.innerIds_group]
    exact hbody.of_sublist body.innerIds_sublist
  case case15 =>
    intro terms info body hunmarked helement
    rw [flatten, if_neg hunmarked]
    exact helement
  case case16 =>
    intro terms info items hunmarked hitems
    rw [flatten, if_pos hunmarked]
    exact hitems
  case case17 =>
    intro terms info items hunmarked helement
    rw [flatten, if_neg hunmarked]
    exact helement
  case case18 =>
    intro terms e hgroup hsequence helement
    rw [flatten.eq_def]
    split
    · exact absurd rfl (hgroup _ _)
    · exact absurd rfl (hsequence _ _)
    · exact helement
  case case19 =>
    intro before
    rw [flattenAll]
    exact .pure (List.Subset.refl _)
  case case20 =>
    intro before e rest he hrest
    rw [flattenAll, Expr.idsAll_cons]
    refine Extending.bind (he.of_sublist e.innerIds_sublist) fun ⟨terms, position⟩ => ?_
    cases before.2 <;> cases position
    · exact hrest _ _ _
    · exact hrest _ _ _
    · exact hrest _ _ _
    · exact .fail
  case case21 =>
    intro e terms he
    rw [flatElement]
    have hframed := he.frame terms.toList
    rw [List.append_nil] at hframed
    refine hframed.bind_nil_right fun t => .pure ?_
    simp
  case case22 =>
    intro lhs c info branches id name sourceName base fields variants key origin span hc hbase
    rw [alternativeProductions, hc]
    exact hbase
  case case23 =>
    intro lhs c info branches id name sourceName base fields variants key origin span hc hlength
      hvariants
    simp only [alternativeProductions, hc, if_pos hlength]
    exact hvariants ⟨_, hc, rfl⟩
  case case24 =>
    intro lhs c info branches id name sourceName base fields variants key origin span hc hlength
    simp only [alternativeProductions, hc, if_neg hlength]
    exact .fail
  case case25 =>
    intro lhs c info branches id name sourceName base fields variants key origin span hc
    simp only [alternativeProductions, hc]
    exact .fail
  case case26 =>
    intro lhs c info branches hc d u d' h
    simp [alternativeProductions, hc] at h
  case case27 =>
    intro lhs c e halternation
    rw [alternativeProductions.eq_def]
    split
    · exact absurd rfl (halternation _ _)
    · exact .fail
  case case28 =>
    intro lhs c index branch rest variant later hnode hdrop
    simp only [variantProductions, if_pos hnode]
    exact .fail
  case case29 =>
    intro lhs c index branch rest variant later hnode hbranch hrest
    rintro ⟨cls, hcls, hdrop⟩
    rw [variantProductions_cons, if_neg hnode, Expr.idsAll_cons]
    have hvariant : cls.variants[index]? = some variant := by
      rw [← List.head?_drop, hdrop, List.head?_cons]
    have hlater : cls.variants.drop (index + 1) = later := by
      rw [← List.tail_drop, hdrop, List.tail_cons]
    refine (Extending.bind hbranch fun result => Extending.choosing hcls hvariant
      (Decidable.not_not.mp hnode) (hrest ⟨cls, hcls, hlater⟩)).mono ?_
    rw [Expr.ids_eq]
    exact List.perm_middle.subperm
  case case30 =>
    intro lhs c index branches variants hcons hdrop
    rw [variantProductions.eq_def]
    split
    · exact absurd rfl (hcons _ _ _ _ rfl)
    · exact Extending.of_nil (.pure (List.Subset.refl []))
  case case31 =>
    intro lhs
    rw [baseProductions]
    exact .pure (List.Subset.refl _)
  case case32 =>
    intro lhs branch rest hbearer hrest hbranch
    rw [baseProductions, if_pos hbearer, Expr.idsAll_cons]
    refine Extending.bearerClass fun c _ => ?_
    exact ((hbranch c).of_sublist
      (branch.innerIds_core_sublist.trans branch.innerIds_sublist)).bind fun _ => hrest
  case case33 =>
    intro lhs branch rest hbearer c hc hrest hbranch
    simp only [baseProductions, if_neg hbearer, hc, Expr.idsAll_cons]
    refine Extending.bind (hbranch.of_sublist branch.innerIds_sublist) fun a => ?_
    exact (produce_extends lhs _ [] (by simp [Assembly.construct])).bind_nil_left fun _ => hrest
  case case34 =>
    intro lhs branch rest hbearer hc hrest hbranch
    simp only [baseProductions, if_neg hbearer, hc, Expr.idsAll_cons]
    refine Extending.bind (hbranch.of_sublist branch.innerIds_sublist) fun t => ?_
    exact (produce_extends lhs _ [] (by simp)).bind_nil_left fun _ => hrest
  case case35 =>
    intro c e isBearer a hskip
    rw [construct.eq_def, if_pos hskip]
    exact ((plainTerm_extends e).of_nil).push a
  case case36 =>
    intro c e isBearer a hskip hfield he
    rw [construct.eq_def, if_neg hskip, if_pos hfield]
    exact he.assign c e e a
  case case37 =>
    intro c isBearer a info items hskip hfield hitems
    rw [construct, if_neg hskip, if_neg hfield, Expr.innerIds_sequence]
    exact hitems
  case case38 =>
    intro c isBearer a info body hskip hfield hbody
    rw [construct, if_neg hskip, if_neg hfield, Expr.innerIds_group]
    exact hbody.of_sublist body.innerIds_sublist
  case case39 =>
    intro c isBearer a info body hchain hskip hfield helement
    rw [construct, if_neg hskip, if_neg hfield, if_pos hchain]
    exact helement
  case case40 =>
    intro c isBearer a info body hchain hskip hfield hquantified
    rw [construct, if_neg hskip, if_neg hfield, if_neg hchain, Expr.innerIds_optional]
    exact hquantified
  case case41 =>
    intro c isBearer a info body kind hchain hskip hfield helement
    rw [construct, if_neg hskip, if_neg hfield, if_pos hchain]
    exact helement
  case case42 =>
    intro c isBearer a info body kind hchain hskip hfield hquantified
    rw [construct, if_neg hskip, if_neg hfield, if_neg hchain, Expr.innerIds_repeated]
    exact hquantified
  case case43 =>
    intro c isBearer a e hsequence hgroup hoptional hrepeated hskip hfield helement
    rw [construct.eq_def, if_neg hskip, if_neg hfield]
    split
    · exact absurd rfl (hsequence _ _)
    · exact absurd rfl (hgroup _ _)
    · exact absurd rfl (hoptional _ _)
    · exact absurd rfl (hrepeated _ _ _)
    · exact helement
  case case44 =>
    intro c e quantifier body a hfills hfragment
    rw [constructQuantified, if_pos hfills]
    have h := (hfragment hfills).frame a.terms
    rw [List.append_nil] at h
    refine h.bind_nil_right fun ⟨t, many⟩ => .pure ?_
    simp [Assembly.terms, Assembly.pushFragment]
  case case45 =>
    intro c e quantifier body a hfills
    rw [constructQuantified, if_neg hfills]
    exact (plainQuantified_extends e quantifier body).of_nil.push a
  case case46 =>
    intro c e quantifier body found hatom hparts hfills
    rw [fragmentTerm_eq]
    have hoperand : Extending sc found.atom.innerIds [] (fragmentOperand sc c found)
        fun a => a.terms := by
      unfold fragmentOperand
      split
      · exact hatom.assign c _ found.atom .empty
      · exact hparts
    refine Extending.of_sublist ?_ (Expr.innerIds_absorb_sublist quantifier none body)
    refine (warnNested_extends _ _).bind_nil_left fun _ => ?_
    refine (synthesize_extends _ _ (.filled hfills _)).bind_nil_left fun n => ?_
    refine (hoperand.frame [.nonterminal n]).bind_nil_right fun a => ?_
    refine (produce_forM_extends (fragmentProductions_ne_choose n c e found a)
      fun t ht => exists_mem_fragmentProductions n c e found ht).bind_nil_left fun _ => ?_
    exact .pure (List.Subset.refl _)
  case case47 =>
    intro c e a hshape
    simp only [constructElement, if_true]
    exact (hshape .shape).assign c e e a
  case case48 =>
    intro c e isBearer a hbearer he
    simp only [constructElement, if_neg hbearer]
    exact he.assign c e e a
  case case49 =>
    intro c a
    rw [constructAll]
    exact .pure (List.Subset.refl _)
  case case50 =>
    intro c a e rest he hrest
    rw [constructAll, Expr.idsAll_cons]
    exact Extending.bind (he.of_sublist e.innerIds_sublist) hrest
  case case51 =>
    intro lhs c bearer content isBearer hcontent habstract halternatives
    rw [bearerProductions_eq, if_pos habstract, hcontent]
    have hsublist := bearer.innerIds_classContent_sublist
    rw [hcontent] at hsublist
    exact halternatives.of_sublist (content.innerIds_core_sublist.trans hsublist)
  case case52 =>
    intro lhs c bearer content isBearer hcontent habstract hclass
    rw [bearerProductions_eq, if_neg habstract, hcontent]
    have hsublist := bearer.innerIds_classContent_sublist
    rw [hcontent] at hsublist
    exact hclass.of_sublist hsublist
  case case53 =>
    intro lhs c content isBearer branches hbranches hconstruct
    rw [classProductions_some sc lhs c isBearer hbranches]
    exact hconstruct.of_sublist (Expr.idsAll_classAlternatives_sublist hbranches)
  case case54 =>
    intro lhs c content isBearer hbranches hconstruct
    rw [classProductions_none sc lhs c isBearer hbranches]
    refine hconstruct.bind_nil_right fun a => ?_
    exact produce_extends lhs _ [] (by simp [Assembly.construct])
  case case55 =>
    intro lhs c
    rw [constructBranches]
    exact .pure (List.Subset.refl _)
  case case56 =>
    intro lhs c branch rest hbranch hrest
    rw [constructBranches, Expr.idsAll_cons]
    refine Extending.bind (hbranch.of_sublist branch.innerIds_sublist) fun a => ?_
    exact (produce_extends lhs _ [] (by simp [Assembly.construct])).bind_nil_left fun _ => hrest

/-! ## Rules -/

theorem ruleProductions_extends (body : Expr) :
    Extending sc body.ids [] (ruleProductions sc body) fun _ => [] := by
  obtain ⟨-, -, -, -, hflatten, -, -, halternatives, -, -, -, -, -, -, -, hbearer, hclass, -⟩ :=
    @valued_extends sc
  unfold ruleProductions
  cases sc.rule.role with
  | builds c => exact (hclass _ c body false).of_sublist body.innerIds_sublist
  | polymorphic c | tagged c =>
    exact (halternatives _ c body.core).of_sublist
      (body.innerIds_core_sublist.trans body.innerIds_sublist)
  | passthrough =>
    dsimp only
    split
    · refine Extending.bearerClass fun c _ => ?_
      exact (hbearer _ c body).of_sublist body.innerIds_sublist
    · refine Extending.bind_nil_right
        ((hflatten body #[]).of_sublist body.innerIds_sublist) fun ⟨terms, position⟩ => ?_
      refine Extending.forwarding fun action haction => ?_
      exact produce_extends _ _ [] haction

/-- What lowering a rule of a draft needs to know. -/
def scopeFor (m : GrammarModel) (preferences : LoweringPreferences) (d : ProductionDraft)
    (rule : RuleModel) : LoweringScope :=
  ⟨m, rule, (d.nonterminals.getD rule.id default).name, preferences.synthesizedRules⟩

theorem lowerRules_extends {m : GrammarModel} {preferences : LoweringPreferences} {u : Unit}
    (hm : m.Numbered) (hsize : m.rules.size ≤ d.nonterminals.size)
    (h : lowerRules m preferences d = .ok u d') :
    d.Extends (fun n => ∃ rule ∈ m.rules.toList, (scopeFor m preferences d rule).Synthesizes n) m
      (m.grammar.rules.toList.flatMap fun rule => rule.body.ids) [] [] d' := by
  have hzip : m.grammar.rules.toList = (m.rules.toList.zip m.grammar.rules.toList).map (·.2) := by
    rw [List.map_snd_zip]
    simp [hm.rules_size]
  have hall : ∀ entry ∈ m.rules.toList.zip m.grammar.rules.toList,
      entry.1 ∈ m.rules.toList ∧ entry.1.id < d.nonterminals.size := fun entry hentry =>
    ⟨(List.of_mem_zip hentry).1, Nat.lt_of_lt_of_le (hm.of_mem_zip hentry).1 hsize⟩
  unfold lowerRules at h
  rw [hzip, List.flatMap_map]
  generalize m.rules.toList.zip m.grammar.rules.toList = entries at h hall
  -- the names of the rules' nonterminals stay what they were when the first rule was lowered
  suffices hgoal : ∀ d₀, ProductionDraft.Grows d d₀ → ∀ u,
      (entries.forM fun entry => (do
        let owner := ((← get).nonterminals.getD entry.1.id default).name
        ruleProductions ⟨m, entry.1, owner, preferences.synthesizedRules⟩ entry.2.body
          : Lowering Unit)) d₀ = .ok u d' →
      d₀.Extends (fun n => ∃ rule ∈ m.rules.toList, (scopeFor m preferences d rule).Synthesizes n)
        m (entries.flatMap fun entry => entry.2.body.ids) [] [] d' from
    hgoal d (.refl d) u h
  clear h hzip
  induction entries with
  | nil =>
    intro d₀ _ u h
    simp only [List.forM_eq_forM, List.forM_nil, pure_eq_ok] at h
    obtain ⟨-, rfl⟩ := h
    exact .same d₀ (List.nil_subset _)
  | cons entry rest ih =>
    intro d₀ hgrows u h
    obtain ⟨⟨hmem, hlt⟩, hrest⟩ := List.forall_mem_cons.mp hall
    simp only [List.forM_eq_forM, List.forM_cons, bind_eq_ok, get_eq_ok] at h
    obtain ⟨_, d₁, ⟨_, _, ⟨rfl, rfl⟩, hrule⟩, hafter⟩ := h
    have hextends := ruleProductions_extends entry.2.body hrule
    have hscope : (⟨m, entry.1, (d₀.nonterminals.getD entry.1.id default).name,
        preferences.synthesizedRules⟩ : LoweringScope) = scopeFor m preferences d entry.1 := by
      rw [scopeFor, Array.getD_eq_getD_getElem?, Array.getD_eq_getD_getElem?,
        hgrows.keeps_nonterminal _ hlt]
    rw [hscope] at hextends
    rw [List.flatMap_cons]
    exact (hextends.imp fun n hn => ⟨entry.1, hmem, hn⟩).trans
      (ih hrest d₁ (hgrows.trans hextends.toGrows) _ hafter)

end Lowering

end AnnotatedGrammar
