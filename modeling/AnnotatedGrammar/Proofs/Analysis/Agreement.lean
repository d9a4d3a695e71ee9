import Mathlib.Data.List.Forall2
import AnnotatedGrammar.Proofs.Analysis.Settled

/-!
# Values and operands of settled expressions

The lowering asks for values again, and it collapses quantifiers that the analysis took one by one.
Both come to what was settled: the values agree, and the operand of collapsed quantifiers is an
element, or part of a class, in its own right.
-/

namespace AnnotatedGrammar

/-- The cardinality that a quantifier gives a single item. -/
def Quantifier.cardinality : Quantifier → Cardinality
  | optional => .optional
  | zeroOrMore | oneOrMore => .list

theorem Quantifier.cardinality_ofRepetition (kind : Repetition) :
    (ofRepetition kind).cardinality = .list := by
  cases kind <;> rfl

theorem optionRel_refl {α : Type} {r : α → α → Prop} (h : ∀ a, r a a) (v : Option α) :
    Option.Rel r v v := by
  cases v with
  | none => exact .none
  | some a => exact .some (h a)

theorem Value.agrees_refl {strict : Prop} (v : Option Value) :
    Option.Rel (Value.Agrees strict) v v :=
  optionRel_refl Value.Agrees.refl v

theorem Value.wrapped_combine (v : Value) (outer inner : Quantifier) :
    v.wrapped (outer.combine inner).cardinality =
      (v.wrapped inner.cardinality).wrapped outer.cardinality := by
  obtain ⟨element, cardinality⟩ := v
  cases outer <;> cases inner <;> cases cardinality <;> rfl

theorem MarkerKey.word_injective : Function.Injective MarkerKey.word := by
  intro key key' h
  cases key <;> cases key' <;> first | rfl | (revert h; decide)

namespace Expr

theorem NoFieldMarkers.not_carries {e : Expr} (h : e.NoFieldMarkers) :
    e.carriesOnlyFieldMarkers = false := by
  unfold carriesOnlyFieldMarkers isUnmarked
  cases hmarkers : e.markers with
  | nil => simp
  | cons first rest =>
    have hfirst : (fieldMarkers.any fun key => first.key == key.word) = false := by
      rw [List.any_eq_false]
      intro key hkey hword
      have hnone := h key hkey
      simp [hasMarker, marker?, hmarkers, hword] at hnone
    simp [hfirst]

theorem NoFieldMarkers.isTransparent_eq {e : Expr} (h : e.NoFieldMarkers) (carrier : Bool) :
    e.isTransparent carrier = e.isUnmarked := by
  simp [isTransparent, h.not_carries]

theorem hasMarker_of_isUnmarked {e : Expr} (h : e.isUnmarked = true) (key : MarkerKey) :
    e.hasMarker key = false := by
  have hmarkers : e.markers = [] := by simpa [isUnmarked] using h
  simp [hasMarker, marker?, hmarkers]

theorem hasMarker_of_carriesOnlyFieldMarkers {e : Expr} (h : e.carriesOnlyFieldMarkers = true)
    {key : MarkerKey} (hkey : key ∉ fieldMarkers) : e.hasMarker key = false := by
  unfold carriesOnlyFieldMarkers at h
  rw [Bool.and_eq_true, List.all_eq_true] at h
  unfold hasMarker marker?
  rw [Option.isSome_eq_false_iff, Option.isNone_iff_eq_none, List.find?_eq_none]
  intro marker hmarker hword
  obtain ⟨found, hfound, hfoundWord⟩ := List.any_eq_true.mp (h.2 marker hmarker)
  have hsame : key.word = found.word := by
    rw [← eq_of_beq hword]
    exact eq_of_beq hfoundWord
  exact hkey (MarkerKey.word_injective hsame ▸ hfound)

theorem isFieldElement_of_carriesOnlyFieldMarkers {e : Expr}
    (h : e.carriesOnlyFieldMarkers = true) : e.isFieldElement = true := by
  unfold carriesOnlyFieldMarkers isUnmarked at h
  rw [Bool.and_eq_true] at h
  obtain ⟨hmarked, hall⟩ := h
  cases hmarkers : e.markers with
  | nil => simp [hmarkers] at hmarked
  | cons first rest =>
    rw [hmarkers, List.all_cons, Bool.and_eq_true] at hall
    obtain ⟨key, hkey, hword⟩ := List.any_eq_true.mp hall.1
    have hhas : e.hasMarker key = true := by
      simp [hasMarker, marker?, hmarkers, hword]
    have hany : fieldMarkers.any e.hasMarker = true := List.any_eq_true.mpr ⟨key, hkey, hhas⟩
    simp [isFieldElement, hany]

/-- Whether a quantified expression yields one value for each match depends on the operand alone. -/
theorem isSimpleChain_congr {e e' : Expr} (h : e.quantifiedAtom = e'.quantifiedAtom) :
    e.isSimpleChain = e'.isSimpleChain := by
  unfold isSimpleChain
  rw [h]

/-! Collapsing goes through quantifiers and parentheses without markers, and ends at others. -/

theorem absorb_optional (quantifier : Quantifier) (carrier : Option Expr) {info : NodeInfo}
    {body : Expr} (h : info.markers.isEmpty = true) :
    (optional info body).absorb quantifier carrier =
      { body.absorb (quantifier.combine .optional) carrier with
        absorbed := ⟨quantifier, .optional⟩ ::
          (body.absorb (quantifier.combine .optional) carrier).absorbed } := by
  have hunmarked : (optional info body).isUnmarked = true := h
  simp [absorb, isTransparent, hunmarked, Absorption.result]

theorem absorb_repeated (quantifier : Quantifier) (carrier : Option Expr) {info : NodeInfo}
    {body : Expr} {kind : Repetition} (h : info.markers.isEmpty = true) :
    (repeated info body kind).absorb quantifier carrier =
      { body.absorb (quantifier.combine (.ofRepetition kind)) carrier with
        absorbed := ⟨quantifier, .ofRepetition kind⟩ ::
          (body.absorb (quantifier.combine (.ofRepetition kind)) carrier).absorbed } := by
  have hunmarked : (repeated info body kind).isUnmarked = true := h
  simp [absorb, isTransparent, hunmarked, Absorption.result]

theorem absorb_group (quantifier : Quantifier) (carrier : Option Expr) {info : NodeInfo}
    {body : Expr} (h : info.markers.isEmpty = true) :
    (group info body).absorb quantifier carrier = body.absorb quantifier carrier := by
  have hunmarked : (group info body).isUnmarked = true := h
  simp [absorb, hunmarked]

theorem absorb_optional_carrier (quantifier : Quantifier) {info : NodeInfo} {body : Expr}
    (h : ¬info.markers.isEmpty = true)
    (hcarries : (optional info body).carriesOnlyFieldMarkers = true) :
    (optional info body).absorb quantifier none =
      { body.absorb (quantifier.combine .optional) (some (optional info body)) with
        absorbed := ⟨quantifier, .optional⟩ ::
          (body.absorb (quantifier.combine .optional) (some (optional info body))).absorbed } := by
  have hunmarked : ¬(optional info body).isUnmarked = true := h
  simp [absorb, isTransparent, hunmarked, hcarries, Absorption.result]

theorem absorb_repeated_carrier (quantifier : Quantifier) {info : NodeInfo} {body : Expr}
    {kind : Repetition} (h : ¬info.markers.isEmpty = true)
    (hcarries : (repeated info body kind).carriesOnlyFieldMarkers = true) :
    (repeated info body kind).absorb quantifier none =
      { body.absorb (quantifier.combine (.ofRepetition kind)) (some (repeated info body kind)) with
        absorbed := ⟨quantifier, .ofRepetition kind⟩ ::
          (body.absorb (quantifier.combine (.ofRepetition kind))
            (some (repeated info body kind))).absorbed } := by
  have hunmarked : ¬(repeated info body kind).isUnmarked = true := h
  simp [absorb, isTransparent, hunmarked, hcarries, Absorption.result]

theorem absorb_of_marked (quantifier : Quantifier) (carrier : Option Expr) {e : Expr}
    (h : e.isTransparent carrier.isSome = false) (hmarked : e.isUnmarked = false) :
    e.absorb quantifier carrier = ⟨e, quantifier, carrier, []⟩ := by
  cases e <;> simp [absorb, h, hmarked]

end Expr

namespace Settled

variable {strict : Prop} {m : GrammarModel} {c : ClassId} {e : Expr} {allowed : Bool}
  {v : Option Value}

/-! ## Values -/

theorem Recorded.valueOf? (h : Recorded strict m e v) :
    Option.Rel (Value.Agrees strict) v (m.valueOf? e) := by
  obtain ⟨w, hw, hagrees⟩ := h
  rw [GrammarModel.valueOf?, hw]
  exact hagrees

theorem Element.recorded (h : Element strict m allowed e v) : Recorded strict m e v := by
  cases h <;> assumption

theorem Element.valueOf? (h : Element strict m allowed e v) :
    Option.Rel (Value.Agrees strict) v (m.valueOf? e) :=
  h.recorded.valueOf?

theorem Element.noFieldMarkers (h : Element strict m false e v) : e.NoFieldMarkers := by
  cases h with
  | skipped hskip hallowed hrecorded => exact hallowed rfl
  | bearing hskip hmarker hallowed hrecorded hbearer => exact hallowed rfl
  | shaped hskip hmarker hallowed hrecorded hshape => exact hallowed rfl

theorem Elements.valuesOf {items : List Expr} {vs : List (Option Value)}
    (h : Elements strict m items vs) :
    List.Forall₂ (Value.Agrees strict) (vs.filterMap fun v => v) (m.valuesOf items) := by
  induction items generalizing vs with
  | nil =>
    cases h
    rw [GrammarModel.valuesOf]
    exact .nil
  | cons e rest ih =>
    cases h with
    | cons hfirst hrest =>
      rename_i v vs
      rw [GrammarModel.valuesOf]
      have hvalue := hfirst.valueOf?
      cases v with
      | none =>
        cases hvalue' : m.valueOf? e with
        | none => simpa using ih hrest
        | some w => rw [hvalue'] at hvalue; cases hvalue
      | some u =>
        cases hvalue' : m.valueOf? e with
        | none => rw [hvalue'] at hvalue; cases hvalue
        | some w =>
          rw [hvalue'] at hvalue
          cases hvalue with
          | some hagrees => exact .cons hagrees (ih hrest)

/-- Asking for the value of a shape again gives a value that agrees. -/
theorem Shape.shapeValue? (h : Shape strict m e v) :
    Option.Rel (Value.Agrees strict) v (m.shapeValue? e) := by
  have hwrapped {body : Expr} {v : Option Value} (outer : Cardinality)
      (h : Element strict m false body v) : Option.Rel (Value.Agrees strict)
        (v.map (·.wrapped outer)) ((m.valueOf? body).map (·.wrapped outer)) := by
    have hvalue := h.valueOf?
    generalize m.valueOf? body = w at hvalue ⊢
    cases hvalue with
    | none => exact .none
    | some hagrees => exact .some (hagrees.wrapped outer)
  cases h with
  | fieldLiteral hmarker =>
    rw [GrammarModel.shapeValue?, if_pos hmarker]
    exact Value.agrees_refl _
  | literal hmarker =>
    rw [GrammarModel.shapeValue?, if_neg hmarker]
    exact Value.agrees_refl _
  | pattern =>
    rw [GrammarModel.shapeValue?]
    exact Value.agrees_refl _
  | reference =>
    rw [GrammarModel.shapeValue?]
    exact Value.agrees_refl _
  | group hbody =>
    rw [GrammarModel.shapeValue?]
    exact hbody.valueOf?
  | sequence hitems hvalue =>
    have hvalues := hitems.valuesOf
    rw [GrammarModel.shapeValue?]
    rw [hvalue] at hvalues
    cases v with
    | none =>
      cases hfound : m.valuesOf _ with
      | nil => exact .none
      | cons w rest => rw [hfound] at hvalues; cases hvalues
    | some u =>
      rw [Option.toList_some] at hvalues
      cases hfound : m.valuesOf _ with
      | nil => rw [hfound] at hvalues; cases hvalues
      | cons w rest =>
        rw [hfound] at hvalues
        cases hvalues with
        | cons hagrees hrest =>
          cases hrest
          exact .some hagrees
  | optional hbody =>
    rw [GrammarModel.shapeValue?]
    exact hwrapped _ hbody
  | repeated hbody =>
    rw [GrammarModel.shapeValue?]
    exact hwrapped _ hbody
  | alternation hbranches hnone hclass =>
    rw [GrammarModel.shapeValue?, hclass]
    exact .none
  | choice hclass hchoice =>
    rw [GrammarModel.shapeValue?, hclass]
    exact .some (.refl _)

/-! ## Operands -/

theorem Element.ofUnmarked (h : Element strict m allowed e v) (hunmarked : e.isUnmarked = true) :
    Shape strict m e v := by
  cases h with
  | skipped hskip => simp [Expr.hasMarker_of_isUnmarked hunmarked] at hskip
  | bearing _ hmarker => simp [Expr.hasMarker_of_isUnmarked hunmarked] at hmarker
  | shaped _ _ _ _ hshape => exact hshape

/-- A value that an item of another value may have. -/
structure Within (v w : Value) : Prop where
  element_eq : w.element = v.element
  rank_le : w.cardinality.rank ≤ v.cardinality.rank

theorem Within.trans {u v w : Value} (h : Within u v) (h' : Within v w) : Within u w :=
  ⟨h'.element_eq.trans h.element_eq, Nat.le_trans h'.rank_le h.rank_le⟩

theorem Within.wrapped (v : Value) (outer : Cardinality) : Within (v.wrapped outer) v :=
  ⟨rfl, Value.rank_le_wrap outer v.cardinality⟩

theorem within_refl (v : Option Value) : Option.Rel Within v v :=
  optionRel_refl (fun _ => ⟨rfl, Nat.le_refl _⟩) v

theorem Within.ofWrapped {outer : Cardinality} {w : Option Value} (h : Option.Rel Within v w) :
    Option.Rel Within (v.map (·.wrapped outer)) w := by
  cases h with
  | none => exact .none
  | some hwithin => exact .some ((Within.wrapped _ outer).trans hwithin)

theorem FillsWith.within {w : Option Value} (h : FillsWith strict m c e v)
    (hwithin : Option.Rel Within v w) : FillsWith strict m c e w := by
  intro f hf
  obtain ⟨u, rfl, htakes⟩ := h f hf
  cases hwithin with
  | some hw =>
    refine ⟨_, rfl, Nat.le_trans hw.rank_le htakes.rank_le, fun hstrict => ?_⟩
    rw [htakes.element_eq hstrict, hw.element_eq]

variable (strict m) in
/-- What collapsing the quantifiers around an element with value `v` comes to: an operand with
value `w`. -/
structure Collapses (e : Expr) (v : Option Value) (quantifier : Quantifier) (found : Collapsed)
    (w : Option Value) : Prop where
  atom_eq : found.atom = e.operand
  element : Element strict m false found.atom w
  wrapped_eq : v.map (·.wrapped quantifier.cardinality) =
    w.map (·.wrapped found.quantifier.cardinality)
  within : Option.Rel Within v w

/-- The operand of the quantifiers around an element without field markers is an element as well. -/
theorem Element.absorb (h : Element strict m false e v) (quantifier : Quantifier)
    (carrier : Option Expr) :
    (e.absorb quantifier carrier).carrier = carrier ∧
      ∃ w, Collapses strict m e v quantifier (e.absorb quantifier carrier) w := by
  have hself {e : Expr} {v : Option Value} (quantifier : Quantifier)
      (h : Element strict m false e v) (hoperand : e = e.operand) :
      Collapses strict m e v quantifier ⟨e, quantifier, carrier, []⟩ v :=
    ⟨hoperand, h, rfl, within_refl v⟩
  have hmarked {e : Expr} {v : Option Value} (quantifier : Quantifier)
      (h : Element strict m false e v) (hunmarked : ¬e.isUnmarked = true) :
      e.absorb quantifier carrier = ⟨e, quantifier, carrier, []⟩ :=
    Expr.absorb_of_marked quantifier carrier (by
      rw [h.noFieldMarkers.isTransparent_eq]
      simpa using hunmarked) (by simpa using hunmarked)
  fun_induction Expr.operand e generalizing quantifier v with
  | case1 info body hunmarked ih =>
    cases h.ofUnmarked hunmarked with
    | optional hbody =>
      rename_i u
      obtain ⟨hcarrier, w, hw⟩ := ih hbody (quantifier.combine .optional)
      rw [Expr.absorb_optional quantifier carrier hunmarked]
      refine ⟨hcarrier, w, ?_, hw.element, ?_, Within.ofWrapped hw.within⟩
      · rw [Expr.operand, if_pos hunmarked]
        exact hw.atom_eq
      · rw [← hw.wrapped_eq]
        cases u with
        | none => rfl
        | some x => exact congrArg some (x.wrapped_combine quantifier .optional).symm
  | case3 info body kind hunmarked ih =>
    cases h.ofUnmarked hunmarked with
    | repeated hbody =>
      rename_i u
      obtain ⟨hcarrier, w, hw⟩ := ih hbody (quantifier.combine (.ofRepetition kind))
      rw [Expr.absorb_repeated quantifier carrier hunmarked]
      refine ⟨hcarrier, w, ?_, hw.element, ?_, Within.ofWrapped hw.within⟩
      · rw [Expr.operand, if_pos hunmarked]
        exact hw.atom_eq
      · rw [← hw.wrapped_eq]
        cases u with
        | none => rfl
        | some x =>
          have hcombine := x.wrapped_combine quantifier (.ofRepetition kind)
          rw [Quantifier.cardinality_ofRepetition] at hcombine
          exact congrArg some hcombine.symm
  | case5 info body hunmarked ih =>
    cases h.ofUnmarked hunmarked with
    | group hbody =>
      obtain ⟨hcarrier, w, hw⟩ := ih hbody quantifier
      rw [Expr.absorb_group quantifier carrier hunmarked]
      refine ⟨hcarrier, w, ?_, hw.element, hw.wrapped_eq, hw.within⟩
      rw [Expr.operand, if_pos hunmarked]
      exact hw.atom_eq
  | case2 info body hunmarked | case4 info body kind hunmarked | case6 info body hunmarked =>
    rw [hmarked quantifier h hunmarked]
    exact ⟨rfl, v, hself quantifier h (by rw [Expr.operand, if_neg hunmarked])⟩
  | case7 e hoptional hrepeated hgroup =>
    rw [Expr.absorb]
    · exact ⟨rfl, v, hself quantifier h (by
        rw [Expr.operand]
        · exact hoptional
        · exact hrepeated
        · exact hgroup)⟩
    · exact hoptional
    · exact hrepeated
    · exact hgroup

/-- Without a class of its own, an element has the value of its shape or is skipped. -/
theorem Element.shape_of_unmarked (h : Element strict m allowed e v)
    (hmarker : ¬e.hasMarker .classOf = true) : v = none ∨ Shape strict m e v := by
  cases h with
  | skipped => exact .inl rfl
  | bearing _ hmarker' => exact absurd hmarker' hmarker
  | shaped _ _ _ _ hshape => exact .inr hshape

theorem Content.ofNeither {isBearer : Bool} (h : Content strict m c e isBearer)
    (hskip : ¬(!isBearer && e.hasMarker .skip) = true)
    (hfield : ¬(!isBearer && e.isFieldElement) = true) : Parts strict m c e isBearer := by
  cases h with
  | skipped hskip' => exact absurd hskip' hskip
  | field _ hfield' => exact absurd hfield' hfield
  | parts _ _ hparts => exact hparts

theorem Content.ofUnmarked {isBearer : Bool} (h : Content strict m c e isBearer)
    (hunmarked : e.isUnmarked = true) : Parts strict m c e isBearer := by
  cases h with
  | skipped hskip => simp [Expr.hasMarker_of_isUnmarked hunmarked] at hskip
  | field _ hfield =>
    simp [Expr.isFieldElement, Expr.hasMarker_of_isUnmarked hunmarked] at hfield
  | parts _ _ hparts => exact hparts

/-- An element that carries field markers and nothing else, with the value of its shape. -/
theorem Content.ofCarrier {isBearer : Bool} (h : Content strict m c e isBearer)
    (hcarries : e.carriesOnlyFieldMarkers = true) (hbearer : isBearer = false) :
    ∃ v, Shape strict m e v ∧ FillsWith strict m c e v := by
  subst hbearer
  have hskip : e.hasMarker .skip = false :=
    Expr.hasMarker_of_carriesOnlyFieldMarkers hcarries (by decide)
  have hclass : e.hasMarker .classOf = false :=
    Expr.hasMarker_of_carriesOnlyFieldMarkers hcarries (by decide)
  have hfield := Expr.isFieldElement_of_carriesOnlyFieldMarkers hcarries
  cases h with
  | skipped hskip' => simp [hskip] at hskip'
  | parts _ hfield' => simp [hfield] at hfield'
  | field _ _ helement hfills =>
    cases helement with
    | skipped hskip' => simp [hskip] at hskip'
    | bearing _ hmarker => simp [hclass] at hmarker
    | shaped _ _ _ _ hshape => exact ⟨_, hshape, hfills⟩

/-- Collapsing the quantifiers around a part of a class: the operand is a part of the class, unless
a marked quantifier was taken up; that quantifier then fills its field from the operand. -/
theorem Content.absorb (h : Content strict m c e false)
    (hsimple : ¬(Expr.optional default e).isSimpleChain = true) (quantifier : Quantifier) :
    ((e.absorb quantifier none).carrier = none ∧
        Content strict m c (e.absorb quantifier none).atom false) ∨
      ∃ carrier w, (e.absorb quantifier none).carrier = some carrier ∧
        Element strict m false (e.absorb quantifier none).atom w ∧
        FillsWith strict m c carrier w ∧
        carrier.quantifiedAtom = (e.absorb quantifier none).atom ∧ carrier ∈ e.preorder := by
  have hmarked {e : Expr} (quantifier : Quantifier) (h : Content strict m c e false)
      (hunmarked : ¬e.isUnmarked = true) (hcarries : ¬e.carriesOnlyFieldMarkers = true) :
      (e.absorb quantifier none).carrier = none ∧
        Content strict m c (e.absorb quantifier none).atom false := by
    rw [Expr.absorb_of_marked quantifier none (by simp [Expr.isTransparent, hunmarked, hcarries])
      (by simpa using hunmarked)]
    exact ⟨rfl, h⟩
  fun_induction Expr.operand e generalizing quantifier with
  | case1 info body hunmarked ih =>
    have hatom : (Expr.optional default (Expr.optional info body)).quantifiedAtom =
        (Expr.optional info body).quantifiedAtom := by
      simp only [Expr.quantifiedAtom]
      rw [Expr.operand, if_pos hunmarked]
    rw [Expr.isSimpleChain_congr hatom] at hsimple
    rw [Expr.absorb_optional quantifier none hunmarked]
    cases h.ofUnmarked hunmarked with
    | own hunit => exact absurd hunit hsimple
    | optional _ hbody =>
      rcases ih hbody hsimple (quantifier.combine .optional) with hnone | ⟨q, w, hq, hrest⟩
      · exact .inl hnone
      · exact .inr ⟨q, w, hq, hrest.1, hrest.2.1, hrest.2.2.1,
          List.mem_cons_of_mem _ hrest.2.2.2⟩
  | case3 info body kind hunmarked ih =>
    have hatom : (Expr.optional default (Expr.repeated info body kind)).quantifiedAtom =
        (Expr.repeated info body kind).quantifiedAtom := by
      simp only [Expr.quantifiedAtom]
      rw [Expr.operand, if_pos hunmarked]
    rw [Expr.isSimpleChain_congr hatom] at hsimple
    rw [Expr.absorb_repeated quantifier none hunmarked]
    cases h.ofUnmarked hunmarked with
    | own hunit => exact absurd hunit hsimple
    | repeated _ hbody =>
      rcases ih hbody hsimple (quantifier.combine (.ofRepetition kind)) with
        hnone | ⟨q, w, hq, hrest⟩
      · exact .inl hnone
      · exact .inr ⟨q, w, hq, hrest.1, hrest.2.1, hrest.2.2.1,
          List.mem_cons_of_mem _ hrest.2.2.2⟩
  | case5 info body hunmarked ih =>
    have hatom : (Expr.optional default (Expr.group info body)).quantifiedAtom =
        (Expr.optional default body).quantifiedAtom := by
      simp only [Expr.quantifiedAtom]
      rw [Expr.operand, if_pos hunmarked]
    rw [Expr.isSimpleChain_congr hatom] at hsimple
    rw [Expr.absorb_group quantifier none hunmarked]
    cases h.ofUnmarked hunmarked with
    | own hunit => exact hunit.elim
    | group hbody =>
      rcases ih hbody hsimple quantifier with hnone | ⟨q, w, hq, hrest⟩
      · exact .inl hnone
      · exact .inr ⟨q, w, hq, hrest.1, hrest.2.1, hrest.2.2.1,
          List.mem_cons_of_mem _ hrest.2.2.2⟩
  | case2 info body hunmarked =>
    by_cases hcarries : (Expr.optional info body).carriesOnlyFieldMarkers = true
    · obtain ⟨v, hshape, hfills⟩ := h.ofCarrier hcarries rfl
      cases hshape with
      | optional hbody =>
        obtain ⟨hcarrier, w, hw⟩ :=
          hbody.absorb (quantifier.combine .optional) (some (Expr.optional info body))
        rw [Expr.absorb_optional_carrier quantifier hunmarked hcarries]
        exact .inr ⟨_, w, hcarrier, hw.element, hfills.within (Within.ofWrapped hw.within),
          hw.atom_eq.symm, Expr.self_mem_preorder _⟩
    · exact .inl (hmarked quantifier h hunmarked hcarries)
  | case4 info body kind hunmarked =>
    by_cases hcarries : (Expr.repeated info body kind).carriesOnlyFieldMarkers = true
    · obtain ⟨v, hshape, hfills⟩ := h.ofCarrier hcarries rfl
      cases hshape with
      | repeated hbody =>
        obtain ⟨hcarrier, w, hw⟩ :=
          hbody.absorb (quantifier.combine (.ofRepetition kind))
            (some (Expr.repeated info body kind))
        rw [Expr.absorb_repeated_carrier quantifier hunmarked hcarries]
        exact .inr ⟨_, w, hcarrier, hw.element, hfills.within (Within.ofWrapped hw.within),
          hw.atom_eq.symm, Expr.self_mem_preorder _⟩
    · exact .inl (hmarked quantifier h hunmarked hcarries)
  | case6 info body hunmarked =>
    have habsorb : (Expr.group info body).absorb quantifier none =
        ⟨.group info body, quantifier, none, []⟩ := by
      rw [Expr.absorb, if_neg (by exact hunmarked)]
    rw [habsorb]
    exact .inl ⟨rfl, h⟩
  | case7 e hoptional hrepeated hgroup =>
    rw [Expr.absorb]
    · exact .inl ⟨rfl, h⟩
    · exact hoptional
    · exact hrepeated
    · exact hgroup

end Settled
end AnnotatedGrammar
