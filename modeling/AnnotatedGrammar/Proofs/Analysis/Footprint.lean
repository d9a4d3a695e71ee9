import Mathlib.Tactic.MkIffOfInductiveProp
import AnnotatedGrammar.Proofs.Analysis.Walk
import AnnotatedGrammar.Proofs.Syntax.Shaped

/-!
# The footprints of the walks

The walk through an expression changes what is known about the expressions in it, and the fields of
the class that is filled from it. Which it does not touch is the class of the expression itself,
unless that carries one or is an alternation.
-/

namespace AnnotatedGrammar

namespace Cell

/-- The cells for the values of some expressions and for the classes of others. -/
def known (values classes : List NodeId) : Cell → Prop
  | value id => id ∈ values
  | nodeClass id => id ∈ classes
  | filling _ _ | variants _ => False

/-- The cells for expressions that fill fields of a class. -/
def fillings (c : ClassId) (ids : List NodeId) : Cell → Prop
  | filling c' id => c' = c ∧ id ∈ ids
  | value _ | nodeClass _ | variants _ => False

theorem known_mono {values values' classes classes' : List NodeId} (hvalues : values ⊆ values')
    (hclasses : classes ⊆ classes') {cell : Cell} (h : known values classes cell) :
    known values' classes' cell := by
  cases cell with
  | value => exact hvalues h
  | nodeClass => exact hclasses h
  | filling | variants => exact h

theorem fillings_mono {c : ClassId} {ids ids' : List NodeId} (hids : ids ⊆ ids') {cell : Cell}
    (h : fillings c ids cell) : fillings c ids' cell := by
  cases cell with
  | filling => exact ⟨h.1, hids h.2⟩
  | value | nodeClass | variants => exact h

end Cell

namespace Expr

open Cell

/-- The expressions that may get a class when a value is computed from the shape. -/
def shapeClassIds (e : Expr) : List NodeId := if e.isAlternation then e.ids else e.innerIds

/-- The expressions that may get a class when the value of an element is computed. -/
def classIds (e : Expr) : List NodeId :=
  if e.hasMarker .classOf then e.ids else e.shapeClassIds

theorem innerIds_subset_shapeClassIds (e : Expr) : e.innerIds ⊆ e.shapeClassIds := by
  unfold shapeClassIds
  split
  · exact e.innerIds_subset
  · exact List.Subset.refl _

theorem shapeClassIds_subset (e : Expr) : e.shapeClassIds ⊆ e.ids := by
  unfold shapeClassIds
  split
  · exact List.Subset.refl _
  · exact e.innerIds_subset

theorem shapeClassIds_subset_classIds (e : Expr) : e.shapeClassIds ⊆ e.classIds := by
  unfold classIds
  split
  · exact e.shapeClassIds_subset
  · exact List.Subset.refl _

theorem classIds_subset (e : Expr) : e.classIds ⊆ e.ids := by
  unfold classIds
  split
  · exact List.Subset.refl _
  · exact e.shapeClassIds_subset

theorem innerIds_core_subset (e : Expr) : e.core.innerIds ⊆ e.innerIds := by
  cases e with
  | group info body =>
    unfold core stripGroups
    split
    · exact List.Subset.refl _
    · rw [innerIds_group]
      exact List.Subset.trans (innerIds_subset _) (ids_core_sublist body).subset
  | _ => exact List.Subset.refl _

theorem innerIds_classContent_subset (e : Expr) : e.classContent.1.innerIds ⊆ e.innerIds := by
  cases e with
  | group info body =>
    rw [innerIds_group]
    exact body.innerIds_subset
  | _ => exact List.Subset.refl _

theorem ids_classContent_subset (e : Expr) : e.classContent.1.ids ⊆ e.ids := by
  cases e with
  | group info body =>
    rw [ids_eq (group info body), innerIds_group]
    exact List.subset_cons_self _ _
  | _ => exact List.Subset.refl _

/-- The content of a class lies inside the expression that carries it, or is that expression. -/
theorem classContent_cases (e : Expr) :
    e.classContent = (e, true) ∧ (∀ info body, e ≠ group info body) ∨
      ∃ info body, e = group info body ∧ e.classContent = (body, false) := by
  cases e with
  | group info body => exact .inr ⟨info, body, rfl, rfl⟩
  | _ => exact .inl ⟨rfl, by simp⟩

theorem ids_subset_idsAll_cons (e : Expr) (rest : List Expr) : e.ids ⊆ idsAll (e :: rest) := by
  rw [idsAll_cons]
  exact List.subset_append_left _ _

theorem idsAll_subset_idsAll_cons (e : Expr) (rest : List Expr) :
    idsAll rest ⊆ idsAll (e :: rest) := by
  rw [idsAll_cons]
  exact List.subset_append_right _ _

theorem idsAll_subset_of_core {e : Expr} {info : NodeInfo} {branches : List Expr}
    (h : e.core = alternation info branches) : idsAll branches ⊆ e.innerIds := by
  have hinner := e.innerIds_core_subset
  rw [h, innerIds_alternation] at hinner
  exact hinner

theorem core_of_classAlternatives {e : Expr} {branches : List Expr}
    (h : e.classAlternatives? = some branches) : ∃ info, e.core = alternation info branches := by
  unfold classAlternatives? at h
  split at h
  · rename_i info found hcore
    obtain rfl := Option.some.inj h
    exact ⟨info, hcore⟩
  · cases h

theorem isUnit_of_other {e : Expr} (hsequence : ∀ info items, e = sequence info items → False)
    (hgroup : ∀ info body, e = group info body → False)
    (hoptional : ∀ info body, e = optional info body → False)
    (hrepeated : ∀ info body kind, e = repeated info body kind → False) : e.IsUnit := by
  cases e with
  | sequence info items => exact (hsequence info items rfl).elim
  | group info body => exact (hgroup info body rfl).elim
  | optional info body => exact (hoptional info body rfl).elim
  | repeated info body kind => exact (hrepeated info body kind rfl).elim
  | terminal | reference | alternation => trivial

/-- What computing the value of an element may change. -/
def elementCells (e : Expr) : Cell → Prop := known e.ids e.classIds

/-- What computing a value from the shape may change. -/
def shapeCells (e : Expr) : Cell → Prop := known e.innerIds e.shapeClassIds

/-- What computing the values of several elements may change. -/
def allCells (es : List Expr) : Cell → Prop := known (idsAll es) (idsAll es)

/-- What computing the value of alternatives may change. -/
def choiceCells (info : NodeInfo) (branches : List Expr) : Cell → Prop :=
  known (idsAll branches) (info.id :: idsAll branches)

/-- What making the class of an expression may change. -/
def bearerCells (e : Expr) : Cell → Prop := known e.innerIds e.ids

/-- What collecting the fields of a class from an expression may change. -/
def contentCells (c : ClassId) (e : Expr) (isBearer : Bool) (cell : Cell) : Prop :=
  (if isBearer then e.shapeCells else e.elementCells) cell ∨ fillings c e.ids cell

/-- What collecting the fields of a class from several expressions may change. -/
def contentsCells (c : ClassId) (es : List Expr) (cell : Cell) : Prop :=
  allCells es cell ∨ fillings c (idsAll es) cell

theorem shapeCells_sub {e : Expr} {cell : Cell} (h : e.shapeCells cell) : e.elementCells cell :=
  known_mono e.innerIds_subset e.shapeClassIds_subset_classIds h

theorem elementCells_sub {e : Expr} {cell : Cell} {values classes : List NodeId}
    (h : e.elementCells cell) (hvalues : e.ids ⊆ values) (hclasses : e.ids ⊆ classes) :
    known values classes cell :=
  known_mono hvalues (List.Subset.trans e.classIds_subset hclasses) h

/-- What a walk through a part changes, a walk through the whole may change. -/
theorem contentCells_sub {c : ClassId} {body e : Expr} {isBearer : Bool} {cell : Cell}
    (h : contentCells c body false cell) (hsub : body.ids ⊆ e.innerIds) :
    contentCells c e isBearer cell := by
  rcases h with h | h
  · have hshape : e.shapeCells cell :=
      elementCells_sub h hsub (List.Subset.trans hsub e.innerIds_subset_shapeClassIds)
    refine .inl ?_
    split
    · exact hshape
    · exact shapeCells_sub hshape
  · exact .inr (fillings_mono (List.Subset.trans hsub e.innerIds_subset) h)

theorem contentsCells_sub {c : ClassId} {es : List Expr} {e : Expr} {isBearer : Bool} {cell : Cell}
    (h : contentsCells c es cell) (hsub : idsAll es ⊆ e.innerIds) :
    contentCells c e isBearer cell := by
  rcases h with h | h
  · have hshape : e.shapeCells cell :=
      known_mono hsub (List.Subset.trans hsub e.innerIds_subset_shapeClassIds) h
    refine .inl ?_
    split
    · exact hshape
    · exact shapeCells_sub hshape
  · exact .inr (fillings_mono (List.Subset.trans hsub e.innerIds_subset) h)

theorem contentsCells_head {c : ClassId} {e : Expr} {rest : List Expr} {cell : Cell}
    (h : contentCells c e false cell) : contentsCells c (e :: rest) cell := by
  have hleft := ids_subset_idsAll_cons e rest
  rcases h with h | h
  · exact .inl (elementCells_sub h hleft hleft)
  · exact .inr (fillings_mono hleft h)

theorem contentsCells_tail {c : ClassId} {e : Expr} {rest : List Expr} {cell : Cell}
    (h : contentsCells c rest cell) : contentsCells c (e :: rest) cell := by
  have hright := idsAll_subset_idsAll_cons e rest
  rcases h with h | h
  · exact .inl (known_mono hright hright h)
  · exact .inr (fillings_mono hright h)

end Expr

namespace Build

open AnnotatedGrammar.Expr

variable {bodies : RuleId → List NodeId} {visit : RuleId → Build (Option Value)} {sc : RuleScope}

/-- Every walk has the frame of its footprint. -/
@[mk_iff]
structure WalkFrames (bodies : RuleId → List NodeId) (visit : RuleId → Build (Option Value))
    (sc : RuleScope) : Prop where
  elementValue : ∀ e allowed, ∀ d r d', elementValue visit sc e allowed d = (r, d') →
    d.WellFormed → Frame bodies e.elementCells d d'
  structuralValue : ∀ e, ∀ d r d', structuralValue visit sc e d = (r, d') → d.WellFormed →
    Frame bodies e.shapeCells d d'
  alternationValue : ∀ info branches hint, ∀ d r d',
    alternationValue visit sc info branches hint d = (r, d') → d.WellFormed →
      Frame bodies (choiceCells info branches) d d'
  elementValues : ∀ es, ∀ d r d', elementValues visit sc es d = (r, d') → d.WellFormed →
    Frame bodies (allCells es) d d'
  polymorphicBranches : ∀ base index branches, ∀ d u d',
    polymorphicBranches visit sc base index branches d = (u, d') → d.WellFormed →
      Frame bodies (allCells branches) d d'
  collectFields : ∀ e c outer branch isBearer, ∀ d u d',
    collectFields visit sc e c outer branch isBearer d = (u, d') → d.WellFormed →
      c < d.classes.size → Frame bodies (contentCells c e isBearer) d d'
  ownValue : ∀ e isBearer, ∀ d r d', ownValue visit sc e isBearer d = (r, d') → d.WellFormed →
    Frame bodies (if isBearer then e.shapeCells else e.elementCells) d d'
  collectItems : ∀ items c outer branch, ∀ d u d',
    collectItems visit sc items c outer branch d = (u, d') → d.WellFormed →
      c < d.classes.size → Frame bodies (contentsCells c items) d d'
  bearerClass : ∀ e, ∀ d c d', bearerClass visit sc e d = (c, d') → d.WellFormed →
    Frame bodies e.bearerCells d d'
  fillClass : ∀ c content isBearer, ∀ d u d',
    fillClass visit sc c content isBearer d = (u, d') → d.WellFormed → c < d.classes.size →
      Frame bodies (contentCells c content isBearer) d d'
  collectBranches : ∀ c index branches, ∀ d u d',
    collectBranches visit sc c index branches d = (u, d') → d.WellFormed → c < d.classes.size →
      Frame bodies (contentsCells c branches) d d'
  groupValue : ∀ body hint, ∀ d r d', groupValue visit sc body hint d = (r, d') → d.WellFormed →
    Frame bodies (Cell.known body.ids body.ids) d d'

/-- The walks have their frames, if the steps into rules change nothing but what belongs to
rules. -/
theorem walkFrames (hvisit : ∀ id d r d', visit id d = (r, d') → d.WellFormed →
      Frame bodies (fun _ => False) d d') : WalkFrames bodies visit sc := by
  have hfinish {e : Expr} {value : Option Value} {d₁ d' : Draft} (h : Finished e value d₁ d') :
      Frame bodies e.elementCells d₁ d' :=
    (h.quiet (S := e.elementCells) e.id_mem_ids).frame bodies
  have hadded {e : Expr} {c : ClassId} {outer : Cardinality} {branch : Nat} {isBearer own : Bool}
      {v : Option Value} {u : Unit} {d d₁ d' : Draft}
      (h₁ : Frame bodies (contentCells c e isBearer) d d₁)
      (hadd : addField c e v outer branch own d₁ = (u, d')) (hwf : d.WellFormed)
      (hc : c < d.classes.size) : Frame bodies (contentCells c e isBearer) d d' :=
    h₁.trans ((addField_quiet hadd (h₁.wellFormed hwf) (Nat.lt_of_lt_of_le hc h₁.classes_le)
      (.inr ⟨rfl, e.id_mem_ids⟩)).frame bodies)
  have hcons {e : Expr} {rest : List Expr} {c : ClassId} {d d₁ d' : Draft}
      (h₁ : Frame bodies (contentCells c e false) d d₁)
      (h₂ : Frame bodies (contentsCells c rest) d₁ d') :
      Frame bodies (contentsCells c (e :: rest)) d d' :=
    h₁.comp h₂ (fun _ _ => contentsCells_head) fun _ _ => contentsCells_tail
  have hunit {e : Expr} {c : ClassId} {outer : Cardinality} {branch : Nat} {isBearer : Bool}
      {u : Unit} {d d' : Draft} (hunit : e.IsUnit)
      (hskip : ¬(!isBearer && e.hasMarker .skip) = true)
      (hfield : ¬(!isBearer && e.isFieldElement) = true)
      (ih : ∀ d r d', ownValue visit sc e isBearer d = (r, d') → d.WellFormed →
        Frame bodies (if isBearer then e.shapeCells else e.elementCells) d d')
      (h : collectFields visit sc e c outer branch isBearer d = (u, d')) (hwf : d.WellFormed)
      (hc : c < d.classes.size) : Frame bodies (contentCells c e isBearer) d d' := by
    rw [collectFields_unit hskip hfield hunit] at h
    obtain ⟨v, d₁, hvalue, hadd⟩ := bind_eq.mp h
    exact hadded ((ih d v d₁ hvalue hwf).mono fun cell _ hcell => .inl hcell) hadd hwf hc
  rw [walkFrames_iff]
  apply elementValue.mutual_induct visit sc
  case case1 =>
    intro e allowed hskip d r d' h hwf
    rw [elementValue] at h
    simp only [if_pos hskip, bind_eq, pure_eq] at h
    obtain ⟨_, _, ⟨rfl, rfl⟩, h⟩ := h
    exact hfinish (finishElement_spec h).2.1
  case case2 =>
    intro e allowed hskip hmarker ih d r d' h hwf
    rw [elementValue] at h
    simp only [if_neg hskip, if_pos hmarker, bind_eq, map_eq] at h
    obtain ⟨v, d₁, ⟨c, hbearer, -⟩, h⟩ := h
    refine (ih d c d₁ hbearer hwf).comp (hfinish (finishElement_spec h).2.1) ?_ fun _ _ h => h
    intro cell _ hcell
    refine Cell.known_mono e.innerIds_subset ?_ hcell
    rw [classIds, if_pos hmarker]
    exact List.Subset.refl _
  case case3 =>
    intro e allowed hskip hmarker ih d r d' h hwf
    rw [elementValue] at h
    simp only [if_neg hskip, if_neg hmarker, bind_eq] at h
    obtain ⟨v, d₁, hshape, h⟩ := h
    exact (ih d v d₁ hshape hwf).comp (hfinish (finishElement_spec h).2.1)
      (fun _ _ h => shapeCells_sub h) fun _ _ h => h
  case case4 =>
    intro info text d r d' h hwf
    rw [structuralValue] at h
    obtain ⟨-, rfl⟩ := pure_eq.mp h
    exact .refl _ _ _
  case case5 =>
    intro info p d r d' h hwf
    rw [structuralValue] at h
    obtain ⟨-, rfl⟩ := pure_eq.mp h
    exact .refl _ _ _
  case case6 =>
    intro info name p hname d r d' h hwf
    rw [structuralValue] at h
    rw [hname] at h
    obtain ⟨-, rfl⟩ := pure_eq.mp h
    exact .refl _ _ _
  case case7 =>
    intro info name id hname d r d' h hwf
    rw [structuralValue] at h
    rw [hname] at h
    exact (hvisit id d r d' h hwf).mono fun _ _ h => h.elim
  case case8 =>
    intro info name hname d r d' h hwf
    rw [structuralValue] at h
    rw [hname] at h
    obtain ⟨-, rfl⟩ := pure_eq.mp h
    exact .refl _ _ _
  case case9 =>
    intro info body ih d r d' h hwf
    rw [structuralValue] at h
    have hsub : body.ids ⊆ (group info body).innerIds := by
      rw [innerIds_group]
      exact List.Subset.refl _
    exact (ih d r d' h hwf).mono fun cell _ hcell =>
      Cell.known_mono hsub (List.Subset.trans hsub (innerIds_subset_shapeClassIds _)) hcell
  case case10 =>
    intro info items ih d r d' h hwf
    rw [structuralValue] at h
    obtain ⟨values, d₁, hvalues, hsingle⟩ := bind_eq.mp h
    refine (ih d values d₁ hvalues hwf).comp
      ((singleValue_spec hsingle).1.quiet (S := shapeCells (sequence info items)).frame bodies) ?_
      fun _ _ h => h
    intro cell _ hcell
    exact Cell.known_mono (List.Subset.refl _) (innerIds_subset_shapeClassIds _) hcell
  case case11 =>
    intro info branches ih d r d' h hwf
    rw [structuralValue] at h
    refine (ih d r d' h hwf).mono fun cell _ hcell => Cell.known_mono (List.Subset.refl _) ?_ hcell
    rw [shapeClassIds, isAlternation, if_pos rfl, ids_eq]
    exact List.Subset.refl _
  case case12 =>
    intro info body ih d r d' h hwf
    rw [structuralValue] at h
    simp only [bind_eq, pure_eq] at h
    obtain ⟨v, d₁, hvalue, -, rfl⟩ := h
    have hsub : body.ids ⊆ (optional info body).innerIds := by
      rw [innerIds_optional]
      exact List.Subset.refl _
    exact (ih d v d₁ hvalue hwf).mono fun cell _ hcell =>
      elementCells_sub hcell hsub (List.Subset.trans hsub (innerIds_subset_shapeClassIds _))
  case case13 =>
    intro info body kind ih d r d' h hwf
    rw [structuralValue] at h
    simp only [bind_eq, pure_eq] at h
    obtain ⟨v, d₁, hvalue, -, rfl⟩ := h
    have hsub : body.ids ⊆ (repeated info body kind).innerIds := by
      rw [innerIds_repeated]
      exact List.Subset.refl _
    exact (ih d v d₁ hvalue hwf).mono fun cell _ hcell =>
      elementCells_sub hcell hsub (List.Subset.trans hsub (innerIds_subset_shapeClassIds _))
  case case14 =>
    intro info branches hint hpolymorphic ih d r d' h hwf
    obtain ⟨base, d₁, -, hopened, hbranches⟩ := alternationValue_polymorphic hpolymorphic h
    have hframe := hopened.quiet.frame bodies
    refine hframe.comp (ih base d₁ () d' hbranches (hframe.wellFormed hwf)) ?_ ?_
    · rintro cell - rfl
      exact List.mem_cons_self
    · intro cell _ hcell
      exact Cell.known_mono (List.Subset.refl _) (List.subset_cons_self _ _) hcell
  case case15 =>
    intro info branches hint hpolymorphic ih d r d' h hwf
    obtain ⟨values, d₁, hvalues, hrest⟩ := alternationValue_plain hpolymorphic h
    have hframe : Frame bodies (choiceCells info branches) d d₁ :=
      (ih d values d₁ hvalues hwf).mono fun cell _ hcell =>
        Cell.known_mono (List.Subset.refl _) (List.subset_cons_self _ _) hcell
    rcases hrest with ⟨-, -, rfl⟩ | ⟨-, c, d₂, -, hopened, hvariants⟩
    · exact hframe
    · have hfresh : Frame bodies (choiceCells info branches) d₁ d' := by
        refine ((hopened.quiet_addVariants hvariants).frame bodies).mono ?_
        rintro cell - rfl
        exact List.mem_cons_self
      exact hframe.trans hfresh
  case case16 =>
    intro d r d' h hwf
    rw [elementValues] at h
    obtain ⟨-, rfl⟩ := pure_eq.mp h
    exact .refl _ _ _
  case case17 =>
    intro e rest ih ihrest d r d' h hwf
    rw [elementValues] at h
    simp only [bind_eq, pure_eq] at h
    obtain ⟨v, d₁, hvalue, vs, d₂, hrest, -, rfl⟩ := h
    have hframe := ih d v d₁ hvalue hwf
    have hleft := ids_subset_idsAll_cons e rest
    have hright := idsAll_subset_idsAll_cons e rest
    exact hframe.comp (ihrest d₁ vs d₂ hrest (hframe.wellFormed hwf))
      (fun cell _ hcell => elementCells_sub hcell hleft hleft)
      fun cell _ hcell => Cell.known_mono hright hright hcell
  case case18 =>
    intro base index d u d' h hwf
    rw [polymorphicBranches] at h
    obtain ⟨-, rfl⟩ := pure_eq.mp h
    exact .refl _ _ _
  case case19 =>
    intro base index branch rest hmarker ihrest ih d u d' h hwf
    obtain ⟨c, d₁, d₂, d₃, d₄, r, hbearer, hbase, hfinished, hrecord, hrest⟩ :=
      polymorphicBranches_bearing hmarker h
    have hleft := ids_subset_idsAll_cons branch rest
    have hright := idsAll_subset_idsAll_cons branch rest
    have hcore : branch.core.ids ⊆ idsAll (branch :: rest) :=
      List.Subset.trans (ids_core_sublist branch).subset hleft
    have h₁ : Frame bodies (allCells (branch :: rest)) d d₁ :=
      (ih d c d₁ hbearer hwf).mono fun cell _ hcell =>
        Cell.known_mono (List.Subset.trans (innerIds_subset _) hcore) hcore hcell
    have h₂ := h₁.trans ((setBase_spec hbase).1.frame bodies)
    have h₃ := h₂.trans (((finishElement_spec hfinished).2.1.quiet
      (S := allCells (branch :: rest)) (hcore (id_mem_ids _))).frame bodies)
    have h₄ : Frame bodies (allCells (branch :: rest)) d d₄ := by
      rcases hrecord with ⟨-, rfl⟩ | ⟨-, hrecord⟩
      · exact h₃
      · exact h₃.trans ((recordValue_quiet hrecord (hleft branch.id_mem_ids)).frame bodies)
    exact h₄.trans ((ihrest d₄ () d' hrest (h₄.wellFormed hwf)).mono fun cell _ hcell =>
      Cell.known_mono hright hright hcell)
  case case20 =>
    intro base index branch rest hmarker c hclass ihrest ih d u d' h hwf
    obtain ⟨d₁, r, d₂, hbase, hvalue, hrest⟩ := polymorphicBranches_referring hmarker hclass h
    have hleft := ids_subset_idsAll_cons branch rest
    have hright := idsAll_subset_idsAll_cons branch rest
    have h₁ : Frame bodies (allCells (branch :: rest)) d d₁ := (setBase_spec hbase).1.frame bodies
    have h₂ := h₁.trans ((ih d₁ r d₂ hvalue (h₁.wellFormed hwf)).mono
      fun cell _ hcell => elementCells_sub hcell hleft hleft)
    exact h₂.trans ((ihrest d₂ () d' hrest (h₂.wellFormed hwf)).mono fun cell _ hcell =>
      Cell.known_mono hright hright hcell)
  case case21 =>
    intro base index branch rest hmarker hclass ihrest ih d u d' h hwf
    obtain ⟨c, d₁, d₂, d₃, hopened, -, hrecord, hcollect, hrest⟩ :=
      polymorphicBranches_synthesized hmarker hclass h
    have hleft := ids_subset_idsAll_cons branch rest
    have hright := idsAll_subset_idsAll_cons branch rest
    have h₁ : Frame bodies (allCells (branch :: rest)) d d₁ := by
      refine (hopened.quiet.frame bodies).mono ?_
      rintro cell - rfl
      exact hleft branch.id_mem_ids
    have hquiet₂ : Quiet (allCells (branch :: rest)) d₁ d₂ :=
      recordValue_quiet hrecord (hleft branch.id_mem_ids)
    have h₂ := h₁.trans (hquiet₂.frame bodies)
    have hlt := Nat.lt_of_lt_of_le hopened.lt hquiet₂.plain.classes_le
    have h₃ : Frame bodies (allCells (branch :: rest)) d d₃ := by
      refine h₂.comp (ih c d₂ () d₃ hcollect (h₂.wellFormed hwf) hlt) (fun _ _ h => h) ?_
      rintro cell hold (hcell | hcell)
      · exact elementCells_sub hcell hleft hleft
      · cases cell with
        | filling c' id =>
          obtain ⟨rfl, -⟩ := hcell
          rw [hopened.id_eq] at hold
          exact absurd hold (Nat.lt_irrefl _)
        | value | nodeClass | variants => exact hcell.elim
    exact h₃.trans ((ihrest d₃ () d' hrest (h₃.wellFormed hwf)).mono fun cell _ hcell =>
      Cell.known_mono hright hright hcell)
  case case22 =>
    intro e c outer branch isBearer hskip d u d' h hwf hc
    rw [collectFields_skip hskip] at h
    refine (recordValue_quiet h (.inl ?_)).frame bodies
    cases isBearer with
    | true => cases hskip
    | false => exact e.id_mem_ids
  case case23 =>
    intro e c outer branch isBearer hskip hfield ih d u d' h hwf hc
    rw [collectFields_field hskip hfield] at h
    obtain ⟨v, d₁, hvalue, hadd⟩ := bind_eq.mp h
    have h₁ : Frame bodies (contentCells c e isBearer) d d₁ :=
      (ih d v d₁ hvalue hwf).mono fun cell _ hcell => by
        refine .inl ?_
        cases isBearer with
        | true => cases hfield
        | false => exact hcell
    exact hadded h₁ hadd hwf hc
  case case24 =>
    intro c outer branch isBearer info items hskip hfield ih d u d' h hwf hc
    rw [collectFields, if_neg hskip, if_neg hfield] at h
    exact (ih d u d' h hwf hc).mono fun cell _ hcell =>
      contentsCells_sub hcell (List.Subset.refl _)
  case case25 =>
    intro c outer branch isBearer info body hskip hfield ih d u d' h hwf hc
    rw [collectFields, if_neg hskip, if_neg hfield] at h
    refine (ih d u d' h hwf hc).mono fun cell _ hcell => contentCells_sub hcell ?_
    rw [innerIds_group]
    exact List.Subset.refl _
  case case26 =>
    intro c outer branch isBearer info body hsimple hskip hfield ih d u d' h hwf hc
    exact hunit hsimple hskip hfield ih h hwf hc
  case case27 =>
    intro c outer branch isBearer info body hsimple hskip hfield ih d u d' h hwf hc
    rw [collectFields, if_neg hskip, if_neg hfield, if_neg hsimple] at h
    refine (ih d u d' h hwf hc).mono fun cell _ hcell => contentCells_sub hcell ?_
    rw [innerIds_optional]
    exact List.Subset.refl _
  case case28 =>
    intro c outer branch isBearer info body kind hsimple hskip hfield ih d u d' h hwf hc
    exact hunit hsimple hskip hfield ih h hwf hc
  case case29 =>
    intro c outer branch isBearer info body kind hsimple hskip hfield ih d u d' h hwf hc
    rw [collectFields, if_neg hskip, if_neg hfield, if_neg hsimple] at h
    refine (ih d u d' h hwf hc).mono fun cell _ hcell => contentCells_sub hcell ?_
    rw [innerIds_repeated]
    exact List.Subset.refl _
  case case30 =>
    intro c outer branch isBearer e hsequence hgroup hoptional hrepeated hskip hfield ih d u d' h
      hwf hc
    exact hunit (isUnit_of_other hsequence hgroup hoptional hrepeated) hskip hfield ih h hwf hc
  case case31 =>
    intro e ih d r d' h hwf
    rw [ownValue] at h
    exact ih d r d' h hwf
  case case32 =>
    intro e isBearer hbearer ih d r d' h hwf
    rw [ownValue] at h
    rw [if_neg hbearer] at h ⊢
    exact ih d r d' h hwf
  case case33 =>
    intro c outer branch d u d' h hwf hc
    rw [collectItems] at h
    obtain ⟨-, rfl⟩ := pure_eq.mp h
    exact .refl _ _ _
  case case34 =>
    intro c outer branch e rest ih ihrest d u d' h hwf hc
    rw [collectItems] at h
    obtain ⟨_, d₁, hfirst, hrest⟩ := bind_eq.mp h
    have h₁ := ih d () d₁ hfirst hwf hc
    exact hcons h₁ (ihrest d₁ u d' hrest (h₁.wellFormed hwf)
      (Nat.lt_of_lt_of_le hc h₁.classes_le))
  case case35 =>
    intro e ihbranches ihfill ihfill' d c d' h hwf
    rcases bearerClass_cases h with ⟨-, rfl⟩ | ⟨-, hmade⟩
    · exact .refl _ _ _
    · have hopen {kind : ClassKind} {d₁ : Draft} (hopened : Opened kind c e.id d d₁) :
          Frame bodies e.bearerCells d d₁ := by
        refine (hopened.quiet.frame bodies).mono ?_
        rintro cell - rfl
        exact e.id_mem_ids
      rcases hmade with
        ⟨info, branches, d₁, d₂, hcore, hopened, hrecord, hbranches⟩ | ⟨d₁, hopened, hfill⟩
      · have hsub : idsAll branches ⊆ e.innerIds :=
          List.Subset.trans (idsAll_subset_of_core hcore) e.innerIds_classContent_subset
        have hinfo : info.id ∈ e.ids := by
          have hmem : info.id ∈ e.classContent.1.core.ids := by
            rw [hcore]
            exact id_mem_ids (alternation info branches)
          exact ids_classContent_subset e ((ids_core_sublist _).subset hmem)
        have h₁ := (hopen hopened).trans ((recordClass_quiet hrecord hinfo).frame bodies)
        refine h₁.trans ((ihbranches e.classContent.1 e.classContent.2 rfl info branches hcore c
          d₂ () d' hbranches
          (h₁.wellFormed hwf)).mono fun cell _ hcell => ?_)
        exact Cell.known_mono hsub (List.Subset.trans hsub e.innerIds_subset) hcell
      · have h₁ := hopen hopened
        refine h₁.comp (ihfill e.classContent.1 e.classContent.2 rfl [] c d₁ () d' hfill
          (h₁.wellFormed hwf) hopened.lt)
          (fun _ _ h => h) ?_
        rintro cell hold (hcell | hcell)
        · rcases e.classContent_cases with ⟨hcontent, -⟩ | ⟨info, body, rfl, hcontent⟩
          · rw [hcontent, if_pos rfl] at hcell
            exact Cell.known_mono (List.Subset.refl _) e.shapeClassIds_subset hcell
          · rw [hcontent, if_neg Bool.false_ne_true] at hcell
            have hsub : body.ids ⊆ (group info body).innerIds := by
              rw [innerIds_group]
              exact List.Subset.refl _
            exact elementCells_sub hcell hsub (List.Subset.trans hsub (innerIds_subset _))
        · cases cell with
          | filling c' id =>
            obtain ⟨rfl, -⟩ := hcell
            rw [hopened.id_eq] at hold
            exact absurd hold (Nat.lt_irrefl _)
          | value | nodeClass | variants => exact hcell.elim
  case case36 =>
    intro c content isBearer branches hbranches ih d u d' h hwf hc
    obtain ⟨d₁, hcollect, hrelax⟩ := fillClass_several hbranches h
    have hsub : idsAll branches ⊆ content.innerIds := by
      obtain ⟨info, hcore⟩ := core_of_classAlternatives hbranches
      exact idsAll_subset_of_core hcore
    have h₁ : Frame bodies (contentCells c content isBearer) d d₁ :=
      (ih d () d₁ hcollect hwf hc).mono fun cell _ hcell => contentsCells_sub hcell hsub
    exact h₁.trans ((relaxPartial_quiet hrelax).frame bodies)
  case case37 =>
    intro c content isBearer hbranches ih d u d' h hwf hc
    exact ih d () d' (fillClass_single hbranches h) hwf hc
  case case38 =>
    intro c index d u d' h hwf hc
    rw [collectBranches] at h
    obtain ⟨-, rfl⟩ := pure_eq.mp h
    exact .refl _ _ _
  case case39 =>
    intro c index e rest ih ihrest d u d' h hwf hc
    rw [collectBranches] at h
    obtain ⟨_, d₁, hfirst, hrest⟩ := bind_eq.mp h
    have h₁ := ih d () d₁ hfirst hwf hc
    exact hcons h₁ (ihrest d₁ u d' hrest (h₁.wellFormed hwf)
      (Nat.lt_of_lt_of_le hc h₁.classes_le))
  case case40 =>
    intro hint info branches ih d r d' h hwf
    rw [groupValue] at h
    simp only [bind_eq, pure_eq] at h
    obtain ⟨v, d₁, hvalue, _, d₂, hrecord, -, rfl⟩ := h
    have h₁ : Frame bodies (Cell.known (alternation info branches).ids
        (alternation info branches).ids) d d₁ :=
      (ih d v d₁ hvalue hwf).mono fun cell _ hcell => by
        refine Cell.known_mono (innerIds_subset _) ?_ hcell
        rw [ids_eq]
        exact List.Subset.refl _
    exact h₁.trans ((recordValue_quiet hrecord (id_mem_ids (alternation info branches))).frame
      bodies)
  case case41 =>
    intro hint info inner hkeeps ih d r d' h hwf
    rw [groupValue] at h
    rw [if_pos hkeeps] at h
    exact (ih d r d' h hwf).mono fun cell _ hcell =>
      elementCells_sub hcell (List.Subset.refl _) (List.Subset.refl _)
  case case42 =>
    intro hint info inner hkeeps ih d r d' h hwf
    rw [groupValue] at h
    simp only [if_neg hkeeps, bind_eq, pure_eq] at h
    obtain ⟨v, d₁, hvalue, _, d₂, hrecord, -, rfl⟩ := h
    have h₁ : Frame bodies (Cell.known (group info inner).ids (group info inner).ids) d d₁ :=
      (ih d v d₁ hvalue hwf).mono fun cell _ hcell => by
        have hsub : inner.ids ⊆ (group info inner).ids := by
          rw [ids_eq (group info inner), innerIds_group]
          exact List.subset_cons_self _ _
        exact Cell.known_mono hsub hsub hcell
    exact h₁.trans ((recordValue_quiet hrecord (id_mem_ids (group info inner))).frame bodies)
  case case43 =>
    intro hint e halternation hgroup ih d r d' h hwf
    rw [groupValue_other halternation hgroup] at h
    exact (ih d r d' h hwf).mono fun cell _ hcell =>
      elementCells_sub hcell (List.Subset.refl _) (List.Subset.refl _)

end Build
end AnnotatedGrammar
