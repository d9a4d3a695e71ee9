import AnnotatedGrammar.Proofs.Analysis.Outcome

/-!
# What the walks through the content of classes settle

A class is filled from the expressions in its content, and an element is finished once its class or
the value of its shape is known. With the alternatives, these are all the walks.
-/

namespace AnnotatedGrammar.Build

open AnnotatedGrammar.Expr

variable {strict : Prop} {m : GrammarModel} {visit : RuleId → Build (Option Value)}
  {sc : RuleScope} {bound : Nat} {d d' : Draft} {e body : Expr} {info : NodeInfo} {c : ClassId}
  {outer : Cardinality} {branch : Nat} {isBearer : Bool} {u : Unit} {r : Option Value}

/-! ## Fields -/

/-- A class is filled with a value that was computed before. -/
theorem addField_settles (isBearer : Bool) {own : Bool} {P : Prop} {d₁ : Draft}
    (h : Settling strict m sc.toScope sc.roles bound
      (if isBearer then e.shapeCells else e.elementCells) P d d₁)
    (hframe : d.WellFormed →
      Frame (sc.lazyIds sc.roles) (if isBearer then e.shapeCells else e.elementCells) d d₁)
    (hadd : addField c e r outer branch own d₁ = (u, d')) :
    Settling strict m sc.toScope sc.roles bound (contentCells c e isBearer)
      (P ∧ ((own = true → e.hasMarker .optional = true →
        ∀ v, r = some v → v.cardinality ≠ .list) → Settled.FillsWith strict m c e r)) d d' := by
  have hfilling : contentCells c e isBearer (.filling c e.id) := .inr ⟨rfl, e.id_mem_ids⟩
  refine h.seq (.ofAddField hadd) (fun hwf hopen herrors => ?_) (fun _ => .inl) ?_ ?_
  · have hframe := hframe hwf
    have hlt := Nat.lt_of_lt_of_le (hopen _ hfilling).2.2 hframe.classes_le
    have hquiet := addField_quiet (S := fun cell => cell = .filling c e.id) hadd
      (hframe.wellFormed hwf) hlt rfl
    exact hquiet.plain.errors_eq herrors
  · rintro cell rfl
    exact hfilling
  · rintro cell hcell rfl
    cases isBearer <;> exact hcell

/-- An element with a field of its own. -/
theorem collectFields_settles_field (hframes : WalkFrames (sc.lazyIds sc.roles) visit sc)
    (hskip : ¬(!isBearer && e.hasMarker .skip) = true)
    (hfield : (!isBearer && e.isFieldElement) = true)
    (ih : ∀ d r d', elementValue visit sc e true d = (r, d') → e.Proper →
      Settling strict m sc.toScope sc.roles bound e.elementCells
        (Settled.Element strict m true e r ∧
          (e.hasMarker .optional = true → ∀ v, r = some v → v.cardinality ≠ .list)) d d')
    (h : collectFields visit sc e c outer branch isBearer d = (u, d')) (hproper : e.Proper) :
    Settling strict m sc.toScope sc.roles bound (contentCells c e isBearer)
      (Settled.Content strict m c e isBearer) d d' := by
  rw [collectFields_field hskip hfield] at h
  obtain ⟨r, d₁, hvalue, hadd⟩ := bind_eq.mp h
  have hnot : isBearer = false := by
    cases isBearer with
    | true => cases hfield
    | false => rfl
  subst hnot
  have hframe := hframes.elementValue e true d r d₁ hvalue
  refine (addField_settles false (ih d r d₁ hvalue hproper) hframe hadd).imp
    fun _ _ _ hP => ?_
  exact .field hskip hfield hP.1.1 (hP.2 fun _ => hP.1.2)

/-- An expression that stands for one value. -/
theorem collectFields_settles_unit (hframes : WalkFrames (sc.lazyIds sc.roles) visit sc)
    (hunit : e.IsUnit) (hskip : ¬(!isBearer && e.hasMarker .skip) = true)
    (hfield : ¬(!isBearer && e.isFieldElement) = true)
    (ih : ∀ d r d', ownValue visit sc e isBearer d = (r, d') → e.Proper →
      Settling strict m sc.toScope sc.roles bound
        (if isBearer then e.shapeCells else e.elementCells)
        (if isBearer then Settled.Shape strict m e r else
          Settled.Element strict m true e r ∧
            (e.hasMarker .optional = true → ∀ v, r = some v → v.cardinality ≠ .list)) d d')
    (h : collectFields visit sc e c outer branch isBearer d = (u, d')) (hproper : e.Proper) :
    Settling strict m sc.toScope sc.roles bound (contentCells c e isBearer)
      (Settled.Content strict m c e isBearer) d d' := by
  rw [collectFields_unit hskip hfield hunit] at h
  obtain ⟨r, d₁, hvalue, hadd⟩ := bind_eq.mp h
  have hframe := hframes.ownValue e isBearer d r d₁ hvalue
  refine (addField_settles isBearer (ih d r d₁ hvalue hproper) hframe hadd).imp fun _ _ _ hP => ?_
  obtain ⟨hvalue, hfills⟩ := hP
  refine .parts hskip hfield ?_
  cases isBearer with
  | true => exact .bearer hunit hvalue (hfills fun hown => by cases hown)
  | false => exact .own hunit hvalue.1 (hfills fun _ => hvalue.2)

/-! ## Contents -/

section

variable {rest : List Expr}

/-- An expression and those after it in the content of a class. -/
theorem contents_settles_cons {d₁ : Draft} (hproper : AllProper (e :: rest))
    (hfirst : Settling strict m sc.toScope sc.roles bound (contentCells c e false)
      (Settled.Content strict m c e false) d d₁)
    (hrest : Settling strict m sc.toScope sc.roles bound (contentsCells c rest)
      (Settled.Contents strict m c rest) d₁ d')
    (hframe : d.WellFormed → c < d.classes.size →
      Frame (sc.lazyIds sc.roles) (contentCells c e false) d d₁)
    (hframe' : d₁.WellFormed → c < d₁.classes.size →
      Frame (sc.lazyIds sc.roles) (contentsCells c rest) d₁ d') :
    Settling strict m sc.toScope sc.roles bound (contentsCells c (e :: rest))
      (Settled.Contents strict m c (e :: rest)) d d' := by
  have hfilling : contentsCells c (e :: rest) (.filling c e.id) :=
    .inr ⟨rfl, ids_subset_idsAll_cons e rest e.id_mem_ids⟩
  have hseq := hfirst.seq (S := contentsCells c (e :: rest)) hrest
    (fun hwf hopen herrors => ?_) (fun _ => contentsCells_head) (fun _ => contentsCells_tail)
    (fun _ => hproper.contents_disjoint)
  · exact hseq.imp fun _ _ _ hP => .cons hP.1 hP.2
  · have hc := (hopen _ hfilling).2.2
    have hframe := hframe hwf hc
    exact (hframe' (hframe.wellFormed hwf) (Nat.lt_of_lt_of_le hc hframe.classes_le)).errors_eq
      herrors

theorem fillClass_settles_several {branches : List Expr}
    (hbranches : e.classAlternatives? = some branches)
    (ih : ∀ d u d', collectBranches visit sc c 0 branches d = (u, d') → AllProper branches →
      Settling strict m sc.toScope sc.roles bound (contentsCells c branches)
        (Settled.Contents strict m c branches) d d')
    (h : fillClass visit sc c e isBearer d = (u, d')) (hproper : e.Proper) :
    Settling strict m sc.toScope sc.roles bound (contentCells c e isBearer)
      (Settled.Body strict m c e isBearer) d d' := by
  obtain ⟨d₁, hcollect, hrelax⟩ := fillClass_several hbranches h
  have hsub : idsAll branches ⊆ e.innerIds := by
    obtain ⟨info, hcore⟩ := core_of_classAlternatives hbranches
    exact idsAll_subset_of_core hcore
  have hquiet : Quiet (fun _ => False) d₁ d' := relaxPartial_quiet hrelax
  have hlast : Settling strict m sc.toScope sc.roles bound (fun _ => False) True d₁ d' :=
    .ofQuiet hquiet (Nat.le_of_eq (MakesNoClass.relaxPartial d₁ () d' hrelax))
      (fun hclaimed _ => hquiet.claimed hclaimed fun _ h => h) fun _ _ _ => trivial
  have hseq := (ih d () d₁ hcollect (hproper.ofClassAlternatives hbranches)).seq
    (S := contentCells c e isBearer) hlast (fun _ _ => hquiet.plain.errors_eq)
    (fun _ hcell => contentsCells_sub hcell hsub) (fun _ h => h.elim) (fun _ _ h => h)
  exact hseq.imp fun _ _ _ hP => .several hbranches hP.1

end

/-! ## Carriers of classes -/

theorem bearerClass_settles (hframes : WalkFrames (sc.lazyIds sc.roles) visit sc)
    (ihbranches : ∀ base info branches, e.classContent.1.core = alternation info branches →
      ∀ d u d', polymorphicBranches visit sc base 0 branches d = (u, d') → AllProper branches →
        (∀ b ∈ branches, b.isAlternation = false) →
          Settling strict m sc.toScope sc.roles bound (allCells branches)
            (Settled.BaseBranches strict m base branches) d d')
    (ihfill : ∀ c d u d', fillClass visit sc c e.classContent.1 e.classContent.2 d = (u, d') →
      e.classContent.1.Proper →
        Settling strict m sc.toScope sc.roles bound
          (contentCells c e.classContent.1 e.classContent.2)
          (Settled.Body strict m c e.classContent.1 e.classContent.2) d d')
    (h : bearerClass visit sc e d = (c, d')) (hproper : e.Proper)
    (hmarker : e.hasMarker .classOf = true) :
    Settling strict m sc.toScope sc.roles bound e.bearerCells
      (Settled.Bearer strict m e c ∧ c < d'.classes.size) d d' := by
  have hself : e.bearerCells (.nodeClass e.id) := e.id_mem_ids
  rcases bearerClass_cases h with ⟨hclass, -⟩ | ⟨-, hmade⟩
  · intro _ hopen _
    have hfresh : d.nodeClasses.get? e.id = none := (hopen _ hself).1
    rw [hfresh] at hclass
    cases hclass
  rcases hmade with
    ⟨info, branches, d₁, d₂, hcore, hopened, hrecord, hbranches⟩ | ⟨d₁, hopened, hfill⟩
  · have hinfo := hproper.classContent_core hmarker hcore
    have hcoreProper : (alternation info branches).Proper := hcore ▸ hproper.classContent.core
    have hsub : idsAll branches ⊆ e.innerIds := fun id hid =>
      e.innerIds_classContent_subset (idsAll_subset_of_core hcore hid)
    have hframe : d₂.WellFormed → Frame (sc.lazyIds sc.roles) (allCells branches) d₂ d' :=
      hframes.polymorphicBranches c 0 branches d₂ () d' hbranches
    have hquiet : Quiet (fun cell => cell = .nodeClass info.id) d₁ d₂ :=
      recordClass_quiet hrecord rfl
    have hinner := ihbranches c info branches hcore d₂ () d' hbranches hcoreProper.children
      hcoreProper.isAlternation_branches
    have hsecond := (Settling.ofRecordClass hrecord).seq
      (S := fun cell => cell = .nodeClass info.id ∨ allCells branches cell) hinner
      (fun hwf _ => (hframe (hquiet.plain.wellFormed hwf)).errors_eq) (fun _ => .inl)
      (fun _ => .inr) (by
        rintro cell rfl hcell
        exact hcoreProper.id_not_mem hcell)
    have hwhole := Settling.opened (S := e.bearerCells) hopened (by simp) hsecond
      (fun hwf _ herrors => hquiet.plain.errors_eq
        ((hframe (hquiet.plain.wellFormed hwf)).errors_eq herrors)) hself ?_
    · refine hwhole.imp fun _ _ _ hP => ?_
      obtain ⟨⟨-, hbranches⟩, hkind, hclass, hlt⟩ := hP
      exact ⟨.base hclass hkind hcore hbranches, hlt⟩
    · rintro cell (rfl | hcell)
      · refine .inl ⟨e.innerIds_subset hinfo, fun heq => hproper.id_not_mem ?_⟩
        rw [← Cell.nodeClass.inj heq]
        exact hinfo
      · refine .inl ⟨Cell.known_mono hsub (fun id hid => e.innerIds_subset (hsub hid)) hcell, ?_⟩
        rintro rfl
        exact hproper.id_not_mem (hsub hcell)
  · have hframe (hwf : d₁.WellFormed) : Frame (sc.lazyIds sc.roles)
        (contentCells c e.classContent.1 e.classContent.2) d₁ d' :=
      hframes.fillClass c _ _ d₁ () d' hfill hwf hopened.lt
    have hwhole := Settling.opened (S := e.bearerCells) hopened (by simp)
      (ihfill c d₁ () d' hfill hproper.classContent) (fun hwf _ => (hframe hwf).errors_eq) hself ?_
    · refine hwhole.imp fun _ _ _ hP => ?_
      obtain ⟨hbody, hkind, hclass, hlt⟩ := hP
      exact ⟨.concrete hclass hkind hbody, hlt⟩
    · rintro cell (hcell | hcell)
      · have hinside := hproper.classContent_cells hmarker hcell
        refine .inl ⟨Cell.known_mono (List.Subset.refl _) e.innerIds_subset hinside, ?_⟩
        rintro rfl
        exact hproper.id_not_mem hinside
      · cases cell with
        | filling c' id =>
          obtain ⟨rfl, hid⟩ := hcell
          exact .inr ⟨id, rfl, ids_classContent_subset e hid⟩
        | value | nodeClass | variants => exact hcell.elim

/-! ## All walks -/

/-- Every walk settles what its expressions are, if the steps into rules find the values of the
rules. -/
theorem walkSettles (hframes : WalkFrames (sc.lazyIds sc.roles) visit sc)
    (hvisit : ∀ id d r d', visit id d = (r, d') →
      Settling strict m sc.toScope sc.roles bound (fun _ => False)
        ((m.rule? id).bind (·.value) = r) d d') :
    WalkSettles strict m visit sc bound := by
  have hwrapped {e body : Expr} {v r : Option Value} {d d₁ d' : Draft} (hbody : e.children = [body])
      (h : Settling strict m sc.toScope sc.roles bound body.elementCells
        (Settled.Element strict m false body v ∧
          (body.hasMarker .optional = true → ∀ u, v = some u → u.cardinality ≠ .list)) d d₁)
      (hend : d₁ = d') (hshape : Settled.Element strict m false body v →
        Settled.Shape strict m e r) :
      Settling strict m sc.toScope sc.roles bound e.shapeCells
          (Settled.Shape strict m e r) d d' := by
    subst hend
    have hsub : body.ids ⊆ e.innerIds := by
      rw [innerIds, hbody]
      exact ids_subset_idsAll_cons body []
    refine (h.mono fun cell hcell => ?_).imp fun _ _ _ hP => hshape hP.1
    exact elementCells_sub hcell hsub (List.Subset.trans hsub e.innerIds_subset_shapeClassIds)
  have hfinished {e : Expr} {allowed : Bool} {v r : Option Value} {P : Prop} {S : Cell → Prop}
      {d d₁ d' : Draft} (h : Settling strict m sc.toScope sc.roles bound S P d d₁)
      (hfinish : finishElement sc e v allowed d₁ = (r, d'))
      (hS : ∀ cell, S cell → e.elementCells cell)
      (hnot : ¬S (.value e.id))
      (helement : P → Settled.Recorded strict m e v → (allowed = false → e.NoFieldMarkers) →
        Settled.Element strict m allowed e v) :
      Settling strict m sc.toScope sc.roles bound e.elementCells
        (Settled.Element strict m allowed e r ∧
          (e.hasMarker .optional = true → ∀ u, r = some u → u.cardinality ≠ .list)) d d' := by
    obtain ⟨rfl, hfinished, -⟩ := finishElement_spec hfinish
    have hseq := h.seq (S := e.elementCells) (.ofFinish hfinish)
      (fun _ _ => hfinished.errors_eq) hS (by
        rintro cell rfl
        exact e.id_mem_ids) (by
        rintro cell hcell rfl
        exact hnot hcell)
    exact hseq.imp fun _ _ _ hP => ⟨helement hP.1 hP.2.1 hP.2.2.1, hP.2.2.2⟩
  have hrecorded {e : Expr} {v : Option Value} {S : Cell → Prop} {u : Unit} {d d₁ d' : Draft}
      (h : Settling strict m sc.toScope sc.roles bound S (Settled.Shape strict m e v) d d₁)
      (hrecord : recordValue e.id v d₁ = (u, d'))
      (hS : ∀ cell, S cell → Cell.known e.ids e.ids cell)
      (hnot : ¬S (.value e.id))
      (hmarkers : ¬e.hasMarker .skip = true ∧ ¬e.hasMarker .classOf = true ∧ e.NoFieldMarkers) :
      Settling strict m sc.toScope sc.roles bound (Cell.known e.ids e.ids)
        (Settled.Element strict m false e v) d d' := by
    have hquiet : Quiet (fun cell => cell = .value e.id) d₁ d' := recordValue_quiet hrecord rfl
    have hseq := h.seq (S := Cell.known e.ids e.ids) (.ofRecordValue hrecord)
      (fun _ _ => hquiet.plain.errors_eq) hS (by
        rintro cell rfl
        exact e.id_mem_ids) (by
        rintro cell hcell rfl
        exact hnot hcell)
    exact hseq.imp fun _ _ _ hP =>
      .shaped hmarkers.1 hmarkers.2.1 (fun _ => hmarkers.2.2) hP.2 hP.1
  rw [walkSettles_iff]
  apply elementValue.mutual_induct visit sc
  case case1 =>
    intro e allowed hskip d r d' h hproper
    rw [elementValue] at h
    simp only [if_pos hskip, bind_eq, pure_eq] at h
    obtain ⟨_, _, ⟨rfl, rfl⟩, h⟩ := h
    exact hfinished (S := fun _ => False) (P := True) (.of_same fun _ => trivial) h
      (fun _ h => h.elim) (fun h => h) fun _ hrecorded hallowed => .skipped hskip hallowed hrecorded
  case case2 =>
    intro e allowed hskip hmarker ih d r d' h hproper
    rw [elementValue] at h
    simp only [if_neg hskip, if_pos hmarker, bind_eq, map_eq] at h
    obtain ⟨_, d₁, ⟨c, hbearer, rfl⟩, h⟩ := h
    refine hfinished (ih d c d₁ hbearer hproper hmarker) h (fun cell hcell => ?_)
      hproper.id_not_mem fun hP hrecorded hallowed => .bearing hskip hmarker hallowed hrecorded hP.1
    refine Cell.known_mono e.innerIds_subset ?_ hcell
    rw [classIds, if_pos hmarker]
    exact List.Subset.refl _
  case case3 =>
    intro e allowed hskip hmarker ih d r d' h hproper
    rw [elementValue] at h
    simp only [if_neg hskip, if_neg hmarker, bind_eq] at h
    obtain ⟨v, d₁, hshape, h⟩ := h
    exact hfinished (ih d v d₁ hshape hproper) h (fun _ => shapeCells_sub) hproper.id_not_mem
      fun hP hrecorded hallowed => .shaped hskip hmarker hallowed hrecorded hP
  case case4 =>
    intro info text d r d' h hproper
    rw [structuralValue] at h
    obtain ⟨rfl, rfl⟩ := pure_eq.mp h
    refine .of_same fun _ => ?_
    split
    · rename_i hmarker
      exact .fieldLiteral hmarker
    · rename_i hmarker
      exact .literal hmarker
  case case5 =>
    intro info p d r d' h hproper
    rw [structuralValue] at h
    obtain ⟨rfl, rfl⟩ := pure_eq.mp h
    exact .of_same fun _ => .pattern
  case case6 =>
    intro info name p hname d r d' h hproper
    rw [structuralValue] at h
    rw [hname] at h
    obtain ⟨rfl, rfl⟩ := pure_eq.mp h
    refine .of_same fun hkeeps => ?_
    have hvalue : m.nameValue? name = some (Value.ofPrimitive (Primitive.ofPattern p)) := by
      rw [GrammarModel.nameValue?, hkeeps.symbols_eq, hname]
    exact hvalue ▸ .reference
  case case7 =>
    intro info name id hname d r d' h hproper
    rw [structuralValue] at h
    rw [hname] at h
    refine ((hvisit id d r d' h).mono fun _ h => h.elim).imp fun _ _ htracks hrule => ?_
    have hvalue : m.nameValue? name = r := by
      rw [GrammarModel.nameValue?, htracks.keeps.symbols_eq, hname]
      exact hrule
    exact hvalue ▸ .reference
  case case8 =>
    intro info name hname d r d' h hproper
    rw [structuralValue] at h
    rw [hname] at h
    obtain ⟨rfl, rfl⟩ := pure_eq.mp h
    refine .of_same fun hkeeps => ?_
    have hvalue : m.nameValue? name = none := by
      rw [GrammarModel.nameValue?, hkeeps.symbols_eq, hname]
    exact hvalue ▸ .reference
  case case9 =>
    intro info body ih d r d' h hproper
    rw [structuralValue] at h
    have hsub : body.ids ⊆ (group info body).innerIds := by
      rw [innerIds_group]
      exact List.Subset.refl _
    refine ((ih d r d' h (hproper.ofBody rfl)).mono fun cell hcell => ?_).imp
      fun _ _ _ hP => .group hP
    exact Cell.known_mono hsub (List.Subset.trans hsub (innerIds_subset_shapeClassIds _)) hcell
  case case10 =>
    intro info items ih d r d' h hproper
    rw [structuralValue] at h
    obtain ⟨values, d₁, hvalues, hsingle⟩ := bind_eq.mp h
    obtain ⟨hfaults, hvalue⟩ := singleValue_spec hsingle
    have hseq := (ih d values d₁ hvalues hproper.children).seq
      (S := shapeCells (sequence info items))
      (.ofFaults hfaults hvalue :
        Settling strict m sc.toScope sc.roles bound (fun _ => False) _ d₁ d')
      (fun _ _ => hfaults.errors_eq)
      (fun cell hcell => Cell.known_mono (List.Subset.refl _)
        (innerIds_subset_shapeClassIds _) hcell)
      (fun _ h => h.elim) (fun _ _ h => h)
    exact hseq.imp fun _ _ _ hP => .sequence hP.1 hP.2
  case case11 =>
    intro info branches ih d r d' h hproper
    rw [structuralValue] at h
    refine (ih d r d' h hproper).mono fun cell hcell =>
      Cell.known_mono (List.Subset.refl _) ?_ hcell
    rw [shapeClassIds, isAlternation, if_pos rfl, ids_eq]
    exact List.Subset.refl _
  case case12 =>
    intro info body ih d r d' h hproper
    rw [structuralValue] at h
    simp only [bind_eq, pure_eq] at h
    obtain ⟨v, d₁, hvalue, rfl, rfl⟩ := h
    exact hwrapped rfl (ih d v d₁ hvalue (hproper.ofBody rfl)) rfl .optional
  case case13 =>
    intro info body kind ih d r d' h hproper
    rw [structuralValue] at h
    simp only [bind_eq, pure_eq] at h
    obtain ⟨v, d₁, hvalue, rfl, rfl⟩ := h
    exact hwrapped rfl (ih d v d₁ hvalue (hproper.ofBody rfl)) rfl .repeated
  case case14 =>
    intro info branches hint hpolymorphic ih d r d' h hproper
    exact alternationValue_settles_polymorphic hframes hpolymorphic ih h hproper
  case case15 =>
    intro info branches hint hpolymorphic ih d r d' h hproper
    exact alternationValue_settles_plain hpolymorphic ih h hproper
  case case16 =>
    intro d r d' h hproper
    rw [elementValues] at h
    obtain ⟨rfl, rfl⟩ := pure_eq.mp h
    exact .of_same fun _ => .nil
  case case17 =>
    intro e rest ih ihrest d r d' h hproper
    rw [elementValues] at h
    simp only [bind_eq, pure_eq] at h
    obtain ⟨v, d₁, hvalue, vs, d₂, hrest, rfl, rfl⟩ := h
    have hseq := (ih d v d₁ hvalue hproper.head).seq (S := allCells (e :: rest))
      (ihrest d₁ vs d₂ hrest hproper.tail) (fun hwf _ => ?_) (fun _ => allCells_elementCells)
      (fun _ => allCells_tail)
      (hproper.known_disjoint (List.Subset.refl _) e.classIds_subset)
    · exact hseq.imp fun _ _ _ hP => .cons hP.1.1 hP.2
    · have hframe := hframes.elementValue e false d v d₁ hvalue hwf
      exact (hframes.elementValues rest d₁ vs d₂ hrest (hframe.wellFormed hwf)).errors_eq
  case case18 =>
    intro base index d u d' h hproper halternation
    rw [polymorphicBranches] at h
    obtain ⟨-, rfl⟩ := pure_eq.mp h
    exact .of_same fun _ => .nil
  case case19 =>
    intro base index branch rest hmarker ihrest ih d u d' h hproper halternation
    exact polymorphicBranches_settles_bearing hframes hmarker ih ihrest h hproper halternation
  case case20 =>
    intro base index branch rest hmarker c hclass ihrest ih d u d' h hproper halternation
    exact polymorphicBranches_settles_referring hframes hmarker hclass ih ihrest h hproper
      halternation
  case case21 =>
    intro base index branch rest hmarker hclass ihrest ih d u d' h hproper halternation
    exact polymorphicBranches_settles_synthesized hframes hmarker hclass ih ihrest h hproper
      halternation
  case case22 =>
    intro e c outer branch isBearer hskip d u d' h hproper
    rw [collectFields_skip hskip] at h
    refine ((Settling.ofRecordValue h).mono ?_).imp fun _ _ _ _ => .skipped hskip
    rintro cell rfl
    cases isBearer with
    | true => cases hskip
    | false => exact .inl e.id_mem_ids
  case case23 =>
    intro e c outer branch isBearer hskip hfield ih d u d' h hproper
    exact collectFields_settles_field hframes hskip hfield ih h hproper
  case case24 =>
    intro c outer branch isBearer info items hskip hfield ih d u d' h hproper
    rw [collectFields, if_neg hskip, if_neg hfield] at h
    refine ((ih d u d' h hproper.children).mono fun cell hcell => ?_).imp
      fun _ _ _ hP => .parts hskip hfield (.sequence hP)
    exact contentsCells_sub hcell (List.Subset.refl _)
  case case25 =>
    intro c outer branch isBearer info body hskip hfield ih d u d' h hproper
    rw [collectFields, if_neg hskip, if_neg hfield] at h
    refine ((ih d u d' h (hproper.ofBody rfl)).mono fun cell hcell => contentCells_sub hcell ?_).imp
      fun _ _ _ hP => .parts hskip hfield (.group hP)
    rw [innerIds_group]
    exact List.Subset.refl _
  case case26 =>
    intro c outer branch isBearer info body hsimple hskip hfield ih d u d' h hproper
    exact collectFields_settles_unit hframes hsimple hskip hfield ih h hproper
  case case27 =>
    intro c outer branch isBearer info body hsimple hskip hfield ih d u d' h hproper
    rw [collectFields, if_neg hskip, if_neg hfield, if_neg hsimple] at h
    refine ((ih d u d' h (hproper.ofBody rfl)).mono fun cell hcell => contentCells_sub hcell ?_).imp
      fun _ _ _ hP => .parts hskip hfield (.optional hsimple hP)
    rw [innerIds_optional]
    exact List.Subset.refl _
  case case28 =>
    intro c outer branch isBearer info body kind hsimple hskip hfield ih d u d' h hproper
    exact collectFields_settles_unit hframes hsimple hskip hfield ih h hproper
  case case29 =>
    intro c outer branch isBearer info body kind hsimple hskip hfield ih d u d' h hproper
    rw [collectFields, if_neg hskip, if_neg hfield, if_neg hsimple] at h
    refine ((ih d u d' h (hproper.ofBody rfl)).mono fun cell hcell => contentCells_sub hcell ?_).imp
      fun _ _ _ hP => .parts hskip hfield (.repeated hsimple hP)
    rw [innerIds_repeated]
    exact List.Subset.refl _
  case case30 =>
    intro c outer branch isBearer e hsequence hgroup hoptional hrepeated hskip hfield ih d u d' h
      hproper
    exact collectFields_settles_unit hframes
      (isUnit_of_other hsequence hgroup hoptional hrepeated) hskip hfield ih h hproper
  case case31 =>
    intro e ih d r d' h hproper
    rw [ownValue] at h
    exact ih d r d' h hproper
  case case32 =>
    intro e isBearer hbearer ih d r d' h hproper
    rw [ownValue] at h
    rw [if_neg hbearer] at h
    rw [if_neg hbearer, if_neg hbearer]
    exact ih d r d' h hproper
  case case33 =>
    intro c outer branch d u d' h hproper
    rw [collectItems] at h
    obtain ⟨-, rfl⟩ := pure_eq.mp h
    exact .of_same fun _ => .nil
  case case34 =>
    intro c outer branch e rest ih ihrest d u d' h hproper
    rw [collectItems] at h
    obtain ⟨_, d₁, hfirst, hrest⟩ := bind_eq.mp h
    exact contents_settles_cons hproper (ih d () d₁ hfirst hproper.head)
      (ihrest d₁ u d' hrest hproper.tail)
      (hframes.collectFields e c outer branch false d () d₁ hfirst)
      (hframes.collectItems rest c outer branch d₁ u d' hrest)
  case case35 =>
    intro e ihbranches ihfill ihfill' d c d' h hproper hmarker
    exact bearerClass_settles hframes
      (fun base info branches hcore => ihbranches _ _ rfl info branches hcore base)
      (ihfill _ _ rfl []) h hproper hmarker
  case case36 =>
    intro c content isBearer branches hbranches ih d u d' h hproper
    exact fillClass_settles_several hbranches ih h hproper
  case case37 =>
    intro c content isBearer hbranches ih d u d' h hproper
    exact (ih d () d' (fillClass_single hbranches h) hproper).imp
      fun _ _ _ hP => .single hbranches hP
  case case38 =>
    intro c index d u d' h hproper
    rw [collectBranches] at h
    obtain ⟨-, rfl⟩ := pure_eq.mp h
    exact .of_same fun _ => .nil
  case case39 =>
    intro c index e rest ih ihrest d u d' h hproper
    rw [collectBranches] at h
    obtain ⟨_, d₁, hfirst, hrest⟩ := bind_eq.mp h
    exact contents_settles_cons hproper (ih d () d₁ hfirst hproper.head)
      (ihrest d₁ u d' hrest hproper.tail)
      (hframes.collectFields e c .scalar index false d () d₁ hfirst)
      (hframes.collectBranches c (index + 1) rest d₁ u d' hrest)
  case case40 =>
    intro hint info branches ih d r d' h hproper
    rw [groupValue] at h
    simp only [bind_eq, pure_eq] at h
    obtain ⟨v, d₁, hvalue, _, d₂, hrecord, rfl, rfl⟩ := h
    refine hrecorded (ih d v d₁ hvalue hproper) hrecord (fun cell hcell => ?_) hproper.id_not_mem
      ⟨hproper.hasMarker_alternation .skip, hproper.hasMarker_alternation .classOf,
        hproper.noFieldMarkers_alternation⟩
    refine Cell.known_mono (innerIds_subset _) ?_ hcell
    rw [ids_eq]
    exact List.Subset.refl _
  case case41 =>
    intro hint info inner hkeeps ih d r d' h hproper
    rw [groupValue] at h
    rw [if_pos hkeeps] at h
    refine ((ih d r d' h hproper).mono fun cell hcell => ?_).imp fun _ _ _ hP => hP.1
    exact elementCells_sub hcell (List.Subset.refl _) (List.Subset.refl _)
  case case42 =>
    intro hint info inner hkeeps ih d r d' h hproper
    rw [groupValue] at h
    simp only [if_neg hkeeps, bind_eq, pure_eq] at h
    obtain ⟨v, d₁, hvalue, _, d₂, hrecord, rfl, rfl⟩ := h
    have hsub : inner.ids ⊆ (group info inner).innerIds := by
      rw [innerIds_group]
      exact List.Subset.refl _
    have hshape := (ih d v d₁ hvalue (hproper.ofBody rfl)).imp fun _ _ _ hP =>
      (.group hP : Settled.Shape strict m (group info inner) v)
    refine hrecorded hshape hrecord (fun cell hcell => ?_) (fun hcell => ?_)
      (not_hasMarker_of_not_keepsGroup hkeeps)
    · have hids := List.Subset.trans hsub (innerIds_subset _)
      exact Cell.known_mono hids hids hcell
    · exact hproper.id_not_mem (hsub hcell)
  case case43 =>
    intro hint e halternation hgroup ih d r d' h hproper
    rw [groupValue_other halternation hgroup] at h
    refine ((ih d r d' h hproper).mono fun cell hcell => ?_).imp fun _ _ _ hP => hP.1
    exact elementCells_sub hcell (List.Subset.refl _) (List.Subset.refl _)

end AnnotatedGrammar.Build
