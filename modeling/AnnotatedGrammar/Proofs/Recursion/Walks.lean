import Mathlib.Tactic.MkIffOfInductiveProp
import AnnotatedGrammar.Proofs.Analysis.Outcome
import AnnotatedGrammar.Proofs.Recursion.Asks
import AnnotatedGrammar.Proofs.Recursion.Reads

/-!
# What the walks ask for

By one induction over the walks: each asks for the values of exactly the rules that its expression
depends on, in the order of the text. A class is no shelter here, since its fields are collected
before anything comes of the expression that carries it.
-/

namespace AnnotatedGrammar.Build

open AnnotatedGrammar.Expr

/-- Every walk asks for what its expression depends on. -/
@[mk_iff]
structure WalkAsks (bodies : RuleId → List NodeId) (visit : RuleId → Build (Option Value))
    (sc : RuleScope) : Prop where
  elementValue : ∀ e allowed, ∀ d r d', elementValue visit sc e allowed d = (r, d') → e.Proper →
    Asking bodies visit e.elementCells (e.reads sc.toScope false) d d'
  structuralValue : ∀ e, ∀ d r d', structuralValue visit sc e d = (r, d') → e.Proper →
    Asking bodies visit e.shapeCells (e.innerReads sc.toScope) d d'
  alternationValue : ∀ info branches hint, ∀ d r d',
    alternationValue visit sc info branches hint d = (r, d') →
      (alternation info branches).Proper → Asking bodies visit (choiceCells info branches)
        ((alternation info branches).innerReads sc.toScope) d d'
  elementValues : ∀ es, ∀ d r d', elementValues visit sc es d = (r, d') → AllProper es →
    Asking bodies visit (allCells es) (readsAll sc.toScope false es) d d'
  polymorphicBranches : ∀ base index branches, ∀ d u d',
    polymorphicBranches visit sc base index branches d = (u, d') → AllProper branches →
      (∀ b ∈ branches, b.isAlternation = false) →
        Asking bodies visit (allCells branches) (readsAll sc.toScope true branches) d d'
  collectFields : ∀ e c outer branch isBearer, ∀ d u d',
    collectFields visit sc e c outer branch isBearer d = (u, d') → e.Proper →
      Asking bodies visit (contentCells c e isBearer)
        (if isBearer then e.innerReads sc.toScope else e.reads sc.toScope false) d d'
  ownValue : ∀ e isBearer, ∀ d r d', ownValue visit sc e isBearer d = (r, d') → e.Proper →
    Asking bodies visit (if isBearer then e.shapeCells else e.elementCells)
      (if isBearer then e.innerReads sc.toScope else e.reads sc.toScope false) d d'
  collectItems : ∀ items c outer branch, ∀ d u d',
    collectItems visit sc items c outer branch d = (u, d') → AllProper items →
      Asking bodies visit (contentsCells c items) (readsAll sc.toScope false items) d d'
  bearerClass : ∀ e, ∀ d c d', bearerClass visit sc e d = (c, d') → e.Proper →
    e.hasMarker .classOf = true →
      Asking bodies visit e.bearerCells (e.innerReads sc.toScope) d d'
  fillClass : ∀ c content isBearer, ∀ d u d',
    fillClass visit sc c content isBearer d = (u, d') → content.Proper →
      Asking bodies visit (contentCells c content isBearer) (content.fillReads sc.toScope isBearer)
        d d'
  collectBranches : ∀ c index branches, ∀ d u d',
    collectBranches visit sc c index branches d = (u, d') → AllProper branches →
      Asking bodies visit (contentsCells c branches) (readsAll sc.toScope false branches) d d'
  groupValue : ∀ body hint, ∀ d r d', groupValue visit sc body hint d = (r, d') → body.Proper →
    Asking bodies visit (Cell.known body.ids body.ids) (body.reads sc.toScope false) d d'

variable {bodies : RuleId → List NodeId} {visit : RuleId → Build (Option Value)} {sc : RuleScope}
  {d d₁ d₂ d' : Draft} {e body : Expr} {rest branches : List Expr} {info : NodeInfo} {c : ClassId}
  {u : Unit} {r v : Option Value} {rs rs₁ rs₂ : List RuleId} {S : Cell → Prop}

/-! ## Elements -/

/-- An element is finished behind the walk that finds its value. -/
theorem finished_asking {allowed : Bool} (h : Asking bodies visit S rs d d₁)
    (hfinish : finishElement sc e v allowed d₁ = (r, d'))
    (hS : ∀ cell, S cell → e.elementCells cell)
    (hnot : ¬S (.value e.id)) : Asking bodies visit e.elementCells rs d d' := by
  refine h.before_quiet (T := fun cell => cell = .value e.id)
    (fun _ _ => (finishElement_spec hfinish).2.1.quiet rfl)
    (silent.finishElement _ _ _ hfinish) hS ?_ ?_
  · rintro cell rfl
    exact e.id_mem_ids
  · rintro cell hcell rfl
    exact hnot hcell

/-- The value of an expression is recorded behind the walk that finds it. -/
theorem recorded_asking (h : Asking bodies visit S rs d d₁)
    (hrecord : recordValue e.id v d₁ = (u, d')) (hS : ∀ cell, S cell → Cell.known e.ids e.ids cell)
    (hnot : ¬S (.value e.id)) : Asking bodies visit (Cell.known e.ids e.ids) rs d d' := by
  refine h.before_quiet (T := fun cell => cell = .value e.id)
    (fun _ _ => recordValue_quiet hrecord rfl) (silent.recordValue _ _ _ hrecord) hS ?_ ?_
  · rintro cell rfl
    exact e.id_mem_ids
  · rintro cell hcell rfl
    exact hnot hcell

/-- An expression and those after it. -/
theorem cons_asking (h₁ : Asking bodies visit e.elementCells rs₁ d d₁)
    (h₂ : Asking bodies visit (allCells rest) rs₂ d₁ d') (hproper : AllProper (e :: rest)) :
    Asking bodies visit (allCells (e :: rest)) (rs₁ ++ rs₂) d d' :=
  h₁.seq h₂ (fun _ => allCells_elementCells) (fun _ => allCells_tail)
    (hproper.known_disjoint (List.Subset.refl _) e.classIds_subset)

/-! ## Alternatives -/

/-- A class is made for an expression. -/
theorem opened_recursions {kind : ClassKind} {origin : ClassOrigin} {node : NodeId}
    (hnew : Creates sc.toScope kind origin c d d₁) (hrecord : recordClass node c d₁ = (u, d')) :
    d'.recursions = d.recursions :=
  (silent.recordClass _ _ _ hrecord).trans hnew.recursions_eq

theorem alternationValue_asking_polymorphic {hint : Option String}
    (hpolymorphic : sc.isPolymorphic (alternation info branches) = true)
    (ih : ∀ base d u d', polymorphicBranches visit sc base 0 branches d = (u, d') →
      AllProper branches → (∀ b ∈ branches, b.isAlternation = false) →
        Asking bodies visit (allCells branches) (readsAll sc.toScope true branches) d d')
    (h : alternationValue visit sc info branches hint d = (r, d'))
    (hproper : (alternation info branches).Proper) :
    Asking bodies visit (choiceCells info branches)
      ((alternation info branches).innerReads sc.toScope) d d' := by
  obtain ⟨base, d₁, d₂, rfl, hnew, hrecord, hbranches⟩ :=
    alternationValue_polymorphic_parts hpolymorphic h
  have hinner := ih base d₂ () d' hbranches hproper.children hproper.isAlternation_branches
  rw [innerReads, hpolymorphic]
  refine .opened (opened hnew (.inl rfl) hrecord) (opened_recursions hnew hrecord) hinner
    List.mem_cons_self fun cell hcell => .inl ⟨?_, ?_⟩
  · exact Cell.known_mono (List.Subset.refl _) (List.subset_cons_self _ _) hcell
  · rintro rfl
    exact hproper.id_not_mem hcell

theorem alternationValue_asking_plain {hint : Option String}
    (hpolymorphic : ¬sc.isPolymorphic (alternation info branches) = true)
    (ih : ∀ d r d', elementValues visit sc branches d = (r, d') → AllProper branches →
      Asking bodies visit (allCells branches) (readsAll sc.toScope false branches) d d')
    (h : alternationValue visit sc info branches hint d = (r, d'))
    (hproper : (alternation info branches).Proper) :
    Asking bodies visit (choiceCells info branches)
      ((alternation info branches).innerReads sc.toScope) d d' := by
  obtain ⟨values, d₁, hvalues, hrest⟩ := alternationValue_plain_parts hpolymorphic h
  have hinner := ih d values d₁ hvalues hproper.children
  rw [innerReads, Bool.eq_false_iff.mpr hpolymorphic]
  have hsub : ∀ cell, allCells branches cell → choiceCells info branches cell := fun cell hcell =>
    Cell.known_mono (List.Subset.refl _) (List.subset_cons_self _ _) hcell
  rcases hrest with ⟨-, -, rfl⟩ | ⟨-, c, d₂, d₃, -, hnew, hrecord, hvariants⟩
  · exact hinner.mono hsub
  · refine hinner.before_quiet (T := fun cell => cell = .nodeClass info.id)
      (fun _ _ => (opened hnew (.inl rfl) hrecord).quiet_addVariants hvariants)
      ((silent.addVariants _ _ _ hvariants).trans (opened_recursions hnew hrecord)) hsub ?_ ?_
    · rintro cell rfl
      exact List.mem_cons_self
    · rintro cell hcell rfl
      exact hproper.id_not_mem hcell

/-! ## Branches under a base -/

section

variable {base : ClassId} {index : Nat} {branch : Expr}

/-- A branch that carries a class. -/
theorem polymorphicBranches_asking_bearing (hmarker : branch.core.hasMarker .classOf = true)
    (ih : ∀ d c d', bearerClass visit sc branch.core d = (c, d') → branch.core.Proper →
      branch.core.hasMarker .classOf = true →
        Asking bodies visit branch.core.bearerCells (branch.core.innerReads sc.toScope) d d')
    (ihrest : ∀ d u d', polymorphicBranches visit sc base (index + 1) rest d = (u, d') →
      AllProper rest → (∀ b ∈ rest, b.isAlternation = false) →
        Asking bodies visit (allCells rest) (readsAll sc.toScope true rest) d d')
    (h : polymorphicBranches visit sc base index (branch :: rest) d = (u, d'))
    (hproper : AllProper (branch :: rest))
    (halternation : ∀ b ∈ branch :: rest, b.isAlternation = false) :
    Asking bodies visit (allCells (branch :: rest)) (readsAll sc.toScope true (branch :: rest))
      d d' := by
  obtain ⟨c, d₁, d₂, d₃, d₄, r, hbearer, hbase, hfinish, hrecord, hrest⟩ :=
    polymorphicBranches_bearing hmarker h
  have hcore : branch.core.ids ⊆ branch.ids := (ids_core_sublist branch).subset
  have hcoreProper := hproper.head.core
  have hclass := ih d c d₁ hbearer hcoreProper hmarker
  have hbased : Asking bodies visit branch.core.bearerCells (branch.core.innerReads sc.toScope)
      d d₂ :=
    hclass.before_quiet (T := fun _ => False) (fun _ _ => (setBase_spec hbase).1)
      (silent.setBase _ _ _ hbase) (fun _ h => h) (fun _ h => h.elim) fun _ _ h => h
  have hfinished : Asking bodies visit (Cell.known branch.core.ids branch.core.ids)
      (branch.core.innerReads sc.toScope) d d₃ := by
    refine hbased.before_quiet (T := fun cell => cell = .value branch.core.id)
      (fun _ _ => (finishElement_spec hfinish).2.1.quiet rfl) (silent.finishElement _ _ _ hfinish)
      (fun cell hcell => Cell.known_mono (innerIds_subset _) (List.Subset.refl _) hcell) ?_ ?_
    · rintro cell rfl
      exact branch.core.id_mem_ids
    · rintro cell hcell rfl
      exact hcoreProper.id_not_mem hcell
  -- the value of the branch is recorded as well if parentheses stand around its core
  have hfirst : Asking bodies visit (Cell.known branch.ids branch.ids)
      (branch.core.innerReads sc.toScope) d d₄ := by
    rcases hrecord with ⟨-, rfl⟩ | ⟨hdiffer, hrecord⟩
    · exact hfinished.mono fun cell hcell => Cell.known_mono hcore hcore hcell
    · refine recorded_asking hfinished hrecord
        (fun cell hcell => Cell.known_mono hcore hcore hcell) fun hmem => ?_
      rcases branch.core_cases with heq | ⟨-, hinner⟩
      · exact hdiffer (congrArg Expr.id heq)
      · exact hproper.head.id_not_mem (hinner hmem)
  rw [readsAll, reads_branch hmarker]
  refine hfirst.seq (ihrest d₄ () d' hrest hproper.tail
    fun b hb => halternation b (List.mem_cons_of_mem _ hb)) (fun cell hcell => ?_)
    (fun _ => allCells_tail)
    (hproper.known_disjoint (List.Subset.refl _) (List.Subset.refl _))
  have hleft := ids_subset_idsAll_cons branch rest
  exact Cell.known_mono hleft hleft hcell

/-- A branch that refers to a rule with a class. -/
theorem polymorphicBranches_asking_referring (hmarker : ¬branch.core.hasMarker .classOf = true)
    (hclass : sc.referencedClass? branch.core = some c)
    (ih : ∀ d r d', elementValue visit sc branch false d = (r, d') → branch.Proper →
      Asking bodies visit branch.elementCells (branch.reads sc.toScope false) d d')
    (ihrest : ∀ d u d', polymorphicBranches visit sc base (index + 1) rest d = (u, d') →
      AllProper rest → (∀ b ∈ rest, b.isAlternation = false) →
        Asking bodies visit (allCells rest) (readsAll sc.toScope true rest) d d')
    (h : polymorphicBranches visit sc base index (branch :: rest) d = (u, d'))
    (hproper : AllProper (branch :: rest))
    (halternation : ∀ b ∈ branch :: rest, b.isAlternation = false) :
    Asking bodies visit (allCells (branch :: rest)) (readsAll sc.toScope true (branch :: rest))
      d d' := by
  obtain ⟨d₁, r, d₂, hbase, hvalue, hrest⟩ := polymorphicBranches_referring hmarker hclass h
  have hbased : Asking bodies visit (fun _ => False) [] d d₁ :=
    .of_quiet (fun _ _ => (setBase_spec hbase).1) (silent.setBase _ _ _ hbase)
  have hfirst : Asking bodies visit branch.elementCells (branch.reads sc.toScope false) d d₂ :=
    hbased.seq (ih d₁ r d₂ hvalue hproper.head) (fun _ h => h.elim) (fun _ h => h) fun _ h => h.elim
  rw [readsAll, reads_of_not_carried hmarker]
  exact cons_asking hfirst (ihrest d₂ () d' hrest hproper.tail
    fun b hb => halternation b (List.mem_cons_of_mem _ hb)) hproper

/-- A branch that gets a class of its own. -/
theorem polymorphicBranches_asking_synthesized (hmarker : ¬branch.core.hasMarker .classOf = true)
    (hclass : sc.referencedClass? branch.core = none)
    (ih : ∀ c d u d', collectFields visit sc branch c .scalar 0 false d = (u, d') →
      branch.Proper → Asking bodies visit (contentCells c branch false)
        (if false then branch.innerReads sc.toScope else branch.reads sc.toScope false) d d')
    (ihrest : ∀ d u d', polymorphicBranches visit sc base (index + 1) rest d = (u, d') →
      AllProper rest → (∀ b ∈ rest, b.isAlternation = false) →
        Asking bodies visit (allCells rest) (readsAll sc.toScope true rest) d d')
    (h : polymorphicBranches visit sc base index (branch :: rest) d = (u, d'))
    (hproper : AllProper (branch :: rest))
    (halternation : ∀ b ∈ branch :: rest, b.isAlternation = false) :
    Asking bodies visit (allCells (branch :: rest)) (readsAll sc.toScope true (branch :: rest))
      d d' := by
  obtain ⟨c, d₁, d₂, d₃, d₄, d₅, hnew, hbase, hrecord, hvalue, hcollect, hrest⟩ :=
    polymorphicBranches_synthesized_parts hmarker hclass h
  have hopened := (opened_derived hnew hbase hrecord).1
  have hrecursions : d₃.recursions = d.recursions :=
    (silent.recordClass _ _ _ hrecord).trans
      ((silent.setBase _ _ _ hbase).trans hnew.recursions_eq)
  have hclassIds := classIds_of_core hmarker (halternation branch List.mem_cons_self)
  have hcollected := (ih c d₄ () d₅ hcollect hproper.head).after_record hvalue
    (.inl branch.id_mem_ids)
  rw [if_neg Bool.false_ne_true] at hcollected
  have hfirst : Asking bodies visit (Cell.known branch.ids branch.ids)
      (branch.reads sc.toScope false) d d₅ := by
    refine hcollected.opened hopened hrecursions branch.id_mem_ids ?_
    rintro cell (hcell | hcell)
    · refine .inl ⟨elementCells_sub hcell (List.Subset.refl _) (List.Subset.refl _), ?_⟩
      rintro rfl
      have hmem : branch.id ∈ branch.classIds := hcell
      rw [hclassIds] at hmem
      exact hproper.head.id_not_mem hmem
    · cases cell with
      | filling c' id =>
        obtain ⟨rfl, hid⟩ := hcell
        exact .inr ⟨id, rfl, hid⟩
      | value | nodeClass | variants => exact hcell.elim
  rw [readsAll, reads_of_not_carried hmarker]
  refine hfirst.seq (ihrest d₅ () d' hrest hproper.tail
    fun b hb => halternation b (List.mem_cons_of_mem _ hb)) (fun cell hcell => ?_)
    (fun _ => allCells_tail) (hproper.known_disjoint (List.Subset.refl _) (List.Subset.refl _))
  have hleft := ids_subset_idsAll_cons branch rest
  exact Cell.known_mono hleft hleft hcell

end

/-! ## Contents of classes -/

section

variable {outer : Cardinality} {branch : Nat} {isBearer own : Bool}

/-- A value is put into a field of a class behind the walk that finds it. -/
theorem addField_asking
    (h : Asking bodies visit (if isBearer then e.shapeCells else e.elementCells) rs d d₁)
    (hadd : addField c e v outer branch own d₁ = (u, d')) :
    Asking bodies visit (contentCells c e isBearer) rs d d' := by
  refine h.before_quiet (T := fun cell => cell = .filling c e.id)
    (fun hwf hopen => addField_quiet hadd hwf (hopen _ rfl).2.2 rfl) (silent.addField _ _ _ hadd)
    (fun _ => .inl) ?_ ?_
  · rintro cell rfl
    exact .inr ⟨rfl, e.id_mem_ids⟩
  · rintro cell hcell rfl
    cases isBearer <;> exact hcell

/-- An expression that stands for one value inside a class. -/
theorem collectFields_asking_unit (hunit : e.IsUnit)
    (hskip : ¬(!isBearer && e.hasMarker .skip) = true)
    (hfield : ¬(!isBearer && e.isFieldElement) = true)
    (ih : ∀ d r d', ownValue visit sc e isBearer d = (r, d') → e.Proper →
      Asking bodies visit (if isBearer then e.shapeCells else e.elementCells)
        (if isBearer then e.innerReads sc.toScope else e.reads sc.toScope false) d d')
    (h : collectFields visit sc e c outer branch isBearer d = (u, d')) (hproper : e.Proper) :
    Asking bodies visit (contentCells c e isBearer)
      (if isBearer then e.innerReads sc.toScope else e.reads sc.toScope false) d d' := by
  rw [collectFields_unit hskip hfield hunit] at h
  obtain ⟨r, d₁, hvalue, hadd⟩ := bind_eq.mp h
  exact addField_asking (ih d r d₁ hvalue hproper) hadd

/-- What is collected from an expression that is not passed over is what stands inside. -/
theorem reads_of_collected (hskip : ¬(!isBearer && e.hasMarker .skip) = true) :
    (if isBearer then e.innerReads sc.toScope else e.reads sc.toScope false) =
      e.innerReads sc.toScope := by
  cases isBearer with
  | true => rfl
  | false => exact reads_of_not_skip hskip

/-- A part of an expression inside the content of a class. -/
theorem collectFields_asking_part (hbody : e.children = [body])
    (hreads : e.innerReads sc.toScope = body.reads sc.toScope false)
    (hskip : ¬(!isBearer && e.hasMarker .skip) = true)
    (h : Asking bodies visit (contentCells c body false)
      (if false then body.innerReads sc.toScope else body.reads sc.toScope false) d d') :
    Asking bodies visit (contentCells c e isBearer)
      (if isBearer then e.innerReads sc.toScope else e.reads sc.toScope false) d d' := by
  rw [reads_of_collected hskip, hreads]
  refine h.mono fun cell hcell => contentCells_sub hcell ?_
  rw [innerIds, hbody]
  exact ids_subset_idsAll_cons body []

/-- An expression and those after it in the content of a class. -/
theorem contents_asking_cons (hproper : AllProper (e :: rest))
    (h₁ : Asking bodies visit (contentCells c e false) rs₁ d d₁)
    (h₂ : Asking bodies visit (contentsCells c rest) rs₂ d₁ d') :
    Asking bodies visit (contentsCells c (e :: rest)) (rs₁ ++ rs₂) d d' :=
  h₁.seq h₂ (fun _ => contentsCells_head) (fun _ => contentsCells_tail)
    fun _ => hproper.contents_disjoint

end

/-! ## Carriers of classes -/

theorem bearerClass_asking
    (ihbranches : ∀ base info branches, e.classContent.1.core = alternation info branches →
      ∀ d u d', polymorphicBranches visit sc base 0 branches d = (u, d') → AllProper branches →
        (∀ b ∈ branches, b.isAlternation = false) →
          Asking bodies visit (allCells branches) (readsAll sc.toScope true branches) d d')
    (ihfill : ∀ c d u d', fillClass visit sc c e.classContent.1 e.classContent.2 d = (u, d') →
      e.classContent.1.Proper →
        Asking bodies visit (contentCells c e.classContent.1 e.classContent.2)
          (e.classContent.1.fillReads sc.toScope e.classContent.2) d d')
    (h : bearerClass visit sc e d = (c, d')) (hproper : e.Proper)
    (hmarker : e.hasMarker .classOf = true) :
    Asking bodies visit e.bearerCells (e.innerReads sc.toScope) d d' := by
  have hself : e.bearerCells (.nodeClass e.id) := e.id_mem_ids
  have hunmade {rs : List RuleId} (hclass : d.nodeClasses.get? e.id = some c) :
      Asking bodies visit e.bearerCells rs d d' := by
    intro _ hopen
    have hfresh : d.nodeClasses.get? e.id = none := (hopen _ hself).1
    rw [hfresh] at hclass
    cases hclass
  rw [innerReads_classContent]
  by_cases hpolymorphic : sc.isPolymorphic e.classContent.1.core = true
  · obtain ⟨info, branches, hcore⟩ := Scope.alternation_of_isPolymorphic hpolymorphic
    rw [reads_content_of_core hproper.classContent hcore, hpolymorphic]
    rw [hcore] at hpolymorphic
    rcases bearerClass_polymorphic hcore hpolymorphic h with ⟨hclass, -⟩ |
      ⟨-, d₁, d₂, d₃, hnew, hrecord, hinner, hbranches⟩
    · exact hunmade hclass
    have hinfo := hproper.classContent_core hmarker hcore
    have hcoreProper : (alternation info branches).Proper := hcore ▸ hproper.classContent.core
    have hsub : idsAll branches ⊆ e.innerIds := fun id hid =>
      e.innerIds_classContent_subset (idsAll_subset_of_core hcore hid)
    have hinside := ihbranches c info branches hcore d₃ () d' hbranches hcoreProper.children
      hcoreProper.isAlternation_branches
    have hrecorded : Asking bodies visit (fun cell => cell = .nodeClass info.id) [] d₂ d₃ :=
      .of_quiet (fun _ _ => recordClass_quiet hinner rfl) (silent.recordClass _ _ _ hinner)
    have hwhole := hrecorded.seq
      (S := fun cell => cell = .nodeClass info.id ∨ allCells branches cell) hinside
      (fun _ => .inl) (fun _ => .inr) (by
        rintro cell rfl hcell
        exact hcoreProper.id_not_mem hcell)
    refine hwhole.opened (opened hnew (.inl rfl) hrecord) (opened_recursions hnew hrecord) hself ?_
    rintro cell (rfl | hcell)
    · refine .inl ⟨e.innerIds_subset hinfo, fun heq => hproper.id_not_mem ?_⟩
      rw [← Cell.nodeClass.inj heq]
      exact hinfo
    · refine .inl ⟨Cell.known_mono hsub (fun id hid => e.innerIds_subset (hsub hid)) hcell, ?_⟩
      rintro rfl
      exact hproper.id_not_mem (hsub hcell)
  · rcases bearerClass_concrete hpolymorphic h with ⟨hclass, -⟩ | ⟨-, d₁, d₂, hnew, hrecord, hfill⟩
    · exact hunmade hclass
    rw [← fillReads_of_not_polymorphic hproper.classContent hpolymorphic]
    refine (ihfill c d₂ () d' hfill hproper.classContent).opened
      (opened hnew (.inl rfl) hrecord) (opened_recursions hnew hrecord) hself ?_
    rintro cell (hcell | hcell)
    · have hinside := hproper.classContent_cells hmarker hcell
      refine .inl ⟨Cell.known_mono (List.Subset.refl _) e.innerIds_subset hinside, ?_⟩
      rintro rfl
      exact hproper.id_not_mem hinside
    · cases cell with
      | filling c' id =>
        obtain ⟨rfl, hid⟩ := hcell
        exact .inr ⟨id, rfl, ids_classContent_subset e hid⟩
      | value | nodeClass | variants => exact hcell.elim

/-! ## All walks -/

/-- A class is filled from several alternatives. -/
theorem fillClass_asking_several {isBearer : Bool}
    (hbranches : e.classAlternatives? = some branches)
    (ih : ∀ d u d', collectBranches visit sc c 0 branches d = (u, d') → AllProper branches →
      Asking bodies visit (contentsCells c branches) (readsAll sc.toScope false branches) d d')
    (h : fillClass visit sc c e isBearer d = (u, d')) (hproper : e.Proper) :
    Asking bodies visit (contentCells c e isBearer) (e.fillReads sc.toScope isBearer) d d' := by
  obtain ⟨d₁, hcollect, hrelax⟩ := fillClass_several hbranches h
  obtain ⟨info, hcore⟩ := core_of_classAlternatives hbranches
  rw [fillReads, hbranches]
  exact (ih d () d₁ hcollect (hproper.ofClassAlternatives hbranches)).before_quiet
    (T := fun _ => False) (fun _ _ => relaxPartial_quiet hrelax) (silent.relaxPartial _ _ _ hrelax)
    (fun _ hcell => contentsCells_sub hcell (idsAll_subset_of_core hcore)) (fun _ h => h.elim)
    fun _ _ h => h

/-- Every walk asks for what its expression depends on, if the steps into rules keep to what
belongs to rules. -/
theorem walkAsks (hvisit : ∀ id d r d', visit id d = (r, d') → d.WellFormed →
      Frame bodies (fun _ => False) d d') : WalkAsks bodies visit sc := by
  have hwrapped {e body : Expr} {d d₁ : Draft} (hbody : e.children = [body])
      (hreads : e.innerReads sc.toScope = body.reads sc.toScope false)
      (h : Asking bodies visit body.elementCells (body.reads sc.toScope false) d d₁) :
      Asking bodies visit e.shapeCells (e.innerReads sc.toScope) d d₁ := by
    have hsub : body.ids ⊆ e.innerIds := by
      rw [innerIds, hbody]
      exact ids_subset_idsAll_cons body []
    rw [hreads]
    refine h.mono fun cell hcell => ?_
    exact elementCells_sub hcell hsub (List.Subset.trans hsub e.innerIds_subset_shapeClassIds)
  rw [walkAsks_iff]
  apply elementValue.mutual_induct visit sc
  case case1 =>
    intro e allowed hskip d r d' h hproper
    rw [elementValue] at h
    simp only [if_pos hskip, bind_eq, pure_eq] at h
    obtain ⟨_, _, ⟨rfl, rfl⟩, h⟩ := h
    rw [reads_of_skip hskip]
    exact finished_asking (S := fun _ => False) (.refl _) h (fun _ h => h.elim) fun h => h
  case case2 =>
    intro e allowed hskip hmarker ih d r d' h hproper
    rw [elementValue] at h
    simp only [if_neg hskip, if_pos hmarker, bind_eq, map_eq] at h
    obtain ⟨_, d₁, ⟨c, hbearer, rfl⟩, h⟩ := h
    rw [reads_of_not_skip hskip]
    refine finished_asking (ih d c d₁ hbearer hproper hmarker) h (fun cell hcell => ?_)
      hproper.id_not_mem
    refine Cell.known_mono e.innerIds_subset ?_ hcell
    rw [classIds, if_pos hmarker]
    exact List.Subset.refl _
  case case3 =>
    intro e allowed hskip hmarker ih d r d' h hproper
    rw [elementValue] at h
    simp only [if_neg hskip, if_neg hmarker, bind_eq] at h
    obtain ⟨v, d₁, hshape, h⟩ := h
    rw [reads_of_not_skip hskip]
    exact finished_asking (ih d v d₁ hshape hproper) h (fun _ => shapeCells_sub) hproper.id_not_mem
  case case4 =>
    intro info text d r d' h hproper
    rw [structuralValue] at h
    obtain ⟨-, rfl⟩ := pure_eq.mp h
    exact .refl _
  case case5 =>
    intro info p d r d' h hproper
    rw [structuralValue] at h
    obtain ⟨-, rfl⟩ := pure_eq.mp h
    exact .refl _
  case case6 =>
    intro info name p hname d r d' h hproper
    rw [structuralValue] at h
    rw [hname] at h
    obtain ⟨-, rfl⟩ := pure_eq.mp h
    rw [innerReads, SymbolTable.ruleId?, hname]
    exact .refl _
  case case7 =>
    intro info name id hname d r d' h hproper
    rw [structuralValue] at h
    rw [hname] at h
    rw [innerReads, SymbolTable.ruleId?, hname]
    exact .of_visit h (hvisit id d r d' h)
  case case8 =>
    intro info name hname d r d' h hproper
    rw [structuralValue] at h
    rw [hname] at h
    obtain ⟨-, rfl⟩ := pure_eq.mp h
    rw [innerReads, SymbolTable.ruleId?, hname]
    exact .refl _
  case case9 =>
    intro info body ih d r d' h hproper
    rw [structuralValue] at h
    have hsub : body.ids ⊆ (group info body).innerIds := by
      rw [innerIds_group]
      exact List.Subset.refl _
    refine (ih d r d' h (hproper.ofBody rfl)).mono fun cell hcell => ?_
    exact Cell.known_mono hsub (List.Subset.trans hsub (innerIds_subset_shapeClassIds _)) hcell
  case case10 =>
    intro info items ih d r d' h hproper
    rw [structuralValue] at h
    obtain ⟨values, d₁, hvalues, hsingle⟩ := bind_eq.mp h
    refine (ih d values d₁ hvalues hproper.children).before_quiet (T := fun _ => False)
      (fun _ _ => (singleValue_spec hsingle).1.quiet) (silent.singleValue _ _ _ hsingle)
      (fun cell hcell => ?_) (fun _ h => h.elim) fun _ _ h => h
    exact Cell.known_mono (List.Subset.refl _) (innerIds_subset_shapeClassIds _) hcell
  case case11 =>
    intro info branches ih d r d' h hproper
    rw [structuralValue] at h
    refine (ih d r d' h hproper).mono fun cell hcell =>
      Cell.known_mono (List.Subset.refl _) ?_ hcell
    rw [shapeClassIds, isAlternation, if_pos rfl, ids_eq]
    exact List.Subset.refl _
  case case12 =>
    intro info body ih d r d' h hproper
    rw [structuralValue] at h
    simp only [bind_eq, pure_eq] at h
    obtain ⟨v, d₁, hvalue, -, rfl⟩ := h
    exact hwrapped rfl rfl (ih d v d₁ hvalue (hproper.ofBody rfl))
  case case13 =>
    intro info body kind ih d r d' h hproper
    rw [structuralValue] at h
    simp only [bind_eq, pure_eq] at h
    obtain ⟨v, d₁, hvalue, -, rfl⟩ := h
    exact hwrapped rfl rfl (ih d v d₁ hvalue (hproper.ofBody rfl))
  case case14 =>
    intro info branches hint hpolymorphic ih d r d' h hproper
    exact alternationValue_asking_polymorphic hpolymorphic ih h hproper
  case case15 =>
    intro info branches hint hpolymorphic ih d r d' h hproper
    exact alternationValue_asking_plain hpolymorphic ih h hproper
  case case16 =>
    intro d r d' h hproper
    rw [elementValues] at h
    obtain ⟨-, rfl⟩ := pure_eq.mp h
    exact .refl _
  case case17 =>
    intro e rest ih ihrest d r d' h hproper
    rw [elementValues] at h
    simp only [bind_eq, pure_eq] at h
    obtain ⟨v, d₁, hvalue, vs, d₂, hrest, -, rfl⟩ := h
    exact cons_asking (ih d v d₁ hvalue hproper.head) (ihrest d₁ vs d₂ hrest hproper.tail) hproper
  case case18 =>
    intro base index d u d' h hproper halternation
    rw [polymorphicBranches] at h
    obtain ⟨-, rfl⟩ := pure_eq.mp h
    exact .refl _
  case case19 =>
    intro base index branch rest hmarker ihrest ih d u d' h hproper halternation
    exact polymorphicBranches_asking_bearing hmarker ih ihrest h hproper halternation
  case case20 =>
    intro base index branch rest hmarker c hclass ihrest ih d u d' h hproper halternation
    exact polymorphicBranches_asking_referring hmarker hclass ih ihrest h hproper halternation
  case case21 =>
    intro base index branch rest hmarker hclass ihrest ih d u d' h hproper halternation
    exact polymorphicBranches_asking_synthesized hmarker hclass ih ihrest h hproper halternation
  case case22 =>
    intro e c outer branch isBearer hskip d u d' h hproper
    rw [collectFields_skip hskip] at h
    cases isBearer with
    | true => cases hskip
    | false =>
      have hskipped : e.hasMarker .skip = true := hskip
      rw [if_neg Bool.false_ne_true, reads_of_skip hskipped]
      exact .of_quiet (fun _ _ => recordValue_quiet h (.inl e.id_mem_ids))
        (silent.recordValue _ _ _ h)
  case case23 =>
    intro e c outer branch isBearer hskip hfield ih d u d' h hproper
    rw [collectFields_field hskip hfield] at h
    obtain ⟨v, d₁, hvalue, hadd⟩ := bind_eq.mp h
    cases isBearer with
    | true => cases hfield
    | false => exact addField_asking (ih d v d₁ hvalue hproper) hadd
  case case24 =>
    intro c outer branch isBearer info items hskip hfield ih d u d' h hproper
    rw [collectFields, if_neg hskip, if_neg hfield] at h
    rw [reads_of_collected hskip]
    exact (ih d u d' h hproper.children).mono fun cell hcell =>
      contentsCells_sub hcell (List.Subset.refl _)
  case case25 =>
    intro c outer branch isBearer info body hskip hfield ih d u d' h hproper
    rw [collectFields, if_neg hskip, if_neg hfield] at h
    exact collectFields_asking_part rfl rfl hskip (ih d u d' h (hproper.ofBody rfl))
  case case26 =>
    intro c outer branch isBearer info body hsimple hskip hfield ih d u d' h hproper
    exact collectFields_asking_unit hsimple hskip hfield ih h hproper
  case case27 =>
    intro c outer branch isBearer info body hsimple hskip hfield ih d u d' h hproper
    rw [collectFields, if_neg hskip, if_neg hfield, if_neg hsimple] at h
    exact collectFields_asking_part rfl rfl hskip (ih d u d' h (hproper.ofBody rfl))
  case case28 =>
    intro c outer branch isBearer info body kind hsimple hskip hfield ih d u d' h hproper
    exact collectFields_asking_unit hsimple hskip hfield ih h hproper
  case case29 =>
    intro c outer branch isBearer info body kind hsimple hskip hfield ih d u d' h hproper
    rw [collectFields, if_neg hskip, if_neg hfield, if_neg hsimple] at h
    exact collectFields_asking_part rfl rfl hskip (ih d u d' h (hproper.ofBody rfl))
  case case30 =>
    intro c outer branch isBearer e hsequence hgroup hoptional hrepeated hskip hfield ih d u d' h
      hproper
    exact collectFields_asking_unit (isUnit_of_other hsequence hgroup hoptional hrepeated) hskip
      hfield ih h hproper
  case case31 =>
    intro e ih d r d' h hproper
    rw [ownValue] at h
    exact ih d r d' h hproper
  case case32 =>
    intro e isBearer hbearer ih d r d' h hproper
    rw [ownValue] at h
    rw [if_neg hbearer] at h
    rw [if_neg hbearer, if_neg hbearer]
    exact ih d r d' h hproper
  case case33 =>
    intro c outer branch d u d' h hproper
    rw [collectItems] at h
    obtain ⟨-, rfl⟩ := pure_eq.mp h
    exact .refl _
  case case34 =>
    intro c outer branch e rest ih ihrest d u d' h hproper
    rw [collectItems] at h
    obtain ⟨_, d₁, hfirst, hrest⟩ := bind_eq.mp h
    exact contents_asking_cons hproper (ih d () d₁ hfirst hproper.head)
      (ihrest d₁ u d' hrest hproper.tail)
  case case35 =>
    intro e ihbranches ihfill ihfill' d c d' h hproper hmarker
    exact bearerClass_asking
      (fun base info branches hcore => ihbranches _ _ rfl info branches hcore base)
      (ihfill _ _ rfl []) h hproper hmarker
  case case36 =>
    intro c content isBearer branches hbranches ih d u d' h hproper
    exact fillClass_asking_several hbranches ih h hproper
  case case37 =>
    intro c content isBearer hbranches ih d u d' h hproper
    rw [fillReads, hbranches]
    exact ih d () d' (fillClass_single hbranches h) hproper
  case case38 =>
    intro c index d u d' h hproper
    rw [collectBranches] at h
    obtain ⟨-, rfl⟩ := pure_eq.mp h
    exact .refl _
  case case39 =>
    intro c index e rest ih ihrest d u d' h hproper
    rw [collectBranches] at h
    obtain ⟨_, d₁, hfirst, hrest⟩ := bind_eq.mp h
    exact contents_asking_cons hproper (ih d () d₁ hfirst hproper.head)
      (ihrest d₁ u d' hrest hproper.tail)
  case case40 =>
    intro hint info branches ih d r d' h hproper
    rw [groupValue] at h
    simp only [bind_eq, pure_eq] at h
    obtain ⟨v, d₁, hvalue, _, d₂, hrecord, -, rfl⟩ := h
    rw [reads_of_not_skip (hproper.hasMarker_alternation .skip)]
    refine recorded_asking (ih d v d₁ hvalue hproper) hrecord (fun cell hcell => ?_)
      hproper.id_not_mem
    refine Cell.known_mono (innerIds_subset _) ?_ hcell
    rw [ids_eq]
    exact List.Subset.refl _
  case case41 =>
    intro hint info inner hkeeps ih d r d' h hproper
    rw [groupValue] at h
    rw [if_pos hkeeps] at h
    refine (ih d r d' h hproper).mono fun cell hcell => ?_
    exact elementCells_sub hcell (List.Subset.refl _) (List.Subset.refl _)
  case case42 =>
    intro hint info inner hkeeps ih d r d' h hproper
    rw [groupValue] at h
    simp only [if_neg hkeeps, bind_eq, pure_eq] at h
    obtain ⟨v, d₁, hvalue, _, d₂, hrecord, -, rfl⟩ := h
    have hsub : inner.ids ⊆ (group info inner).innerIds := by
      rw [innerIds_group]
      exact List.Subset.refl _
    rw [reads_group_of_not_keepsGroup hkeeps]
    refine recorded_asking (ih d v d₁ hvalue (hproper.ofBody rfl)) hrecord (fun cell hcell => ?_)
      fun hcell => hproper.id_not_mem (hsub hcell)
    have hids := List.Subset.trans hsub (innerIds_subset _)
    exact Cell.known_mono hids hids hcell
  case case43 =>
    intro hint e halternation hgroup ih d r d' h hproper
    rw [groupValue_other halternation hgroup] at h
    refine (ih d r d' h hproper).mono fun cell hcell => ?_
    exact elementCells_sub hcell (List.Subset.refl _) (List.Subset.refl _)

end AnnotatedGrammar.Build
