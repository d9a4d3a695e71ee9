import AnnotatedGrammar.Proofs.Analysis.Elements

/-!
# What every walk settles

By one induction over the walks: without errors, each settles what its expression is. The steps into
rules are a premise here. Two walks in a row do not disturb each other because expressions have
different numbers.
-/

namespace AnnotatedGrammar.Build

open AnnotatedGrammar.Expr

/-- Every walk settles what its expressions are. -/
@[mk_iff]
structure WalkSettles (strict : Prop) (m : GrammarModel) (visit : RuleId → Build (Option Value))
    (sc : RuleScope) (bound : Nat) : Prop where
  elementValue : ∀ e allowed, ∀ d r d', elementValue visit sc e allowed d = (r, d') → e.Proper →
    Settling strict m sc.toScope sc.roles bound e.elementCells
      (Settled.Element strict m allowed e r ∧
        (e.hasMarker .optional = true → ∀ v, r = some v → v.cardinality ≠ .list)) d d'
  structuralValue : ∀ e, ∀ d r d', structuralValue visit sc e d = (r, d') → e.Proper →
    Settling strict m sc.toScope sc.roles bound e.shapeCells (Settled.Shape strict m e r) d d'
  alternationValue : ∀ info branches hint, ∀ d r d',
    alternationValue visit sc info branches hint d = (r, d') →
      (alternation info branches).Proper →
        Settling strict m sc.toScope sc.roles bound (choiceCells info branches)
          (Settled.Shape strict m (alternation info branches) r) d d'
  elementValues : ∀ es, ∀ d r d', elementValues visit sc es d = (r, d') → AllProper es →
    Settling strict m sc.toScope sc.roles bound (allCells es) (Settled.Elements strict m es r) d d'
  polymorphicBranches : ∀ base index branches, ∀ d u d',
    polymorphicBranches visit sc base index branches d = (u, d') → AllProper branches →
      (∀ b ∈ branches, b.isAlternation = false) →
        Settling strict m sc.toScope sc.roles bound (allCells branches)
          (Settled.BaseBranches strict m base branches) d d'
  collectFields : ∀ e c outer branch isBearer, ∀ d u d',
    collectFields visit sc e c outer branch isBearer d = (u, d') → e.Proper →
      Settling strict m sc.toScope sc.roles bound (contentCells c e isBearer)
        (Settled.Content strict m c e isBearer) d d'
  ownValue : ∀ e isBearer, ∀ d r d', ownValue visit sc e isBearer d = (r, d') → e.Proper →
    Settling strict m sc.toScope sc.roles bound
      (if isBearer then e.shapeCells else e.elementCells)
      (if isBearer then Settled.Shape strict m e r else
        Settled.Element strict m true e r ∧
          (e.hasMarker .optional = true → ∀ v, r = some v → v.cardinality ≠ .list)) d d'
  collectItems : ∀ items c outer branch, ∀ d u d',
    collectItems visit sc items c outer branch d = (u, d') → AllProper items →
      Settling strict m sc.toScope sc.roles bound (contentsCells c items)
        (Settled.Contents strict m c items) d d'
  bearerClass : ∀ e, ∀ d c d', bearerClass visit sc e d = (c, d') → e.Proper →
    e.hasMarker .classOf = true →
      Settling strict m sc.toScope sc.roles bound e.bearerCells
        (Settled.Bearer strict m e c ∧ c < d'.classes.size) d d'
  fillClass : ∀ c content isBearer, ∀ d u d',
    fillClass visit sc c content isBearer d = (u, d') → content.Proper →
      Settling strict m sc.toScope sc.roles bound (contentCells c content isBearer)
        (Settled.Body strict m c content isBearer) d d'
  collectBranches : ∀ c index branches, ∀ d u d',
    collectBranches visit sc c index branches d = (u, d') → AllProper branches →
      Settling strict m sc.toScope sc.roles bound (contentsCells c branches)
        (Settled.Contents strict m c branches) d d'
  groupValue : ∀ body hint, ∀ d r d', groupValue visit sc body hint d = (r, d') → body.Proper →
    Settling strict m sc.toScope sc.roles bound (Cell.known body.ids body.ids)
      (Settled.Element strict m false body r) d d'

variable {strict : Prop} {m : GrammarModel} {visit : RuleId → Build (Option Value)}
  {sc : RuleScope} {bound : Nat} {d d' : Draft}

/-! ## Alternatives -/

theorem length_elementValues {es : List Expr} {values : List (Option Value)}
    (h : elementValues visit sc es d = (values, d')) : es.length = values.length := by
  induction es generalizing values d with
  | nil =>
    rw [elementValues] at h
    obtain ⟨rfl, -⟩ := pure_eq.mp h
    rfl
  | cons e rest ih =>
    rw [elementValues] at h
    simp only [bind_eq, pure_eq] at h
    obtain ⟨_, _, _, _, _, hrest, rfl, rfl⟩ := h
    exact congrArg Nat.succ (ih hrest)

section

variable {info : NodeInfo} {branches : List Expr} {hint : Option String} {r : Option Value}

/-- Alternatives under a base. -/
theorem alternationValue_settles_polymorphic
    (hframes : WalkFrames (sc.lazyIds sc.roles) visit sc)
    (hpolymorphic : sc.isPolymorphic (alternation info branches) = true)
    (ih : ∀ base d u d', polymorphicBranches visit sc base 0 branches d = (u, d') →
      AllProper branches → (∀ b ∈ branches, b.isAlternation = false) →
        Settling strict m sc.toScope sc.roles bound (allCells branches)
          (Settled.BaseBranches strict m base branches) d d')
    (h : alternationValue visit sc info branches hint d = (r, d'))
    (hproper : (alternation info branches).Proper) :
    Settling strict m sc.toScope sc.roles bound (choiceCells info branches)
      (Settled.Shape strict m (alternation info branches) r) d d' := by
  obtain ⟨base, d₁, rfl, hopened, hbranches⟩ := alternationValue_polymorphic hpolymorphic h
  have hinner := ih base d₁ () d' hbranches hproper.children hproper.isAlternation_branches
  have hwhole := Settling.opened (S := choiceCells info branches) hopened (by simp) hinner
    (fun hwf _ => (hframes.polymorphicBranches base 0 branches d₁ () d' hbranches hwf).errors_eq)
    List.mem_cons_self fun cell hcell => .inl ⟨?_, ?_⟩
  · exact hwhole.imp fun _ _ _ hP => .choice hP.2.2.1 (.base hP.2.1 hP.1)
  · exact Cell.known_mono (List.Subset.refl _) (List.subset_cons_self _ _) hcell
  · rintro rfl
    exact hproper.id_not_mem hcell

/-- Alternatives that are the variants of a class, or that have no value. -/
theorem alternationValue_settles_plain
    (hpolymorphic : ¬sc.isPolymorphic (alternation info branches) = true)
    (ih : ∀ d r d', elementValues visit sc branches d = (r, d') → AllProper branches →
      Settling strict m sc.toScope sc.roles bound (allCells branches)
        (Settled.Elements strict m branches r) d d')
    (h : alternationValue visit sc info branches hint d = (r, d'))
    (hproper : (alternation info branches).Proper) :
    Settling strict m sc.toScope sc.roles bound (choiceCells info branches)
      (Settled.Shape strict m (alternation info branches) r) d d' := by
  obtain ⟨values, d₁, hvalues, hrest⟩ := alternationValue_plain hpolymorphic h
  have hnode : choiceCells info branches (.nodeClass info.id) := List.mem_cons_self
  have hnot : ¬allCells branches (.nodeClass info.id) := hproper.id_not_mem
  have hinner := ih d values d₁ hvalues hproper.children
  have hsub : ∀ cell, allCells branches cell → choiceCells info branches cell := fun cell hcell =>
    Cell.known_mono (List.Subset.refl _) (List.subset_cons_self _ _) hcell
  rcases hrest with ⟨hnone, rfl, rfl⟩ | ⟨hsome, c, d₂, rfl, hopened, hvariants⟩
  · exact (hinner.without_class hsub hnode hnot).imp fun _ _ _ hP => .alternation hP.1 hnone hP.2
  · obtain ⟨hquiet, made, hmade, hfor⟩ := addVariants_spec
      (S := fun cell => cell = .variants c ∨ ∃ id, cell = .filling c id) hvariants hopened.lt
      (.inl rfl) fun entry _ => .inr ⟨_, rfl⟩
    have hclasses := MakesNoClass.addVariants d₂ () d' hvariants
    have hlength := length_elementValues hvalues
    have hmade' : (d'.classAt c).variants = made := by
      rw [hmade, hopened.variants_eq, List.nil_append]
    have hkind : (d'.classAt c).kind = .tagged :=
      (hquiet.plain.kind_eq c hopened.lt).trans hopened.kind_eq
    have hsecond : Settling strict m sc.toScope sc.roles bound
        (fun cell => cell = .nodeClass info.id)
        (m.nodeClasses.get? info.id = some c ∧ ∃ model, m.class? c = some model ∧
          model.kind = .tagged ∧ Settled.VariantsOf strict m model.variants branches values)
        d₁ d' := by
      intro hsound hopen herrors
      have hquiet' := hopened.quiet_addVariants hvariants
      have hclaimed : d'.Claimed := hquiet'.claimed hsound.claimed (by simp)
      have hclass (htracks : Tracks strict m sc.toScope sc.roles d' (Cell.Touched
          (sc.lazyIds sc.roles) (fun cell => cell = .nodeClass info.id) d₁ d')) :
          m.nodeClasses.get? info.id = some c := by
        have htracked : (Cell.nodeClass info.id).Tracked strict m d' :=
          htracks.cells _ (hopen.touched (hquiet'.frame _) rfl)
        have hsame : (Cell.nodeClass info.id).Same d₂ d' := hquiet.same trivial (by simp)
        exact htracked.trans (hsame.trans hopened.class_eq)
      refine .ofQuiet hquiet' hclaimed (fun c' hge hlt _ => ?_) (fun htracks => ?_)
        fun htracks => ⟨hclass htracks, ?_⟩
      · obtain rfl := hopened.only hge (hclasses ▸ hlt)
        rw [hmade']
        rintro rfl
        have hzip := hfor.length_eq
        rw [List.length_zip, hlength, Nat.min_self] at hzip
        obtain ⟨v, hv, -⟩ := hsome
        exact absurd (List.eq_nil_of_length_eq_zero hzip) (List.ne_nil_of_mem hv)
      · exact (hopened.placed (hclass htracks)).trans (.of_size_le (Nat.le_of_eq hclasses))
          hquiet.plain
      · have hlt : c < d'.classes.size := hclasses ▸ hopened.lt
        obtain ⟨model, hmodel, hkept, -⟩ := htracks.keeps.class_kept c hlt
        have htracked : (Cell.variants c).Tracked strict m d' :=
          htracks.cells _ ⟨hlt, fun h => h, .inr (.inr hopened.not_lt)⟩
        refine ⟨model, hmodel, hkept.trans hkind, ?_⟩
        rw [htracked model hmodel, hmade']
        exact hfor.variantsOf hlength htracks.keeps
    have hseq := hinner.seq (S := choiceCells info branches) hsecond (fun hwf _ => ?_) hsub
      (by rintro cell rfl; exact hnode) (by rintro cell hcell rfl; exact hnot hcell)
    · refine hseq.imp fun _ _ _ hP => ?_
      obtain ⟨hbranches, hclass, model, hmodel, hkind, hvariants⟩ := hP
      exact .choice hclass (.tagged hmodel hkind hbranches hvariants)
    · exact fun herrors => hopened.quiet.plain.errors_eq (hquiet.plain.errors_eq herrors)

end

/-! ## Branches under a base -/

section

variable {base : ClassId} {index : Nat} {branch : Expr} {rest : List Expr} {u : Unit}

theorem allCells_head {cell : Cell} (h : cell = .value branch.id ∨ cell = .nodeClass branch.id) :
    allCells (branch :: rest) cell := by
  have hmem : branch.id ∈ idsAll (branch :: rest) :=
    ids_subset_idsAll_cons branch rest branch.id_mem_ids
  rcases h with rfl | rfl <;> exact hmem

theorem allCells_tail {cell : Cell} (h : allCells rest cell) : allCells (branch :: rest) cell :=
  Cell.known_mono (idsAll_subset_idsAll_cons branch rest) (idsAll_subset_idsAll_cons branch rest) h

theorem allCells_elementCells {cell : Cell} (h : branch.elementCells cell) :
    allCells (branch :: rest) cell :=
  elementCells_sub h (ids_subset_idsAll_cons branch rest) (ids_subset_idsAll_cons branch rest)

/-- A branch that carries a class. -/
theorem polymorphicBranches_settles_bearing
    (hframes : WalkFrames (sc.lazyIds sc.roles) visit sc)
    (hmarker : branch.core.hasMarker .classOf = true)
    (ih : ∀ d c d', bearerClass visit sc branch.core d = (c, d') → branch.core.Proper →
      branch.core.hasMarker .classOf = true →
        Settling strict m sc.toScope sc.roles bound branch.core.bearerCells
          (Settled.Bearer strict m branch.core c ∧ c < d'.classes.size) d d')
    (ihrest : ∀ d u d', polymorphicBranches visit sc base (index + 1) rest d = (u, d') →
      AllProper rest → (∀ b ∈ rest, b.isAlternation = false) →
        Settling strict m sc.toScope sc.roles bound (allCells rest)
          (Settled.BaseBranches strict m base rest) d d')
    (h : polymorphicBranches visit sc base index (branch :: rest) d = (u, d'))
    (hproper : AllProper (branch :: rest))
    (halternation : ∀ b ∈ branch :: rest, b.isAlternation = false) :
    Settling strict m sc.toScope sc.roles bound (allCells (branch :: rest))
      (Settled.BaseBranches strict m base (branch :: rest)) d d' := by
  obtain ⟨c, d₁, d₂, d₃, d₄, r, hbearer, hbase, hfinish, hrecord, hrest⟩ :=
    polymorphicBranches_bearing hmarker h
  have hcore : branch.core.ids ⊆ branch.ids := (ids_core_sublist branch).subset
  have hcoreIds : branch.core.ids ⊆ idsAll (branch :: rest) :=
    fun id hid => ids_subset_idsAll_cons branch rest (hcore hid)
  have hcoreProper := hproper.head.core
  have hcoreHead : branch.core.id ∈ branch.ids := hcore branch.core.id_mem_ids
  have hframe₁ : d.WellFormed → Frame (sc.lazyIds sc.roles) branch.core.bearerCells d d₁ :=
    hframes.bearerClass branch.core d c d₁ hbearer
  obtain ⟨hquiet₂, -, -⟩ := setBase_spec (S := fun _ => False) hbase
  have hquiet₃ : Quiet (fun cell => cell = .value branch.core.id) d₂ d₃ :=
    (finishElement_spec hfinish).2.1.quiet rfl
  have hframe₅ : d₄.WellFormed → Frame (sc.lazyIds sc.roles) (allCells rest) d₄ d' :=
    hframes.polymorphicBranches base (index + 1) rest d₄ () d' hrest
  -- the value of the branch is recorded as well if parentheses stand around its core
  have hquiet₄ :
      Quiet (fun cell => cell = .value branch.id ∧ branch.core.id ≠ branch.id) d₃ d₄ := by
    rcases hrecord with ⟨-, rfl⟩ | ⟨hdiffer, hrecord⟩
    · exact .refl _ _
    · exact recordValue_quiet hrecord ⟨rfl, hdiffer⟩
  have hstep₄ : Settling strict m sc.toScope sc.roles bound
      (fun cell => cell = .value branch.id ∧ branch.core.id ≠ branch.id) True d₃ d₄ := by
    rcases hrecord with ⟨-, rfl⟩ | ⟨hdiffer, hrecord⟩
    · exact .of_same fun _ => trivial
    · refine (Settling.ofRecordValue hrecord).mono (fun cell hcell => ⟨hcell, hdiffer⟩) |>.imp ?_
      exact fun _ _ _ _ => trivial
  have htail := ihrest d₄ () d' hrest hproper.tail
    fun b hb => halternation b (List.mem_cons_of_mem _ hb)
  have hlast := hstep₄.seq (S := fun cell => (cell = .value branch.id ∧
      branch.core.id ≠ branch.id) ∨ allCells rest cell) htail
    (fun hwf _ => (hframe₅ (hquiet₄.plain.wellFormed hwf)).errors_eq)
    (fun _ => .inl) (fun _ => .inr) (by
      rintro cell ⟨rfl, -⟩ hcell
      exact hproper.disjoint _ branch.id_mem_ids hcell)
  have hframe₄ (hwf : d₃.WellFormed) : d'.errors = #[] → d₃.errors = #[] := fun herrors =>
    hquiet₄.plain.errors_eq ((hframe₅ (hquiet₄.plain.wellFormed hwf)).errors_eq herrors)
  have hthird := (Settling.ofFinish hfinish).seq (S := fun cell => cell = .value branch.core.id ∨
      (cell = .value branch.id ∧ branch.core.id ≠ branch.id) ∨ allCells rest cell) hlast
    (fun hwf _ => hframe₄ (hquiet₃.plain.wellFormed hwf)) (fun _ => .inl) (fun _ => .inr) (by
      rintro cell rfl (⟨heq, hdiffer⟩ | hcell)
      · exact hdiffer (Cell.value.inj heq)
      · exact hproper.disjoint _ hcoreHead hcell)
  have hsecond := (Settling.ofSetBase hbase).seq hthird
    (fun hwf _ herrors => hquiet₃.plain.errors_eq
      (hframe₄ (hquiet₃.plain.wellFormed (hquiet₂.plain.wellFormed hwf)) herrors))
    (fun _ h => h.elim) (fun _ h => h) (fun _ h => h.elim)
  have hwhole := (ih d c d₁ hbearer hcoreProper hmarker).seq
    (S := allCells (branch :: rest)) hsecond
    (fun hwf _ herrors => ?_) (fun cell hcell => ?_) (fun cell hcell => ?_) (fun cell hcell => ?_)
  · refine hwhole.imp fun _ _ _ hP => ?_
    obtain ⟨⟨hbearer, hlt⟩, hbase, -, -, hrest⟩ := hP
    exact .bearing hmarker hbearer (hbase hlt) hrest
  · have hwf₁ := (hframe₁ hwf).wellFormed hwf
    have hwf₃ := hquiet₃.plain.wellFormed (hquiet₂.plain.wellFormed hwf₁)
    exact hquiet₂.plain.errors_eq (hquiet₃.plain.errors_eq (hframe₄ hwf₃ herrors))
  · exact Cell.known_mono (fun id hid => hcoreIds (innerIds_subset _ hid)) hcoreIds hcell
  · rcases hcell with rfl | ⟨rfl, -⟩ | hcell
    · exact ids_subset_idsAll_cons branch rest hcoreHead
    · exact allCells_head (.inl rfl)
    · exact allCells_tail hcell
  · rintro (rfl | ⟨rfl, hdiffer⟩ | htail)
    · exact hcoreProper.id_not_mem hcell
    · rcases branch.core_cases with heq | ⟨-, hsub⟩
      · exact hdiffer (congrArg Expr.id heq)
      · exact hproper.head.id_not_mem (hsub (innerIds_subset _ hcell))
    · exact hproper.known_disjoint (fun id hid => hcore (innerIds_subset _ hid))
        hcore cell hcell htail

theorem referencedClass?_eq_some {e : Expr} {c : ClassId} (h : sc.referencedClass? e = some c) :
    ∃ info name id, e = reference info name ∧ sc.symbols.resolve? name = some (.rule id) ∧
      (sc.roles.getD id .passthrough).class? = some c := by
  cases e with
  | reference info name =>
    rw [RuleScope.referencedClass?] at h
    obtain ⟨id, hid, h⟩ := Option.bind_eq_some_iff.mp h
    split at h
    · refine ⟨info, name, id, rfl, ?_, h⟩
      unfold SymbolTable.ruleId? at hid
      split at hid
      · rename_i hname
        rw [hname, Option.some.inj hid]
      · cases hid
    · cases h
  | _ => cases h

/-- A branch that refers to a rule with a class. -/
theorem polymorphicBranches_settles_referring {c : ClassId}
    (hframes : WalkFrames (sc.lazyIds sc.roles) visit sc)
    (hmarker : ¬branch.core.hasMarker .classOf = true)
    (hclass : sc.referencedClass? branch.core = some c)
    (ih : ∀ d r d', elementValue visit sc branch false d = (r, d') → branch.Proper →
      Settling strict m sc.toScope sc.roles bound branch.elementCells
        (Settled.Element strict m false branch r ∧
          (branch.hasMarker .optional = true → ∀ v, r = some v → v.cardinality ≠ .list)) d d')
    (ihrest : ∀ d u d', polymorphicBranches visit sc base (index + 1) rest d = (u, d') →
      AllProper rest → (∀ b ∈ rest, b.isAlternation = false) →
        Settling strict m sc.toScope sc.roles bound (allCells rest)
          (Settled.BaseBranches strict m base rest) d d')
    (h : polymorphicBranches visit sc base index (branch :: rest) d = (u, d'))
    (hproper : AllProper (branch :: rest))
    (halternation : ∀ b ∈ branch :: rest, b.isAlternation = false) :
    Settling strict m sc.toScope sc.roles bound (allCells (branch :: rest))
      (Settled.BaseBranches strict m base (branch :: rest)) d d' := by
  obtain ⟨d₁, r, d₂, hbase, hvalue, hrest⟩ := polymorphicBranches_referring hmarker hclass h
  obtain ⟨info, name, id, hcore, hname, hrole⟩ := referencedClass?_eq_some hclass
  obtain ⟨hquiet₁, -, -⟩ := setBase_spec (S := fun _ => False) hbase
  have hframe₂ : d₁.WellFormed → Frame (sc.lazyIds sc.roles) branch.elementCells d₁ d₂ :=
    hframes.elementValue branch false d₁ r d₂ hvalue
  have hframe₃ : d₂.WellFormed → Frame (sc.lazyIds sc.roles) (allCells rest) d₂ d' :=
    hframes.polymorphicBranches base (index + 1) rest d₂ () d' hrest
  have herrors₂ (hwf : d₁.WellFormed) : d'.errors = #[] → d₂.errors = #[] :=
    (hframe₃ ((hframe₂ hwf).wellFormed hwf)).errors_eq
  have hclassIds : branch.classIds = branch.innerIds :=
    classIds_of_core hmarker (halternation branch List.mem_cons_self)
  have htail := ihrest d₂ () d' hrest hproper.tail
    fun b hb => halternation b (List.mem_cons_of_mem _ hb)
  have hsecond := (ih d₁ r d₂ hvalue hproper.head).seq
    (S := fun cell => branch.elementCells cell ∨ allCells rest cell) htail
    (fun hwf _ => herrors₂ hwf) (fun _ => .inl) (fun _ => .inr)
    (hproper.known_disjoint (List.Subset.refl _) branch.classIds_subset)
  have hthird := (Settling.ofSetBase hbase).seq hsecond
    (fun hwf _ herrors =>
      have hwf₁ := hquiet₁.plain.wellFormed hwf
      (hframe₂ hwf₁).errors_eq (herrors₂ hwf₁ herrors))
    (fun _ h => h.elim) (fun _ h => h) (fun _ h => h.elim)
  have hnode : allCells (branch :: rest) (.nodeClass branch.id) := allCells_head (.inr rfl)
  have hwhole := hthird.without_class
    (fun cell hcell => hcell.elim allCells_elementCells allCells_tail) hnode (by
      rintro (hcell | hcell)
      · change branch.id ∈ branch.classIds at hcell
        rw [hclassIds] at hcell
        exact hproper.head.id_not_mem hcell
      · exact hproper.disjoint _ branch.id_mem_ids hcell)
  intro hsound hopen herrors
  refine (hwhole hsound hopen herrors).imp fun htracks hP => ?_
  obtain ⟨⟨hbase, -, hrest⟩, hnone⟩ := hP
  refine .referring hmarker hcore ?_ (htracks.keeps.role_value id c hrole) hnone
    (hbase (hsound.roles_lt id c hrole)) hrest
  rw [htracks.keeps.symbols_eq]
  exact hname

/-- A branch for which a class is made up. -/
theorem polymorphicBranches_settles_synthesized
    (hframes : WalkFrames (sc.lazyIds sc.roles) visit sc)
    (hmarker : ¬branch.core.hasMarker .classOf = true)
    (hclass : sc.referencedClass? branch.core = none)
    (ih : ∀ c d u d', collectFields visit sc branch c .scalar 0 false d = (u, d') →
      branch.Proper → Settling strict m sc.toScope sc.roles bound (contentCells c branch false)
        (Settled.Content strict m c branch false) d d')
    (ihrest : ∀ d u d', polymorphicBranches visit sc base (index + 1) rest d = (u, d') →
      AllProper rest → (∀ b ∈ rest, b.isAlternation = false) →
        Settling strict m sc.toScope sc.roles bound (allCells rest)
          (Settled.BaseBranches strict m base rest) d d')
    (h : polymorphicBranches visit sc base index (branch :: rest) d = (u, d'))
    (hproper : AllProper (branch :: rest))
    (halternation : ∀ b ∈ branch :: rest, b.isAlternation = false) :
    Settling strict m sc.toScope sc.roles bound (allCells (branch :: rest))
      (Settled.BaseBranches strict m base (branch :: rest)) d d' := by
  obtain ⟨c, d₁, d₂, d₃, hopened, -, hrecord, hcollect, hrest⟩ :=
    polymorphicBranches_synthesized hmarker hclass h
  have hquiet₂ : Quiet (fun cell => cell = .value branch.id) d₁ d₂ := recordValue_quiet hrecord rfl
  have hlt₂ : c < d₂.classes.size := Nat.lt_of_lt_of_le hopened.lt hquiet₂.plain.classes_le
  have hframe₃ : d₂.WellFormed → Frame (sc.lazyIds sc.roles) (contentCells c branch false) d₂ d₃ :=
    fun hwf => hframes.collectFields branch c .scalar 0 false d₂ () d₃ hcollect hwf hlt₂
  have hframe₄ : d₃.WellFormed → Frame (sc.lazyIds sc.roles) (allCells rest) d₃ d' :=
    hframes.polymorphicBranches base (index + 1) rest d₃ () d' hrest
  have herrors₃ (hwf : d₂.WellFormed) : d'.errors = #[] → d₃.errors = #[] :=
    (hframe₄ ((hframe₃ hwf).wellFormed hwf)).errors_eq
  have hclassIds : branch.classIds = branch.innerIds :=
    classIds_of_core hmarker (halternation branch List.mem_cons_self)
  have htail := ihrest d₃ () d' hrest hproper.tail
    fun b hb => halternation b (List.mem_cons_of_mem _ hb)
  have hsecond := (ih c d₂ () d₃ hcollect hproper.head).seq
    (S := fun cell => contentCells c branch false cell ∨ allCells rest cell) htail
    (fun hwf _ => herrors₃ hwf) (fun _ => .inl) (fun _ => .inr) (by
      rintro cell (hcell | hcell) hrest
      · exact hproper.known_disjoint (List.Subset.refl _) branch.classIds_subset cell hcell hrest
      · cases cell with
        | filling => exact hrest
        | value | nodeClass | variants => exact hcell)
  have herrors₂ (hwf : d₂.WellFormed) (herrors : d'.errors = #[]) : d₂.errors = #[] :=
    (hframe₃ hwf).errors_eq (herrors₃ hwf herrors)
  have hfirst := hsecond.afterRecord hrecord (.inl (.inl branch.id_mem_ids)) herrors₂
  have hwhole := Settling.opened (S := allCells (branch :: rest)) hopened (by simp) hfirst
    (fun hwf _ herrors =>
      hquiet₂.plain.errors_eq (herrors₂ (hquiet₂.plain.wellFormed hwf) herrors))
    (allCells_head (.inr rfl)) ?_
  · refine hwhole.imp fun _ _ _ hP => ?_
    obtain ⟨⟨hcontent, hrest⟩, hkind, hclass, -⟩ := hP
    exact .synthesized hmarker hclass hkind hcontent hrest
  · rintro cell ((hcell | hcell) | hcell)
    · refine .inl ⟨allCells_elementCells hcell, ?_⟩
      rintro rfl
      change branch.id ∈ branch.classIds at hcell
      rw [hclassIds] at hcell
      exact hproper.head.id_not_mem hcell
    · cases cell with
      | filling c' id =>
        obtain ⟨rfl, hid⟩ := hcell
        exact .inr ⟨id, rfl, ids_subset_idsAll_cons branch rest hid⟩
      | value | nodeClass | variants => exact hcell.elim
    · refine .inl ⟨allCells_tail hcell, ?_⟩
      rintro rfl
      exact hproper.disjoint _ branch.id_mem_ids hcell

end

end AnnotatedGrammar.Build
