import AnnotatedGrammar.Proofs.Analysis.Finish

/-!
# Steps of the walks through rule bodies

The walks that make classes: what each of them does first, and what it leaves to the others.
-/

namespace AnnotatedGrammar

theorem Scope.alternation_of_isPolymorphic {sc : Scope} {e : Expr}
    (h : sc.isPolymorphic e = true) : ∃ info branches, e = .alternation info branches := by
  cases e with
  | alternation info branches => exact ⟨info, branches, rfl⟩
  | _ => cases h

end AnnotatedGrammar

namespace AnnotatedGrammar.Build

variable {S : Cell → Prop} {d d' : Draft} {visit : RuleId → Build (Option Value)} {sc : RuleScope}
  {info : NodeInfo} {branches : List Expr} {hint : Option String} {r : Option Value} {u : Unit}

/-- A class was made for an expression and nothing else happened. -/
structure Opened (kind : ClassKind) (c : ClassId) (node : NodeId) (d d' : Draft) : Prop where
  quiet : Quiet (fun cell => cell = .nodeClass node) d d'
  id_eq : c = d.classes.size
  size_eq : d'.classes.size = d.classes.size + 1
  kind_eq : (d'.classAt c).kind = kind
  origin_eq : (d'.classAt c).origin = .node node ∨ (d'.classAt c).origin = .synthesized node
  variants_eq : (d'.classAt c).variants = []
  class_eq : d'.nodeClasses.get? node = some c
  fields_eq : d'.fields = d.fields

theorem Opened.lt {kind : ClassKind} {c : ClassId} {node : NodeId}
    (h : Opened kind c node d d') : c < d'.classes.size := by
  rw [h.size_eq, h.id_eq]
  exact Nat.lt_succ_self _

theorem Opened.not_lt {kind : ClassKind} {c : ClassId} {node : NodeId}
    (h : Opened kind c node d d') : ¬c < d.classes.size := by
  rw [h.id_eq]
  exact Nat.lt_irrefl _

/-- A class was made and got its variants. -/
theorem Opened.quiet_addVariants {kind : ClassKind} {c : ClassId} {node : NodeId} {index : Nat}
    {entries : List (Expr × Option Value)} {d₁ : Draft} {u : Unit} (h : Opened kind c node d d₁)
    (hvariants : addVariants c index entries d₁ = (u, d')) :
    Quiet (fun cell => cell = .nodeClass node) d d' := by
  obtain ⟨hquiet, -⟩ := addVariants_spec
    (S := fun cell => cell = .variants c ∨ ∃ id, cell = .filling c id) hvariants h.lt
    (.inl rfl) fun entry _ => .inr ⟨_, rfl⟩
  refine h.quiet.comp hquiet (fun _ _ h => h) fun cell hold hcell => ?_
  rcases hcell with rfl | ⟨id, rfl⟩ <;> exact absurd hold h.not_lt

/-- A class was made under some name. -/
def Creates (sc : Scope) (kind : ClassKind) (origin : ClassOrigin) (c : ClassId) (d d' : Draft) :
    Prop :=
  ∃ raw isNamed span, newClass sc raw isNamed kind origin span d = (c, d')

theorem opened {kind : ClassKind} {c : ClassId} {node : NodeId} {origin : ClassOrigin} {d₁ : Draft}
    (hnew : Creates sc.toScope kind origin c d d₁)
    (horigin : origin = .node node ∨ origin = .synthesized node)
    (hrecord : recordClass node c d₁ = (u, d')) : Opened kind c node d d' := by
  obtain ⟨raw, isNamed, span, hnew⟩ := hnew
  obtain ⟨hquiet, hid, hsize, hkind, hmade, hvariants, hfields⟩ :=
    newClass_quiet (S := fun cell => cell = .nodeClass node) hnew
  have hclass : Quiet (fun cell => cell = .nodeClass node) d₁ d' := recordClass_quiet hrecord rfl
  have hlt : c < d₁.classes.size := by
    rw [hsize, hid]
    exact Nat.lt_succ_self _
  refine ⟨hquiet.trans hclass, hid, ?_, ?_, ?_, ?_, recordClass_get? hrecord, ?_⟩
  · rw [recordClass_eq hrecord]
    exact hsize
  · rw [hclass.plain.kind_eq c hlt, hkind]
  · rw [hclass.plain.origin_eq c hlt, hmade]
    exact horigin
  · rw [recordClass_eq hrecord]
    exact hvariants
  · rw [recordClass_eq hrecord]
    exact hfields

/-- A class was made for an expression under a base. -/
theorem opened_derived {c base : ClassId} {node : NodeId} {span : Span} {d₁ d₂ : Draft}
    (hnew : Creates sc.toScope .concrete (.synthesized node) c d d₁)
    (hbase : setBase c base span d₁ = ((), d₂)) (hrecord : recordClass node c d₂ = (u, d')) :
    Opened .concrete c node d d' ∧ (d'.errors = #[] → (d'.classAt c).base = some base) := by
  obtain ⟨_, _, _, hnew⟩ := hnew
  obtain ⟨hquiet₁, hid, hsize, hkind, horigin, hvariants, hfields⟩ :=
    newClass_quiet (S := fun cell => cell = .nodeClass node) hnew
  obtain ⟨hquiet₂, ⟨hsize₂, hfields₂⟩, hbase₂⟩ :=
    setBase_spec (S := fun cell => cell = .nodeClass node) hbase
  have hquiet₃ : Quiet (fun cell => cell = .nodeClass node) d₂ d' := recordClass_quiet hrecord rfl
  have hlt : c < d₁.classes.size := by
    rw [hsize, hid]
    exact Nat.lt_succ_self _
  have hlt₂ : c < d₂.classes.size := Nat.lt_of_lt_of_eq hlt hsize₂.symm
  refine ⟨⟨(hquiet₁.trans hquiet₂).trans hquiet₃, hid, ?_, ?_, .inr ?_, ?_,
    recordClass_get? hrecord, ?_⟩, fun herrors => ?_⟩
  · rw [recordClass_eq hrecord]
    exact hsize₂.trans hsize
  · rw [hquiet₃.plain.kind_eq c hlt₂, hquiet₂.plain.kind_eq c hlt, hkind]
  · rw [hquiet₃.plain.origin_eq c hlt₂, hquiet₂.plain.origin_eq c hlt, horigin]
  · have hsame : (Cell.variants c).Same d₁ d₂ := hquiet₂.same hlt (by simp)
    have hsame' : (Cell.variants c).Same d₂ d' := hquiet₃.same hlt₂ (by simp)
    exact hsame'.trans (hsame.trans hvariants)
  · rw [recordClass_eq hrecord]
    exact hfields₂.trans hfields
  · exact hquiet₃.plain.base_eq c hlt₂ base (hbase₂ (hquiet₃.plain.errors_eq herrors) hlt)

theorem alternationValue_polymorphic_parts
    (hpolymorphic : sc.isPolymorphic (.alternation info branches) = true)
    (h : alternationValue visit sc info branches hint d = (r, d')) :
    ∃ base d₁ d₂, r = some (.ofClass base) ∧
      Creates sc.toScope .abstract (.node info.id) base d d₁ ∧
      recordClass info.id base d₁ = ((), d₂) ∧
      polymorphicBranches visit sc base 0 branches d₂ = ((), d') := by
  rw [alternationValue] at h
  simp only [if_pos hpolymorphic, bind_eq, pure_eq] at h
  obtain ⟨base, d₁, hnew, _, d₂, hrecord, _, _, hbranches, rfl, rfl⟩ := h
  exact ⟨base, d₁, d₂, rfl, ⟨_, _, _, hnew⟩, hrecord, hbranches⟩

theorem alternationValue_polymorphic
    (hpolymorphic : sc.isPolymorphic (.alternation info branches) = true)
    (h : alternationValue visit sc info branches hint d = (r, d')) :
    ∃ base d₁, r = some (.ofClass base) ∧ Opened .abstract base info.id d d₁ ∧
      polymorphicBranches visit sc base 0 branches d₁ = ((), d') := by
  obtain ⟨base, d₁, d₂, hr, hnew, hrecord, hbranches⟩ :=
    alternationValue_polymorphic_parts hpolymorphic h
  exact ⟨base, d₂, hr, opened hnew (.inl rfl) hrecord, hbranches⟩

theorem alternationValue_plain_parts
    (hpolymorphic : ¬sc.isPolymorphic (.alternation info branches) = true)
    (h : alternationValue visit sc info branches hint d = (r, d')) :
    ∃ values d₁, elementValues visit sc branches d = (values, d₁) ∧
      ((∀ v ∈ values, v = none) ∧ r = none ∧ d' = d₁ ∨
        (∃ v ∈ values, v ≠ none) ∧ ∃ c d₂ d₃, r = some (.ofClass c) ∧
          Creates sc.toScope .tagged (.node info.id) c d₁ d₂ ∧
          recordClass info.id c d₂ = ((), d₃) ∧
          addVariants c 0 (branches.zip values) d₃ = ((), d')) := by
  rw [alternationValue] at h
  rw [if_neg hpolymorphic] at h
  obtain ⟨values, d₁, hvalues, h⟩ := bind_eq.mp h
  refine ⟨values, d₁, hvalues, ?_⟩
  by_cases hall : values.all Option.isNone = true
  · rw [if_pos hall] at h
    obtain ⟨rfl, rfl⟩ := pure_eq.mp h
    refine .inl ⟨fun v hv => ?_, rfl, rfl⟩
    exact Option.isNone_iff_eq_none.mp (List.all_eq_true.mp hall v hv)
  · simp only [if_neg hall, bind_eq, pure_eq] at h
    obtain ⟨c, d₂, hnew, _, d₃, hrecord, _, _, hvariants, rfl, rfl⟩ := h
    refine .inr ⟨?_, c, d₂, d₃, rfl, ⟨_, _, _, hnew⟩, hrecord, hvariants⟩
    simpa using hall

theorem alternationValue_plain
    (hpolymorphic : ¬sc.isPolymorphic (.alternation info branches) = true)
    (h : alternationValue visit sc info branches hint d = (r, d')) :
    ∃ values d₁, elementValues visit sc branches d = (values, d₁) ∧
      ((∀ v ∈ values, v = none) ∧ r = none ∧ d' = d₁ ∨
        (∃ v ∈ values, v ≠ none) ∧ ∃ c d₂, r = some (.ofClass c) ∧
          Opened .tagged c info.id d₁ d₂ ∧
              addVariants c 0 (branches.zip values) d₂ = ((), d')) := by
  obtain ⟨values, d₁, hvalues, h⟩ := alternationValue_plain_parts hpolymorphic h
  refine ⟨values, d₁, hvalues, h.imp_right ?_⟩
  rintro ⟨hsome, c, d₂, d₃, hr, hnew, hrecord, hvariants⟩
  exact ⟨hsome, c, d₃, hr, opened hnew (.inl rfl) hrecord, hvariants⟩

theorem polymorphicBranches_bearing {base : ClassId} {index : Nat} {branch : Expr}
    {rest : List Expr} (hmarker : branch.core.hasMarker .classOf = true)
    (h : polymorphicBranches visit sc base index (branch :: rest) d = (u, d')) :
    ∃ c d₁ d₂ d₃ d₄ r, bearerClass visit sc branch.core d = (c, d₁) ∧
      setBase c base branch.core.span d₁ = ((), d₂) ∧
      finishElement sc branch.core (some (.ofClass c)) false d₂ = (r, d₃) ∧
      (branch.core.id = branch.id ∧ d₄ = d₃ ∨
        branch.core.id ≠ branch.id ∧ recordValue branch.id r d₃ = ((), d₄)) ∧
      polymorphicBranches visit sc base (index + 1) rest d₄ = ((), d') := by
  rw [polymorphicBranches] at h
  simp only [if_pos hmarker, bind_eq] at h
  obtain ⟨c, d₁, hbearer, _, d₂, hbase, r, d₃, hfinish, h⟩ := h
  split at h
  · rename_i hdiffer
    obtain ⟨_, d₄, hrecord, hrest⟩ := bind_eq.mp h
    exact ⟨c, d₁, d₂, d₃, d₄, r, hbearer, hbase, hfinish, .inr ⟨hdiffer, hrecord⟩, hrest⟩
  · rename_i hsame
    exact ⟨c, d₁, d₂, d₃, d₃, r, hbearer, hbase, hfinish, .inl ⟨not_not.mp hsame, rfl⟩, h⟩

theorem polymorphicBranches_referring {base c : ClassId} {index : Nat} {branch : Expr}
    {rest : List Expr} (hmarker : ¬branch.core.hasMarker .classOf = true)
    (hclass : sc.referencedClass? branch.core = some c)
    (h : polymorphicBranches visit sc base index (branch :: rest) d = (u, d')) :
    ∃ d₁ r d₂, setBase c base branch.span d = ((), d₁) ∧
      elementValue visit sc branch false d₁ = (r, d₂) ∧
      polymorphicBranches visit sc base (index + 1) rest d₂ = ((), d') := by
  rw [polymorphicBranches] at h
  rw [if_neg hmarker, hclass] at h
  obtain ⟨_, d₁, hbase, h⟩ := bind_eq.mp h
  obtain ⟨_, d₂, hvalue, hrest⟩ := bind_eq.mp h
  obtain ⟨r, hvalue⟩ := discard_eq.mp hvalue
  exact ⟨d₁, r, d₂, hbase, hvalue, hrest⟩

theorem polymorphicBranches_synthesized_parts {base : ClassId} {index : Nat} {branch : Expr}
    {rest : List Expr} (hmarker : ¬branch.core.hasMarker .classOf = true)
    (hclass : sc.referencedClass? branch.core = none)
    (h : polymorphicBranches visit sc base index (branch :: rest) d = (u, d')) :
    ∃ c d₁ d₂ d₃ d₄ d₅, Creates sc.toScope .concrete (.synthesized branch.id) c d d₁ ∧
      setBase c base branch.span d₁ = ((), d₂) ∧ recordClass branch.id c d₂ = ((), d₃) ∧
      recordValue branch.id (some (.ofClass c)) d₃ = ((), d₄) ∧
      collectFields visit sc branch c .scalar 0 false d₄ = ((), d₅) ∧
      polymorphicBranches visit sc base (index + 1) rest d₅ = ((), d') := by
  rw [polymorphicBranches] at h
  simp only [if_neg hmarker, hclass, bind_eq, get_eq] at h
  obtain ⟨_, _, ⟨rfl, rfl⟩, c, d₁, hnew, _, d₂, hbase, _, d₃, hrecord, _, d₄, hvalue, _, d₅,
    hcollect, hrest⟩ := h
  exact ⟨c, d₁, d₂, d₃, d₄, d₅, ⟨_, _, _, hnew⟩, hbase, hrecord, hvalue, hcollect, hrest⟩

theorem polymorphicBranches_synthesized {base : ClassId} {index : Nat} {branch : Expr}
    {rest : List Expr} (hmarker : ¬branch.core.hasMarker .classOf = true)
    (hclass : sc.referencedClass? branch.core = none)
    (h : polymorphicBranches visit sc base index (branch :: rest) d = (u, d')) :
    ∃ c d₁ d₂ d₃, Opened .concrete c branch.id d d₁ ∧
      (d₁.errors = #[] → (d₁.classAt c).base = some base) ∧
      recordValue branch.id (some (.ofClass c)) d₁ = ((), d₂) ∧
      collectFields visit sc branch c .scalar 0 false d₂ = ((), d₃) ∧
      polymorphicBranches visit sc base (index + 1) rest d₃ = ((), d') := by
  obtain ⟨c, d₁, d₂, d₃, d₄, d₅, hnew, hbase, hrecord, hvalue, hcollect, hrest⟩ :=
    polymorphicBranches_synthesized_parts hmarker hclass h
  obtain ⟨hopened, hbased⟩ := opened_derived hnew hbase hrecord
  exact ⟨c, d₃, d₄, d₅, hopened, hbased, hvalue, hcollect, hrest⟩

/-! ## Fields of a class -/

section

variable {e : Expr} {c : ClassId} {outer : Cardinality} {branch : Nat} {isBearer : Bool}

theorem collectFields_skip (hskip : (!isBearer && e.hasMarker .skip) = true) :
    collectFields visit sc e c outer branch isBearer = recordValue e.id none := by
  cases e <;> rw [collectFields, if_pos hskip] <;> simp

theorem collectFields_field (hskip : ¬(!isBearer && e.hasMarker .skip) = true)
    (hfield : (!isBearer && e.isFieldElement) = true) :
    collectFields visit sc e c outer branch isBearer = (do
      let value ← elementValue visit sc e true
      addField c e value outer branch true) := by
  cases e <;> rw [collectFields, if_neg hskip, if_pos hfield] <;> simp

theorem collectFields_unit (hskip : ¬(!isBearer && e.hasMarker .skip) = true)
    (hfield : ¬(!isBearer && e.isFieldElement) = true) (hunit : e.IsUnit) :
    collectFields visit sc e c outer branch isBearer = (do
      let value ← ownValue visit sc e isBearer
      addField c e value outer branch !isBearer) := by
  cases e with
  | sequence | group => exact hunit.elim
  | optional info body =>
    have hsimple : (Expr.optional info body).isSimpleChain = true := hunit
    rw [collectFields, if_neg hskip, if_neg hfield, if_pos hsimple]
  | repeated info body kind =>
    have hsimple : (Expr.repeated info body kind).isSimpleChain = true := hunit
    rw [collectFields, if_neg hskip, if_neg hfield, if_pos hsimple]
  | terminal | reference | alternation =>
    rw [collectFields, if_neg hskip, if_neg hfield] <;> simp

end

theorem fillClass_of_branches {c : ClassId} {content : Expr} {isBearer : Bool}
    {branches : List Expr} (hbranches : content.classAlternatives? = some branches) :
    fillClass visit sc c content isBearer = (do
      collectBranches visit sc c 0 branches
      relaxPartial c branches.length) := by
  rw [fillClass]
  generalize hfound : content.classAlternatives? = found
  rw [hbranches] at hfound
  subst hfound
  rfl

theorem fillClass_of_none {c : ClassId} {content : Expr} {isBearer : Bool}
    (hbranches : content.classAlternatives? = none) :
    fillClass visit sc c content isBearer =
      collectFields visit sc content c .scalar 0 isBearer := by
  rw [fillClass]
  generalize hfound : content.classAlternatives? = found
  rw [hbranches] at hfound
  subst hfound
  rfl

theorem fillClass_several {c : ClassId} {content : Expr} {isBearer : Bool}
    (hbranches : content.classAlternatives? = some branches)
    (h : fillClass visit sc c content isBearer d = (u, d')) :
    ∃ d₁, collectBranches visit sc c 0 branches d = ((), d₁) ∧
      relaxPartial c branches.length d₁ = ((), d') := by
  rw [fillClass_of_branches hbranches] at h
  obtain ⟨_, d₁, hcollect, hrelax⟩ := bind_eq.mp h
  exact ⟨d₁, hcollect, hrelax⟩

theorem fillClass_single {c : ClassId} {content : Expr} {isBearer : Bool}
    (hbranches : content.classAlternatives? = none)
    (h : fillClass visit sc c content isBearer d = (u, d')) :
    collectFields visit sc content c .scalar 0 isBearer d = ((), d') := by
  rwa [fillClass_of_none hbranches] at h

theorem groupValue_other {e : Expr}
    (halternation : ∀ info branches, e = .alternation info branches → False)
    (hgroup : ∀ info inner, e = .group info inner → False) :
    groupValue visit sc e hint = elementValue visit sc e false := by
  cases e with
  | alternation info branches => exact (halternation info branches rfl).elim
  | group info inner => exact (hgroup info inner rfl).elim
  | terminal | reference | sequence | optional | repeated => rw [groupValue] <;> simp

theorem bearerClass_of_polymorphic {e : Expr} {info : NodeInfo} {branches : List Expr}
    (hcore : e.classContent.1.core = .alternation info branches)
    (hpolymorphic : sc.isPolymorphic (.alternation info branches) = true) :
    bearerClass visit sc e = (do
      match (← get).nodeClasses.get? e.id with
      | some c => return c
      | none =>
        let base ← newClass sc.toScope ((e.markerValue? .classOf).getD "") true .abstract
          (.node e.id) e.span
        recordClass e.id base
        recordClass info.id base
        polymorphicBranches visit sc base 0 branches
        return base) := by
  rw [bearerClass]
  congr 1
  funext d
  cases d.nodeClasses.get? e.id with
  | some c => rfl
  | none =>
    dsimp only
    generalize hfound : e.classContent.1.core = core
    obtain rfl := hfound.symm.trans hcore
    exact if_pos hpolymorphic

theorem bearerClass_of_concrete {e : Expr}
    (hpolymorphic : ¬sc.isPolymorphic e.classContent.1.core = true) :
    bearerClass visit sc e = (do
      match (← get).nodeClasses.get? e.id with
      | some c => return c
      | none =>
        let c ← newClass sc.toScope ((e.markerValue? .classOf).getD "") true .concrete
          (.node e.id) e.span
        recordClass e.id c
        fillClass visit sc c e.classContent.1 e.classContent.2
        return c) := by
  rw [bearerClass]
  congr 1
  funext d
  cases d.nodeClasses.get? e.id with
  | some c => rfl
  | none =>
    dsimp only
    generalize hfound : e.classContent.1.core = core
    rw [hfound] at hpolymorphic
    cases core with
    | alternation info branches => exact if_neg hpolymorphic
    | _ => rfl

/-- The class that an expression carries with alternatives under a base. -/
theorem bearerClass_polymorphic {e : Expr} {c : ClassId}
    (hcore : e.classContent.1.core = .alternation info branches)
    (hpolymorphic : sc.isPolymorphic (.alternation info branches) = true)
    (h : bearerClass visit sc e d = (c, d')) :
    d.nodeClasses.get? e.id = some c ∧ d' = d ∨
      d.nodeClasses.get? e.id = none ∧ ∃ d₁ d₂ d₃,
        Creates sc.toScope .abstract (.node e.id) c d d₁ ∧ recordClass e.id c d₁ = ((), d₂) ∧
          recordClass info.id c d₂ = ((), d₃) ∧
          polymorphicBranches visit sc c 0 branches d₃ = ((), d') := by
  rw [bearerClass_of_polymorphic hcore hpolymorphic] at h
  obtain ⟨_, _, hget, h⟩ := bind_eq.mp h
  obtain ⟨rfl, rfl⟩ := get_eq.mp hget
  cases hclass : d.nodeClasses.get? e.id with
  | some c' =>
    rw [hclass] at h
    obtain ⟨rfl, rfl⟩ := pure_eq.mp h
    exact .inl ⟨rfl, rfl⟩
  | none =>
    rw [hclass] at h
    simp only [bind_eq, pure_eq] at h
    obtain ⟨c', d₁, hnew, _, d₂, hrecord, _, d₃, hinner, _, _, hbranches, rfl, rfl⟩ := h
    exact .inr ⟨rfl, d₁, d₂, d₃, ⟨_, _, _, hnew⟩, hrecord, hinner, hbranches⟩

/-- The class that an expression carries without alternatives under a base. -/
theorem bearerClass_concrete {e : Expr} {c : ClassId}
    (hpolymorphic : ¬sc.isPolymorphic e.classContent.1.core = true)
    (h : bearerClass visit sc e d = (c, d')) :
    d.nodeClasses.get? e.id = some c ∧ d' = d ∨
      d.nodeClasses.get? e.id = none ∧ ∃ d₁ d₂,
        Creates sc.toScope .concrete (.node e.id) c d d₁ ∧ recordClass e.id c d₁ = ((), d₂) ∧
          fillClass visit sc c e.classContent.1 e.classContent.2 d₂ = ((), d') := by
  rw [bearerClass_of_concrete hpolymorphic] at h
  obtain ⟨_, _, hget, h⟩ := bind_eq.mp h
  obtain ⟨rfl, rfl⟩ := get_eq.mp hget
  cases hclass : d.nodeClasses.get? e.id with
  | some c' =>
    rw [hclass] at h
    obtain ⟨rfl, rfl⟩ := pure_eq.mp h
    exact .inl ⟨rfl, rfl⟩
  | none =>
    rw [hclass] at h
    simp only [bind_eq, pure_eq] at h
    obtain ⟨c', d₁, hnew, _, d₂, hrecord, _, _, hfill, rfl, rfl⟩ := h
    exact .inr ⟨rfl, d₁, d₂, ⟨_, _, _, hnew⟩, hrecord, hfill⟩

theorem bearerClass_parts {e : Expr} {c : ClassId} (h : bearerClass visit sc e d = (c, d')) :
    d.nodeClasses.get? e.id = some c ∧ d' = d ∨
      d.nodeClasses.get? e.id = none ∧
        ((∃ info branches d₁ d₂ d₃, e.classContent.1.core = .alternation info branches ∧
          Creates sc.toScope .abstract (.node e.id) c d d₁ ∧ recordClass e.id c d₁ = ((), d₂) ∧
            recordClass info.id c d₂ = ((), d₃) ∧
            polymorphicBranches visit sc c 0 branches d₃ = ((), d')) ∨
        ∃ d₁ d₂, Creates sc.toScope .concrete (.node e.id) c d d₁ ∧
          recordClass e.id c d₁ = ((), d₂) ∧
          fillClass visit sc c e.classContent.1 e.classContent.2 d₂ = ((), d')) := by
  by_cases hpolymorphic : sc.isPolymorphic e.classContent.1.core = true
  · obtain ⟨info, branches, hcore⟩ := Scope.alternation_of_isPolymorphic hpolymorphic
    rw [hcore] at hpolymorphic
    refine (bearerClass_polymorphic hcore hpolymorphic h).imp_right (And.imp_right fun hmade => ?_)
    obtain ⟨d₁, d₂, d₃, hmade⟩ := hmade
    exact .inl ⟨info, branches, d₁, d₂, d₃, hcore, hmade⟩
  · exact (bearerClass_concrete hpolymorphic h).imp_right (And.imp_right .inr)

theorem bearerClass_cases {e : Expr} {c : ClassId} (h : bearerClass visit sc e d = (c, d')) :
    d.nodeClasses.get? e.id = some c ∧ d' = d ∨
      d.nodeClasses.get? e.id = none ∧
        ((∃ info branches d₁ d₂, e.classContent.1.core = .alternation info branches ∧
          Opened .abstract c e.id d d₁ ∧ recordClass info.id c d₁ = ((), d₂) ∧
            polymorphicBranches visit sc c 0 branches d₂ = ((), d')) ∨
        ∃ d₁, Opened .concrete c e.id d d₁ ∧
          fillClass visit sc c e.classContent.1 e.classContent.2 d₁ = ((), d')) := by
  rcases bearerClass_parts h with hsame |
    ⟨hnone, ⟨info, branches, d₁, d₂, d₃, hcore, hnew, hrecord, hinner, hbranches⟩ |
      ⟨d₁, d₂, hnew, hrecord, hfill⟩⟩
  · exact .inl hsame
  · exact .inr ⟨hnone, .inl
      ⟨info, branches, d₂, d₃, hcore, opened hnew (.inl rfl) hrecord, hinner, hbranches⟩⟩
  · exact .inr ⟨hnone, .inr ⟨d₂, opened hnew (.inl rfl) hrecord, hfill⟩⟩

end AnnotatedGrammar.Build
