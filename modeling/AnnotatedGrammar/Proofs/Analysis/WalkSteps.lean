import Mathlib.Tactic.MkIffOfInductiveProp
import AnnotatedGrammar.Proofs.Analysis.Contents
import AnnotatedGrammar.Proofs.Analysis.Steps

/-!
# Walks as steps

A walk through an expression of a rule body takes steps only, and the value or class that it finds
is known to the tables it leaves.
-/

namespace AnnotatedGrammar

open Tables

namespace Tables

variable {t : Tables} {c : ClassId} {v : Option Value}

/-- Whatever the tables refer to is there, and so are the classes below a bound. -/
structure Ready (sc : Scope) (bound : Nat) (t : Tables) : Prop where
  inRange : t.InRange sc
  bound_le : bound ≤ t.classes.size

theorem Ready.steps {sc : Scope} {bound : Nat} {t' : Tables} (h : t.Ready sc bound)
    (hsteps : Steps sc t t') : t'.Ready sc bound := by
  refine ⟨h.inRange.steps hsteps, ?_⟩
  by_contra hlt
  have hkept := hsteps.grows.lt (Nat.lt_of_lt_of_le (Nat.not_le.mp hlt) h.bound_le)
  exact Nat.lt_irrefl _ hkept

theorem holds_none (t : Tables) : t.Holds none := by
  intro w hw
  cases hw

theorem holds_primitive (t : Tables) (p : Primitive) : t.Holds (some (.ofPrimitive p)) := by
  intro w hw
  rw [← Option.some.inj hw]
  trivial

theorem holds_class (hc : c < t.classes.size) : t.Holds (some (.ofClass c)) := by
  intro w hw
  rw [← Option.some.inj hw]
  exact hc

theorem Holds.wrapped (h : t.Holds v) (outer : Cardinality) :
    t.Holds (v.map fun w => w.wrapped outer) := by
  intro w hw
  obtain ⟨w', hw', rfl⟩ := Option.map_eq_some_iff.mp hw
  exact h w' hw'

end Tables

namespace Build

open AnnotatedGrammar.Expr

variable {visit : RuleId → Build (Option Value)} {sc : RuleScope} {bound : Nat} {d d₁ d' : Draft}
  {u : Unit}

/-- Making the class of an expression takes steps, and it is there afterwards without variants. -/
theorem opened_steps {kind : ClassKind} {origin : ClassOrigin} {c : ClassId} {node : NodeId}
    (hnew : Creates sc.toScope kind origin c d d₁) (hrecord : recordClass node c d₁ = (u, d'))
    (hbegins : Naming.IsBeginning sc.classPrefix) (horigin : sc.toScope.HasOrigin origin)
    (hnode : sc.toScope.HasNode node) :
    Steps sc.toScope d.tables d'.tables ∧ d'.tables.HasKind c kind ∧
      ∀ cls, d'.tables.classes[c]? = some cls → cls.variants = [] := by
  obtain ⟨raw, isNamed, span, hnew⟩ := hnew
  obtain ⟨hstep, hkind, hvariants⟩ := newClass_step hnew hbegins horigin
  have hrecorded := recordClass_step hrecord hnode hkind.lt
  refine ⟨(Steps.one hstep).trans (.one hrecorded), hrecorded.grows.kind c kind hkind, ?_⟩
  rw [recordClass_eq hrecord]
  exact hvariants

/-- The value of a sequence is that of one of its items, if there is one. -/
theorem singleValue_mem {info : NodeInfo} {values : List (Option Value)} {r : Option Value}
    (h : singleValue sc info values d = (r, d')) : r = none ∨ r ∈ values := by
  unfold singleValue at h
  generalize hpresent : values.filterMap (fun v => v) = present at h
  match present with
  | [] => exact .inl (pure_eq.mp h).1.symm
  | [v] =>
    obtain ⟨rfl, -⟩ := pure_eq.mp h
    have hmem : v ∈ values.filterMap (fun v => v) := by
      rw [hpresent]
      exact List.mem_singleton.mpr rfl
    obtain ⟨_, hmem, rfl⟩ := List.mem_filterMap.mp hmem
    exact .inr hmem
  | first :: second :: rest =>
    simp only [bind_eq, pure_eq] at h
    obtain ⟨_, _, -, rfl, -⟩ := h
    exact .inl rfl

/-- Every walk through expressions of rule bodies takes steps. -/
@[mk_iff]
structure WalkSteps (bound : Nat) (visit : RuleId → Build (Option Value)) (sc : RuleScope) :
    Prop where
  elementValue : ∀ e allowed, ∀ d r d', elementValue visit sc e allowed d = (r, d') →
    d.tables.Ready sc.toScope bound → e.Throughout sc.toScope.Occurs →
      Steps sc.toScope d.tables d'.tables ∧ d'.tables.Holds r
  structuralValue : ∀ e, ∀ d r d', structuralValue visit sc e d = (r, d') →
    d.tables.Ready sc.toScope bound → e.Throughout sc.toScope.Occurs →
      Steps sc.toScope d.tables d'.tables ∧ d'.tables.Holds r
  alternationValue : ∀ info branches hint, ∀ d r d',
    alternationValue visit sc info branches hint d = (r, d') → d.tables.Ready sc.toScope bound →
      (alternation info branches).Throughout sc.toScope.Occurs →
        Steps sc.toScope d.tables d'.tables ∧ d'.tables.Holds r
  elementValues : ∀ es, ∀ d r d', elementValues visit sc es d = (r, d') →
    d.tables.Ready sc.toScope bound → (∀ e ∈ es, e.Throughout sc.toScope.Occurs) →
      Steps sc.toScope d.tables d'.tables ∧ ∀ v ∈ r, d'.tables.Holds v
  polymorphicBranches : ∀ base index branches, ∀ d u d',
    polymorphicBranches visit sc base index branches d = (u, d') → d.tables.Ready sc.toScope bound →
      (∀ e ∈ branches, e.Throughout sc.toScope.Occurs) → d.tables.HasKind base .abstract →
        Steps sc.toScope d.tables d'.tables
  collectFields : ∀ e c outer branch isBearer, ∀ d u d',
    collectFields visit sc e c outer branch isBearer d = (u, d') → d.tables.Ready sc.toScope bound →
      e.Throughout sc.toScope.Occurs → d.tables.HasKind c .concrete →
        Steps sc.toScope d.tables d'.tables
  ownValue : ∀ e isBearer, ∀ d r d', ownValue visit sc e isBearer d = (r, d') →
    d.tables.Ready sc.toScope bound → e.Throughout sc.toScope.Occurs →
      Steps sc.toScope d.tables d'.tables ∧ d'.tables.Holds r
  collectItems : ∀ items c outer branch, ∀ d u d',
    collectItems visit sc items c outer branch d = (u, d') → d.tables.Ready sc.toScope bound →
      (∀ e ∈ items, e.Throughout sc.toScope.Occurs) → d.tables.HasKind c .concrete →
        Steps sc.toScope d.tables d'.tables
  bearerClass : ∀ e, ∀ d c d', bearerClass visit sc e d = (c, d') →
    d.tables.Ready sc.toScope bound → e.Throughout sc.toScope.Occurs →
      Steps sc.toScope d.tables d'.tables ∧ c < d'.tables.classes.size
  fillClass : ∀ c content isBearer, ∀ d u d',
    fillClass visit sc c content isBearer d = (u, d') → d.tables.Ready sc.toScope bound →
      content.Throughout sc.toScope.Occurs → d.tables.HasKind c .concrete →
        Steps sc.toScope d.tables d'.tables
  collectBranches : ∀ c index branches, ∀ d u d',
    collectBranches visit sc c index branches d = (u, d') → d.tables.Ready sc.toScope bound →
      (∀ e ∈ branches, e.Throughout sc.toScope.Occurs) → d.tables.HasKind c .concrete →
        Steps sc.toScope d.tables d'.tables
  groupValue : ∀ body hint, ∀ d r d', groupValue visit sc body hint d = (r, d') →
    d.tables.Ready sc.toScope bound → body.Throughout sc.toScope.Occurs →
      Steps sc.toScope d.tables d'.tables ∧ d'.tables.Holds r

/-- The walks take steps, if finding the value of a rule does. -/
theorem walkSteps (hbegins : Naming.IsBeginning sc.classPrefix)
    (hvisit : ∀ id d r d', visit id d = (r, d') → d.tables.Ready sc.toScope bound →
      Steps sc.toScope d.tables d'.tables ∧ d'.tables.Holds r) : WalkSteps bound visit sc := by
  have hfinish {e : Expr} {value r : Option Value} {allowed : Bool} {d d₁ d' : Draft}
      (h₁ : Steps sc.toScope d.tables d₁.tables) (hvalue : d₁.tables.Holds value)
      (h : finishElement sc e value allowed d₁ = (r, d'))
      (he : e.Throughout sc.toScope.Occurs) :
      Steps sc.toScope d.tables d'.tables ∧ d'.tables.Holds r := by
    obtain ⟨rfl, hfinished, -⟩ := finishElement_spec h
    have h₂ : Steps sc.toScope d₁.tables d'.tables := hfinished.steps he.self.hasNode hvalue
    exact ⟨h₁.trans h₂, h₂.grows.holds hvalue⟩
  have hrecorded {e : Expr} {value : Option Value} {d d₁ d' : Draft} {u : Unit}
      (h₁ : Steps sc.toScope d.tables d₁.tables) (hvalue : d₁.tables.Holds value)
      (h : recordValue e.id value d₁ = (u, d')) (he : e.Throughout sc.toScope.Occurs) :
      Steps sc.toScope d.tables d'.tables ∧ d'.tables.Holds value := by
    have h₂ := recordValue_step h he.self.hasNode hvalue
    exact ⟨h₁.trans (.one h₂), h₂.grows.holds hvalue⟩
  have hadded {e : Expr} {c : ClassId} {outer : Cardinality} {branch : Nat} {own : Bool}
      {v : Option Value} {u : Unit} {d d₁ d' : Draft}
      (h₁ : Steps sc.toScope d.tables d₁.tables ∧ d₁.tables.Holds v)
      (h : addField c e v outer branch own d₁ = (u, d')) (hrange : d.tables.Ready sc.toScope bound)
      (he : e.Throughout sc.toScope.Occurs) (hc : d.tables.HasKind c .concrete) :
      Steps sc.toScope d.tables d'.tables :=
    h₁.1.trans (addField_steps h (hrange.steps h₁.1).inRange (h₁.1.grows.kind c _ hc)
      he.self.hasNode h₁.2)
  have hunit {e : Expr} {c : ClassId} {outer : Cardinality} {branch : Nat} {isBearer : Bool}
      {u : Unit} {d d' : Draft} (hunit : e.IsUnit)
      (hskip : ¬(!isBearer && e.hasMarker .skip) = true)
      (hfield : ¬(!isBearer && e.isFieldElement) = true)
      (ih : ∀ d r d', Build.ownValue visit sc e isBearer d = (r, d') →
        d.tables.Ready sc.toScope bound → e.Throughout sc.toScope.Occurs →
          Steps sc.toScope d.tables d'.tables ∧ d'.tables.Holds r)
      (h : Build.collectFields visit sc e c outer branch isBearer d = (u, d'))
      (hrange : d.tables.Ready sc.toScope bound) (he : e.Throughout sc.toScope.Occurs)
      (hc : d.tables.HasKind c .concrete) : Steps sc.toScope d.tables d'.tables := by
    rw [collectFields_unit hskip hfield hunit] at h
    obtain ⟨v, d₁, hvalue, hadd⟩ := bind_eq.mp h
    exact hadded (ih d v d₁ hvalue hrange he) hadd hrange he hc
  rw [walkSteps_iff]
  apply elementValue.mutual_induct visit sc
  case case1 =>
    intro e allowed hskip d r d' h hrange he
    rw [Build.elementValue] at h
    simp only [if_pos hskip, bind_eq, pure_eq] at h
    obtain ⟨_, _, ⟨rfl, rfl⟩, h⟩ := h
    exact hfinish (.refl _ _) (holds_none _) h he
  case case2 =>
    intro e allowed hskip hmarker ih d r d' h hrange he
    rw [Build.elementValue] at h
    simp only [if_neg hskip, if_pos hmarker, bind_eq, map_eq] at h
    obtain ⟨v, d₁, ⟨c, hbearer, rfl⟩, h⟩ := h
    obtain ⟨h₁, hc⟩ := ih d c d₁ hbearer hrange he
    exact hfinish h₁ (holds_class hc) h he
  case case3 =>
    intro e allowed hskip hmarker ih d r d' h hrange he
    rw [Build.elementValue] at h
    simp only [if_neg hskip, if_neg hmarker, bind_eq] at h
    obtain ⟨v, d₁, hshape, h⟩ := h
    obtain ⟨h₁, hv⟩ := ih d v d₁ hshape hrange he
    exact hfinish h₁ hv h he
  case case4 =>
    intro info text d r d' h hrange he
    rw [Build.structuralValue] at h
    obtain ⟨rfl, rfl⟩ := pure_eq.mp h
    refine ⟨.refl _ _, ?_⟩
    split
    · exact holds_primitive _ _
    · exact holds_none _
  case case5 =>
    intro info p d r d' h hrange he
    rw [Build.structuralValue] at h
    obtain ⟨rfl, rfl⟩ := pure_eq.mp h
    exact ⟨.refl _ _, holds_primitive _ _⟩
  case case6 =>
    intro info name p hname d r d' h hrange he
    rw [Build.structuralValue] at h
    rw [hname] at h
    obtain ⟨rfl, rfl⟩ := pure_eq.mp h
    exact ⟨.refl _ _, holds_primitive _ _⟩
  case case7 =>
    intro info name id hname d r d' h hrange he
    rw [Build.structuralValue] at h
    rw [hname] at h
    exact hvisit id d r d' h hrange
  case case8 =>
    intro info name hname d r d' h hrange he
    rw [Build.structuralValue] at h
    rw [hname] at h
    obtain ⟨rfl, rfl⟩ := pure_eq.mp h
    exact ⟨.refl _ _, holds_none _⟩
  case case9 =>
    intro info body ih d r d' h hrange he
    rw [Build.structuralValue] at h
    exact ih d r d' h hrange he.ofGroup
  case case10 =>
    intro info items ih d r d' h hrange he
    rw [Build.structuralValue] at h
    obtain ⟨values, d₁, hvalues, hsingle⟩ := bind_eq.mp h
    obtain ⟨h₁, hheld⟩ := ih d values d₁ hvalues hrange he.ofSequence
    rw [(singleValue_spec hsingle).1.tables_eq]
    rcases singleValue_mem hsingle with rfl | hmem
    · exact ⟨h₁, holds_none _⟩
    · exact ⟨h₁, hheld r hmem⟩
  case case11 =>
    intro info branches ih d r d' h hrange he
    rw [Build.structuralValue] at h
    exact ih d r d' h hrange he
  case case12 =>
    intro info body ih d r d' h hrange he
    rw [Build.structuralValue] at h
    simp only [bind_eq, pure_eq] at h
    obtain ⟨v, d₁, hvalue, rfl, rfl⟩ := h
    obtain ⟨h₁, hv⟩ := ih d v d₁ hvalue hrange he.ofOptional
    exact ⟨h₁, hv.wrapped .optional⟩
  case case13 =>
    intro info body kind ih d r d' h hrange he
    rw [Build.structuralValue] at h
    simp only [bind_eq, pure_eq] at h
    obtain ⟨v, d₁, hvalue, rfl, rfl⟩ := h
    obtain ⟨h₁, hv⟩ := ih d v d₁ hvalue hrange he.ofRepeated
    exact ⟨h₁, hv.wrapped .list⟩
  case case14 =>
    intro info branches hint hpolymorphic ih d r d' h hrange he
    obtain ⟨base, d₁, d₂, rfl, hnew, hrecord, hbranches⟩ :=
      alternationValue_polymorphic_parts hpolymorphic h
    have hnode : sc.toScope.HasNode info.id := he.self.hasNode
    obtain ⟨h₁, hkind, -⟩ := opened_steps hnew hrecord hbegins hnode hnode
    have h₂ := ih base d₂ () d' hbranches (hrange.steps h₁) he.ofAlternation hkind
    exact ⟨h₁.trans h₂, holds_class (h₂.grows.lt hkind.lt)⟩
  case case15 =>
    intro info branches hint hpolymorphic ih d r d' h hrange he
    obtain ⟨values, d₁, hvalues, hrest⟩ := alternationValue_plain_parts hpolymorphic h
    obtain ⟨h₁, hheld⟩ := ih d values d₁ hvalues hrange he.ofAlternation
    rcases hrest with ⟨-, rfl, rfl⟩ | ⟨-, c, d₂, d₃, rfl, hnew, hrecord, hvariants⟩
    · exact ⟨h₁, holds_none _⟩
    · have hnode : sc.toScope.HasNode info.id := he.self.hasNode
      obtain ⟨h₂, hkind, hempty⟩ := opened_steps hnew hrecord hbegins hnode hnode
      have hadded := addVariants_steps hvariants hkind.lt (length_elementValues hvalues).symm
        (fun e hmem => (he.ofAlternation e hmem).self.hasNode)
        fun v hv => h₂.grows.holds (hheld v hv)
      have h₃ : Tables.Step sc.toScope d₃.tables d'.tables :=
        .variants he.self hkind hempty hadded
      exact ⟨(h₁.trans h₂).trans (.one h₃), holds_class (h₃.grows.lt hkind.lt)⟩
  case case16 =>
    intro d r d' h hrange he
    rw [Build.elementValues] at h
    obtain ⟨rfl, rfl⟩ := pure_eq.mp h
    exact ⟨.refl _ _, fun v hv => by cases hv⟩
  case case17 =>
    intro e rest ih ihrest d r d' h hrange he
    rw [Build.elementValues] at h
    simp only [bind_eq, pure_eq] at h
    obtain ⟨v, d₁, hvalue, vs, d₂, hrest, rfl, rfl⟩ := h
    rw [List.forall_mem_cons] at he
    obtain ⟨h₁, hv⟩ := ih d v d₁ hvalue hrange he.1
    obtain ⟨h₂, hvs⟩ := ihrest d₁ vs d₂ hrest (hrange.steps h₁) he.2
    exact ⟨h₁.trans h₂, List.forall_mem_cons.mpr ⟨h₂.grows.holds hv, hvs⟩⟩
  case case18 =>
    intro base index d u d' h hrange he hbase
    rw [Build.polymorphicBranches] at h
    obtain ⟨-, rfl⟩ := pure_eq.mp h
    exact .refl _ _
  case case19 =>
    intro base index branch rest hmarker ihrest ih d u d' h hrange he hbase
    obtain ⟨c, d₁, d₂, d₃, d₄, r, hbearer, hderive, hfinished, hrecord, hrest⟩ :=
      polymorphicBranches_bearing hmarker h
    obtain ⟨hfirst, hothers⟩ := List.forall_mem_cons.mp he
    obtain ⟨h₁, hc⟩ := ih d c d₁ hbearer hrange hfirst.core
    have hbased : Steps sc.toScope d₁.tables d₂.tables :=
      setBase_steps hderive (h₁.grows.kind base _ hbase)
    have h₂ := h₁.trans hbased
    have hc₂ : c < d₂.tables.classes.size := hbased.grows.lt hc
    obtain ⟨h₃, hr⟩ := hfinish h₂ (holds_class hc₂) hfinished hfirst.core
    have h₄ : Steps sc.toScope d.tables d₄.tables := by
      rcases hrecord with ⟨-, rfl⟩ | ⟨-, hrecord⟩
      · exact h₃
      · exact (hrecorded h₃ hr hrecord hfirst).1
    exact h₄.trans (ihrest d₄ () d' hrest (hrange.steps h₄) hothers (h₄.grows.kind base _ hbase))
  case case20 =>
    intro base index branch rest hmarker c hclass ihrest ih d u d' h hrange he hbase
    obtain ⟨d₁, r, d₂, hderive, hvalue, hrest⟩ := polymorphicBranches_referring hmarker hclass h
    obtain ⟨hfirst, hothers⟩ := List.forall_mem_cons.mp he
    have h₁ : Steps sc.toScope d.tables d₁.tables := setBase_steps hderive hbase
    have h₂ := h₁.trans (ih d₁ r d₂ hvalue (hrange.steps h₁) hfirst).1
    exact h₂.trans (ihrest d₂ () d' hrest (hrange.steps h₂) hothers (h₂.grows.kind base _ hbase))
  case case21 =>
    intro base index branch rest hmarker hclass ihrest ih d u d' h hrange he hbase
    obtain ⟨c, d₁, d₂, d₃, d₄, d₅, ⟨raw, isNamed, span, hnew⟩, hderive, hrecord, hvalue, hcollect,
      hrest⟩ := polymorphicBranches_synthesized_parts hmarker hclass h
    obtain ⟨hfirst, hothers⟩ := List.forall_mem_cons.mp he
    have hnode : sc.toScope.HasNode branch.id := hfirst.self.hasNode
    obtain ⟨hstep, hkind, -⟩ := newClass_step hnew hbegins hnode
    have h₁ := Steps.one hstep
    have hbased : Steps sc.toScope d₁.tables d₂.tables :=
      setBase_steps hderive (h₁.grows.kind base _ hbase)
    have h₂ := h₁.trans hbased
    have hkind₂ := hbased.grows.kind c _ hkind
    have hstep₃ : Tables.Step sc.toScope d₂.tables d₃.tables :=
      recordClass_step hrecord hnode hkind₂.lt
    have hkind₃ := hstep₃.grows.kind c _ hkind₂
    have hstep₄ : Tables.Step sc.toScope d₃.tables d₄.tables :=
      recordValue_step hvalue hnode (holds_class hkind₃.lt)
    have hkind₄ := hstep₄.grows.kind c _ hkind₃
    have h₄ := (h₂.trans (.one hstep₃)).trans (.one hstep₄)
    have h₅ := h₄.trans (ih c d₄ () d₅ hcollect (hrange.steps h₄) hfirst hkind₄)
    exact h₅.trans (ihrest d₅ () d' hrest (hrange.steps h₅) hothers (h₅.grows.kind base _ hbase))
  case case22 =>
    intro e c outer branch isBearer hskip d u d' h hrange he hc
    rw [collectFields_skip hskip] at h
    exact .one (recordValue_step h he.self.hasNode (holds_none _))
  case case23 =>
    intro e c outer branch isBearer hskip hfield ih d u d' h hrange he hc
    rw [collectFields_field hskip hfield] at h
    obtain ⟨v, d₁, hvalue, hadd⟩ := bind_eq.mp h
    exact hadded (ih d v d₁ hvalue hrange he) hadd hrange he hc
  case case24 =>
    intro c outer branch isBearer info items hskip hfield ih d u d' h hrange he hc
    rw [Build.collectFields, if_neg hskip, if_neg hfield] at h
    exact ih d u d' h hrange he.ofSequence hc
  case case25 =>
    intro c outer branch isBearer info body hskip hfield ih d u d' h hrange he hc
    rw [Build.collectFields, if_neg hskip, if_neg hfield] at h
    exact ih d u d' h hrange he.ofGroup hc
  case case26 =>
    intro c outer branch isBearer info body hsimple hskip hfield ih d u d' h hrange he hc
    exact hunit (e := .optional info body) hsimple hskip hfield ih h hrange he hc
  case case27 =>
    intro c outer branch isBearer info body hsimple hskip hfield ih d u d' h hrange he hc
    rw [Build.collectFields, if_neg hskip, if_neg hfield, if_neg hsimple] at h
    exact ih d u d' h hrange he.ofOptional hc
  case case28 =>
    intro c outer branch isBearer info body kind hsimple hskip hfield ih d u d' h hrange he hc
    exact hunit (e := .repeated info body kind) hsimple hskip hfield ih h hrange he hc
  case case29 =>
    intro c outer branch isBearer info body kind hsimple hskip hfield ih d u d' h hrange he hc
    rw [Build.collectFields, if_neg hskip, if_neg hfield, if_neg hsimple] at h
    exact ih d u d' h hrange he.ofRepeated hc
  case case30 =>
    intro c outer branch isBearer e hsequence hgroup hoptional hrepeated hskip hfield ih d u d' h
      hrange he hc
    exact hunit (isUnit_of_other hsequence hgroup hoptional hrepeated) hskip
      hfield ih h hrange he hc
  case case31 =>
    intro e ih d r d' h hrange he
    rw [Build.ownValue] at h
    exact ih d r d' h hrange he
  case case32 =>
    intro e isBearer hbearer ih d r d' h hrange he
    rw [Build.ownValue] at h
    rw [if_neg hbearer] at h
    exact ih d r d' h hrange he
  case case33 =>
    intro c outer branch d u d' h hrange he hc
    rw [Build.collectItems] at h
    obtain ⟨-, rfl⟩ := pure_eq.mp h
    exact .refl _ _
  case case34 =>
    intro c outer branch e rest ih ihrest d u d' h hrange he hc
    rw [Build.collectItems] at h
    obtain ⟨_, d₁, hfirst, hrest⟩ := bind_eq.mp h
    rw [List.forall_mem_cons] at he
    have h₁ := ih d () d₁ hfirst hrange he.1 hc
    exact h₁.trans (ihrest d₁ u d' hrest (hrange.steps h₁) he.2 (h₁.grows.kind c _ hc))
  case case35 =>
    intro e ihbranches ihfill ihfill' d c d' h hrange he
    rcases bearerClass_parts h with ⟨hclass, rfl⟩ | ⟨-, hmade⟩
    · exact ⟨.refl _ _, (hrange.inRange.nodeClasses e.id c hclass).2⟩
    · have hnode : sc.toScope.HasNode e.id := he.self.hasNode
      rcases hmade with ⟨info, branches, d₁, d₂, d₃, hcore, hnew, hrecord, hinner, hbranches⟩ |
        ⟨d₁, d₂, hnew, hrecord, hfill⟩
      · have hcoreOccurs := he.classContent.core
        rw [hcore] at hcoreOccurs
        obtain ⟨h₂, hkind, -⟩ := opened_steps hnew hrecord hbegins hnode hnode
        have hstep₃ : Tables.Step sc.toScope d₂.tables d₃.tables :=
          recordClass_step hinner hcoreOccurs.self.hasNode hkind.lt
        have h₃ := h₂.trans (.one hstep₃)
        have h₄ := ihbranches e.classContent.1 e.classContent.2 rfl info branches hcore c d₃ () d'
          hbranches (hrange.steps h₃) hcoreOccurs.ofAlternation (hstep₃.grows.kind c _ hkind)
        exact ⟨h₃.trans h₄, h₄.grows.lt (hstep₃.grows.lt hkind.lt)⟩
      · obtain ⟨h₂, hkind, -⟩ := opened_steps hnew hrecord hbegins hnode hnode
        have h₃ := ihfill e.classContent.1 e.classContent.2 rfl [] c d₂ () d' hfill
          (hrange.steps h₂) he.classContent hkind
        exact ⟨h₂.trans h₃, h₃.grows.lt hkind.lt⟩
  case case36 =>
    intro c content isBearer branches hbranches ih d u d' h hrange he hc
    obtain ⟨d₁, hcollect, hrelax⟩ := fillClass_several hbranches h
    exact (ih d () d₁ hcollect hrange (he.classAlternatives hbranches) hc).trans
      (relaxPartial_steps hrelax)
  case case37 =>
    intro c content isBearer hbranches ih d u d' h hrange he hc
    exact ih d () d' (fillClass_single hbranches h) hrange he hc
  case case38 =>
    intro c index d u d' h hrange he hc
    rw [Build.collectBranches] at h
    obtain ⟨-, rfl⟩ := pure_eq.mp h
    exact .refl _ _
  case case39 =>
    intro c index e rest ih ihrest d u d' h hrange he hc
    rw [Build.collectBranches] at h
    obtain ⟨_, d₁, hfirst, hrest⟩ := bind_eq.mp h
    rw [List.forall_mem_cons] at he
    have h₁ := ih d () d₁ hfirst hrange he.1 hc
    exact h₁.trans (ihrest d₁ u d' hrest (hrange.steps h₁) he.2 (h₁.grows.kind c _ hc))
  case case40 =>
    intro hint info branches ih d r d' h hrange he
    rw [Build.groupValue] at h
    simp only [bind_eq, pure_eq] at h
    obtain ⟨v, d₁, hvalue, _, d₂, hrecord, rfl, rfl⟩ := h
    obtain ⟨h₁, hv⟩ := ih d v d₁ hvalue hrange he
    exact hrecorded (e := .alternation info branches) h₁ hv hrecord he
  case case41 =>
    intro hint info inner hkeeps ih d r d' h hrange he
    rw [Build.groupValue] at h
    rw [if_pos hkeeps] at h
    exact ih d r d' h hrange he
  case case42 =>
    intro hint info inner hkeeps ih d r d' h hrange he
    rw [Build.groupValue] at h
    simp only [if_neg hkeeps, bind_eq, pure_eq] at h
    obtain ⟨v, d₁, hvalue, _, d₂, hrecord, rfl, rfl⟩ := h
    obtain ⟨h₁, hv⟩ := ih d v d₁ hvalue hrange he.ofGroup
    exact hrecorded (e := .group info inner) h₁ hv hrecord he
  case case43 =>
    intro hint e halternation hgroup ih d r d' h hrange he
    rw [groupValue_other halternation hgroup] at h
    exact ih d r d' h hrange he

end Build
end AnnotatedGrammar
