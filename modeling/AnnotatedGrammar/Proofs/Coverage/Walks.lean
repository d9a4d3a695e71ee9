import Mathlib.Tactic.MkIffOfInductiveProp
import AnnotatedGrammar.Proofs.Analysis.Elements
import AnnotatedGrammar.Proofs.Coverage.Covers

/-!
# Whatever a walk makes is reached

By one induction over the walks: what is made inside an expression is made at sites that are reached
from it. A walk that finds no value makes nothing by itself, so that a site has to be reached only
if there is a value.
-/

namespace AnnotatedGrammar

namespace Expr

/-- The name that a marker gives to a field can be a name. -/
def NamesField (e : Expr) : Prop :=
  ∀ raw, e.markerValue? .field = some raw → (Naming.fieldName raw).isSome = true

/-- The expressions have different numbers, alternations are as the parser makes them, and markers
give names. -/
structure Usable (e : Expr) : Prop extends e.Proper where
  named : e.Throughout NamesField

/-- Several usable expressions in a row, with different numbers throughout. -/
structure AllUsable (es : List Expr) : Prop extends AllProper es where
  named : ∀ e ∈ es, e.Throughout NamesField

variable {e body : Expr} {es rest branches : List Expr}

theorem Usable.children (h : e.Usable) : AllUsable e.children :=
  ⟨h.toProper.children, (throughout_iff.mp h.named).2⟩

theorem AllUsable.head (h : AllUsable (e :: rest)) : e.Usable :=
  ⟨h.toAllProper.head, h.named e List.mem_cons_self⟩

theorem AllUsable.tail (h : AllUsable (e :: rest)) : AllUsable rest :=
  ⟨h.toAllProper.tail, fun e he => h.named e (List.mem_cons_of_mem _ he)⟩

theorem Usable.ofBody (h : e.Usable) (hbody : e.children = [body]) : body.Usable :=
  (hbody ▸ h.children).head

theorem Usable.core (h : e.Usable) : e.core.Usable := ⟨h.toProper.core, h.named.core⟩

theorem Usable.classContent (h : e.Usable) : e.classContent.1.Usable :=
  ⟨h.toProper.classContent, h.named.classContent⟩

theorem Usable.ofClassAlternatives (h : e.Usable)
    (hbranches : e.classAlternatives? = some branches) : AllUsable branches :=
  ⟨h.toProper.ofClassAlternatives hbranches, h.named.classAlternatives hbranches⟩

/-- The expressions inside the content of a class that are not the carrier of that class. -/
def foreignIds (e : Expr) (isBearer : Bool) : List NodeId := if isBearer then e.innerIds else e.ids

theorem innerIds_subset_foreignIds (e : Expr) (isBearer : Bool) :
    e.innerIds ⊆ e.foreignIds isBearer := by
  unfold foreignIds
  split
  · exact List.Subset.refl _
  · exact e.innerIds_subset

theorem foreignIds_subset (e : Expr) (isBearer : Bool) : e.foreignIds isBearer ⊆ e.ids := by
  unfold foreignIds
  split
  · exact e.innerIds_subset
  · exact List.Subset.refl _

end Expr

namespace GrammarModel

variable {m : GrammarModel} {c : ClassId} {e x : Expr}

/-- What fills a field inside a part of an expression fills it inside the expression. -/
theorem fillsFieldsOf_of_child (hx : x ∈ e.children) (h : m.fillsFieldsOf x c = true) :
    m.fillsFieldsOf e c = true := by
  unfold fillsFieldsOf at h ⊢
  obtain ⟨y, hy, hfills⟩ := List.any_eq_true.mp h
  exact List.any_eq_true.mpr ⟨y, Expr.preorder_subset_of_child hx hy, hfills⟩

theorem hasKind_unique {kind kind' : ClassKind} (h : Settled.HasKind m c kind)
    (h' : Settled.HasKind m c kind') : kind = kind' := by
  obtain ⟨cls, hcls, rfl⟩ := h
  obtain ⟨cls', hcls', rfl⟩ := h'
  obtain rfl := Option.some.inj (hcls.symm.trans hcls')
  rfl

theorem ClassReached.of_abstract (h : Settled.HasKind m c .abstract) : m.ClassReached c :=
  ⟨fun h' => (by cases hasKind_unique h h'), fun h' => (by cases hasKind_unique h h')⟩

theorem ClassReached.of_concrete (h : Settled.HasKind m c .concrete)
    (hreached : (∃ content isBearer, m.Reached (.body c content isBearer)) ∨
      ∃ x, m.Reached (.sole c x)) : m.ClassReached c :=
  ⟨fun _ => hreached, fun h' => (by cases hasKind_unique h h')⟩

theorem ClassReached.of_tagged {branches : List Expr} (h : Settled.HasKind m c .tagged)
    (hreached : m.Reached (.choice c branches)) : m.ClassReached c :=
  ⟨fun h' => by (cases hasKind_unique h h'), fun _ => ⟨branches, hreached⟩⟩

end GrammarModel

namespace Build

open AnnotatedGrammar.Expr

/-- Of every walk, everything is reached. -/
@[mk_iff]
structure WalkCovers (visit : RuleId → Build (Option Value)) (sc : RuleScope) : Prop where
  elementValue : ∀ e allowed, ∀ d r d', elementValue visit sc e allowed d = (r, d') →
    d.WellFormed → e.Usable → Covers sc.toScope sc.roles e.ids e.innerIds
      (fun m => r ≠ none → m.Reached (.element e)) d d'
  structuralValue : ∀ e, ∀ d r d', structuralValue visit sc e d = (r, d') → d.WellFormed →
    e.Usable → Covers sc.toScope sc.roles e.innerIds e.innerIds
      (fun m => r ≠ none → m.Reached (.shape e)) d d'
  alternationValue : ∀ info branches hint, ∀ d r d',
    alternationValue visit sc info branches hint d = (r, d') → d.WellFormed →
      (alternation info branches).Usable →
        Covers sc.toScope sc.roles (idsAll branches) (idsAll branches)
          (fun m => r ≠ none → m.Reached (.shape (.alternation info branches))) d d'
  elementValues : ∀ es, ∀ d r d', elementValues visit sc es d = (r, d') → d.WellFormed →
    AllUsable es → Covers sc.toScope sc.roles (idsAll es) (idsAll es)
      (fun m => ∀ entry ∈ es.zip r, entry.2 ≠ none → m.Reached (.element entry.1)) d d'
  polymorphicBranches : ∀ base index branches, ∀ d u d',
    polymorphicBranches visit sc base index branches d = (u, d') → d.WellFormed →
      AllUsable branches → Covers sc.toScope sc.roles (idsAll branches) (idsAll branches)
        (fun m => ∃ whole, branches ⊆ whole ∧ m.Reached (.branches whole)) d d'
  collectFields : ∀ e c outer branch isBearer, ∀ d u d',
    collectFields visit sc e c outer branch isBearer d = (u, d') → d.WellFormed → e.Usable →
      d.Hosts c (e.foreignIds isBearer) →
        (isBearer = true → (d.classAt c).origin = .node e.id) →
          Covers sc.toScope sc.roles e.ids (e.foreignIds isBearer)
            (fun m => (isBearer = false → m.fillsFieldsOf e c = true) →
              m.Reached (.content c e isBearer)) d d'
  ownValue : ∀ e isBearer, ∀ d r d', ownValue visit sc e isBearer d = (r, d') → d.WellFormed →
    e.Usable → Covers sc.toScope sc.roles (if isBearer then e.innerIds else e.ids) e.innerIds
      (fun m => r ≠ none → m.Reached (if isBearer then .shape e else .element e)) d d'
  collectItems : ∀ items c outer branch, ∀ d u d',
    collectItems visit sc items c outer branch d = (u, d') → d.WellFormed → AllUsable items →
      d.Hosts c (idsAll items) → Covers sc.toScope sc.roles (idsAll items) (idsAll items)
        (fun m => ∀ x ∈ items, m.fillsFieldsOf x c = true → m.Reached (.content c x false)) d d'
  bearerClass : ∀ e, ∀ d c d', bearerClass visit sc e d = (c, d') → d.WellFormed → e.Usable →
    Covers sc.toScope sc.roles e.ids e.innerIds
      (fun m => ∀ c, m.nodeClasses.get? e.id = some c → m.Reached (.bearer e c)) d d'
  fillClass : ∀ c content isBearer, ∀ d u d',
    fillClass visit sc c content isBearer d = (u, d') → d.WellFormed → content.Usable →
      d.Hosts c (content.foreignIds isBearer) →
        (isBearer = true → (d.classAt c).origin = .node content.id) →
          Covers sc.toScope sc.roles content.ids (content.foreignIds isBearer)
            (fun m => m.Reached (.body c content isBearer)) d d'
  collectBranches : ∀ c index branches, ∀ d u d',
    collectBranches visit sc c index branches d = (u, d') → d.WellFormed → AllUsable branches →
      d.Hosts c (idsAll branches) → Covers sc.toScope sc.roles (idsAll branches) (idsAll branches)
        (fun m => ∀ x ∈ branches, m.fillsFieldsOf x c = true → m.Reached (.content c x false)) d d'
  groupValue : ∀ body hint, ∀ d r d', groupValue visit sc body hint d = (r, d') → d.WellFormed →
    body.Usable → Covers sc.toScope sc.roles body.ids body.ids
      (fun m => r ≠ none → m.Reached (.element body)) d d'

variable {visit : RuleId → Build (Option Value)} {sc : RuleScope} {d d₁ d' : Draft} {e : Expr}
  {rest : List Expr} {Q Q₁ Q₂ : GrammarModel → Prop}

/-- An expression and those after it. -/
theorem covers_cons (h₁ : Covers sc.toScope sc.roles e.ids e.ids Q₁ d d₁)
    (h₂ : Covers sc.toScope sc.roles (idsAll rest) (idsAll rest) Q₂ d₁ d')
    (husable : AllUsable (e :: rest)) :
    Covers sc.toScope sc.roles (idsAll (e :: rest)) (idsAll (e :: rest))
      (fun m => Q₁ m ∧ Q₂ m) d d' :=
  h₁.seq h₂ (ids_subset_idsAll_cons e rest) (idsAll_subset_idsAll_cons e rest)
    (ids_subset_idsAll_cons e rest) (idsAll_subset_idsAll_cons e rest) husable.disjoint

/-- The one walk through the operand of an expression. -/
theorem covers_operand {body : Expr} {v r : Option Value} (hbody : e.children = [body])
    (h : Covers sc.toScope sc.roles body.ids body.innerIds
      (fun m => v ≠ none → m.Reached (.element body)) d d')
    (halternation : e.isAlternation = false) (hvalue : v ≠ none → r ≠ none) :
    Covers sc.toScope sc.roles e.innerIds e.innerIds (fun m => r ≠ none → m.Reached (.shape e))
      d d' := by
  have hids : body.ids = e.innerIds := by
    rw [innerIds, hbody, idsAll_cons, idsAll_nil, List.append_nil]
  refine (h.mono (hids ▸ List.Subset.refl _) (hids ▸ body.innerIds_subset)).imp
    fun m _ hreached hsome => .child (hreached (hvalue hsome)) halternation ?_
  rw [hbody]
  exact List.mem_singleton.mpr rfl

/-- A part of an expression inside the content of a class. -/
theorem covers_part {body : Expr} {c : ClassId} {isBearer : Bool} (hbody : e.children = [body])
    (h : Covers sc.toScope sc.roles body.ids (body.foreignIds false)
      (fun m => (false = false → m.fillsFieldsOf body c = true) → m.Reached (.content c body false))
      d d') (hcomposed : e.IsComposed isBearer) :
    Covers sc.toScope sc.roles e.ids (e.foreignIds isBearer)
      (fun m => (isBearer = false → m.fillsFieldsOf e c = true) → m.Reached (.content c e isBearer))
      d d' := by
  have hx : body ∈ e.children := hbody ▸ List.mem_singleton.mpr rfl
  have hids : body.ids = e.innerIds := by
    rw [innerIds, hbody, idsAll_cons, idsAll_nil, List.append_nil]
  refine (h.mono (hids ▸ e.innerIds_subset)
    (List.Subset.trans (body.foreignIds_subset false) (hids ▸ e.innerIds_subset_foreignIds _))).imp
    fun m _ hreached hfills => ?_
  have hinside := GrammarModel.fillsFieldsOf_of_child hx (hfills rfl)
  exact .part (hreached fun _ => hinside) hcomposed hinside hx

/-- A value inside the content of a class. -/
theorem covers_value {c : ClassId} {isBearer own : Bool} {outer : Cardinality} {branch : Nat}
    {r : Option Value} {u : Unit}
    (h : Covers sc.toScope sc.roles (if isBearer then e.innerIds else e.ids) e.innerIds
      (fun m => r ≠ none → m.Reached (if isBearer then .shape e else .element e)) d d₁)
    (hadd : addField c e r outer branch own d₁ = (u, d')) (hwf : d.WellFormed) (husable : e.Usable)
    (hhosts : d.Hosts c (e.foreignIds isBearer))
    (horigin : isBearer = true → (d.classAt c).origin = .node e.id) (hvalue : e.IsValue isBearer) :
    Covers sc.toScope sc.roles e.ids (e.foreignIds isBearer)
      (fun m => (isBearer = false → m.fillsFieldsOf e c = true) → m.Reached (.content c e isBearer))
      d d' := by
  have hlt := Nat.lt_of_lt_of_le hhosts.lt h.onward.classes_le
  have hplaced := addField_placed hadd (h.onward.wellFormed hwf) hlt
  have honward : d.Onward d' := by
    refine h.onward.trans ?_
    cases hplaced with
    | nothing heq => exact heq ▸ .refl _
    | filled f hadds => exact hadds.toOnward
    | refused hcalm => exact hcalm.toOnward
  have hbare := hhosts.mono (List.nil_subset _)
  cases isBearer with
  | true =>
    refine (h.place hplaced e.innerIds_subset (List.Subset.refl _) husable.id_not_mem
      (.inl ⟨horigin rfl, husable.id_not_mem⟩) hbare husable.named.self).imp fun m _ hQ => ?_
    have hreached : m.Reached (.content c e true) := hQ fun h => by cases h
    exact ⟨fun _ _ => .carried hreached hvalue,
      fun f _ => ⟨fun _ => .carried hreached hvalue, e, true, rfl, hvalue, hreached⟩⟩
  | false =>
    refine (h.place hplaced (List.Subset.refl _) e.innerIds_subset husable.id_not_mem
      (.inr ⟨hhosts.origin_ne e.id e.id_mem_ids, e.id_mem_ids⟩) hbare husable.named.self).imp
      fun m hm hQ => ⟨fun hnone hsome => absurd hnone hsome, fun f hfills => ?_⟩
    have hreached : m.Reached (.content c e false) :=
      hQ fun _ => hm.fillsFieldsOf (hhosts.after honward) hfills
    exact ⟨fun _ => .own hreached hvalue, e, false, rfl, hvalue, hreached⟩

/-- An expression and those after it inside the content of a class. -/
theorem covers_contents {c : ClassId} (husable : AllUsable (e :: rest))
    (hhosts : d.Hosts c (idsAll (e :: rest))) (hwf : d.WellFormed)
    (h₁ : d.WellFormed → e.Usable → d.Hosts c (e.foreignIds false) →
      (false = true → (d.classAt c).origin = .node e.id) →
        Covers sc.toScope sc.roles e.ids (e.foreignIds false)
          (fun m => (false = false → m.fillsFieldsOf e c = true) →
            m.Reached (.content c e false)) d d₁)
    (h₂ : d₁.WellFormed → AllUsable rest → d₁.Hosts c (idsAll rest) →
      Covers sc.toScope sc.roles (idsAll rest) (idsAll rest)
        (fun m => ∀ x ∈ rest, m.fillsFieldsOf x c = true → m.Reached (.content c x false)) d₁ d') :
    Covers sc.toScope sc.roles (idsAll (e :: rest)) (idsAll (e :: rest))
      (fun m => ∀ x ∈ e :: rest, m.fillsFieldsOf x c = true → m.Reached (.content c x false))
      d d' := by
  have hfirst := h₁ hwf husable.head (hhosts.mono (ids_subset_idsAll_cons e rest)) nofun
  have hrest := h₂ (hfirst.onward.wellFormed hwf) husable.tail
    ((hhosts.after hfirst.onward).mono (idsAll_subset_idsAll_cons e rest))
  refine (covers_cons hfirst hrest husable).imp fun m _ hreached => ?_
  rw [List.forall_mem_cons] at hreached
  exact ⟨fun hfills => hreached.1 (hfills rfl), hreached.2⟩

/-- The class of an expression that carries one, with what is inside. -/
theorem bearerClass_covers {c : ClassId}
    (ihbranches : ∀ base info branches, e.classContent.1.core = alternation info branches →
      ∀ d u d', polymorphicBranches visit sc base 0 branches d = (u, d') → d.WellFormed →
        AllUsable branches → Covers sc.toScope sc.roles (idsAll branches) (idsAll branches)
          (fun m => ∃ whole, branches ⊆ whole ∧ m.Reached (.branches whole)) d d')
    (ihfill : ∀ c d u d', fillClass visit sc c e.classContent.1 e.classContent.2 d = (u, d') →
      d.WellFormed → e.classContent.1.Usable →
        d.Hosts c (e.classContent.1.foreignIds e.classContent.2) →
          (e.classContent.2 = true → (d.classAt c).origin = .node e.classContent.1.id) →
            Covers sc.toScope sc.roles e.classContent.1.ids
              (e.classContent.1.foreignIds e.classContent.2)
              (fun m => m.Reached (.body c e.classContent.1 e.classContent.2)) d d')
    (h : bearerClass visit sc e d = (c, d')) (hwf : d.WellFormed) (husable : e.Usable) :
    Covers sc.toScope sc.roles e.ids e.innerIds
      (fun m => ∀ c, m.nodeClasses.get? e.id = some c → m.Reached (.bearer e c)) d d' := by
  rcases bearerClass_parts h with ⟨-, rfl⟩ |
    ⟨-, ⟨info, branches, d₁, d₂, d₃, hcore, hnew, hrecord, hinside, hbranches⟩ |
      ⟨d₁, d₂, hnew, hrecord, hfill⟩⟩
  · exact .refl _
  · have hopens := hnew.opens hwf
    have hcalm := (recordClass_calm hrecord).trans (recordClass_calm hinside)
    have hbody := husable.classContent.core
    rw [hcore] at hbody
    have hinner := ihbranches c info branches hcore d₃ () d' hbranches
      (hcalm.wellFormed (hopens.wellFormed hwf)) hbody.children
    have hsub := List.Subset.trans (idsAll_subset_of_core hcore) e.innerIds_classContent_subset
    refine ((Covers.after_opens hopens (.after_calm hcalm hinner)).mono
      (List.Subset.trans hsub e.innerIds_subset) hsub).imp fun m hm hreached => ?_
    obtain ⟨hclass, hkind⟩ :=
      (hm.before (hcalm.toOnward.trans hinner.onward)).opened hopens (.inl rfl)
    exact ⟨.of_abstract hkind, branches, List.Subset.refl _,
      .abstract (hreached c hclass) hkind hcore⟩
  · have hopens := hnew.opens hwf
    have hcalm := recordClass_calm hrecord
    have hlt : c < d₁.classes.size := by
      rw [hopens.classes_size, hopens.id_eq]
      exact Nat.lt_succ_self _
    have horigin : (d₂.classAt c).origin = .node e.id :=
      (hcalm.origin_eq c hlt).trans hopens.origin_new
    have hforeign : e.classContent.1.foreignIds e.classContent.2 ⊆ e.innerIds := by
      rcases e.classContent_cases with ⟨hcontent, -⟩ | ⟨info, body, rfl, hcontent⟩
      · rw [hcontent]
        exact List.Subset.refl _
      · rw [hcontent, innerIds_group]
        exact List.Subset.refl _
    have hhosts : d₂.Hosts c (e.classContent.1.foreignIds e.classContent.2) := by
      refine ⟨Nat.lt_of_lt_of_le hlt hcalm.classes_le,
        (hcalm.kind_eq c hlt).trans hopens.kind_new, fun node hnode heq => ?_⟩
      rw [horigin] at heq
      exact husable.id_not_mem (ClassOrigin.node.inj heq ▸ hforeign hnode)
    have hcarried (hbearer : e.classContent.2 = true) :
        (d₂.classAt c).origin = .node e.classContent.1.id := by
      rcases e.classContent_cases with ⟨hcontent, -⟩ | ⟨info, body, rfl, hcontent⟩
      · rw [hcontent]
        exact horigin
      · rw [hcontent] at hbearer
        cases hbearer
    have hinner := ihfill c d₂ () d' hfill (hcalm.wellFormed (hopens.wellFormed hwf))
      husable.classContent hhosts hcarried
    refine ((Covers.after_opens hopens (.after_calm hcalm hinner)).mono e.ids_classContent_subset
      hforeign).imp fun m hm hreached => ?_
    obtain ⟨hclass, hkind⟩ :=
      (hm.before (hcalm.toOnward.trans hinner.onward)).opened hopens (.inl rfl)
    have hbody : m.Reached (.body c e.classContent.1 e.classContent.2) :=
      .concrete (hreached c hclass) hkind
    exact ⟨.of_concrete hkind (.inl ⟨_, _, hbody⟩), hbody⟩

/-- Of the walks everything is reached, if of finding the value of a rule everything is. -/
theorem walkCovers (hvisit : ∀ id d r d', visit id d = (r, d') → d.WellFormed →
      Covers sc.toScope sc.roles [] [] (fun _ => True) d d') : WalkCovers visit sc := by
  have hrecorded {e : Expr} {v : Option Value} {all foreign : List NodeId} {u : Unit}
      {d d₁ d' : Draft} {Q : GrammarModel → Prop}
      (h : Covers sc.toScope sc.roles all foreign Q d d₁)
      (hrecord : recordValue e.id v d₁ = (u, d')) :
      Covers sc.toScope sc.roles all foreign Q d d' :=
    h.before_calm (recordValue_calm hrecord)
  rw [walkCovers_iff]
  apply elementValue.mutual_induct visit sc
  case case1 =>
    intro e allowed hskip d r d' h hwf husable
    rw [Build.elementValue] at h
    simp only [if_pos hskip, bind_eq, pure_eq] at h
    obtain ⟨_, _, ⟨rfl, rfl⟩, h⟩ := h
    exact .of_calm (finishElement_spec h).2.1.calm
  case case2 =>
    intro e allowed hskip hmarker ih d r d' h hwf husable
    rw [Build.elementValue] at h
    simp only [if_neg hskip, if_pos hmarker, bind_eq, map_eq] at h
    obtain ⟨v, d₁, ⟨c, hbearer, rfl⟩, h⟩ := h
    obtain ⟨rfl, hfinished, -⟩ := finishElement_spec h
    refine ((ih d c d₁ hbearer hwf husable).before_calm hfinished.calm).imp
      fun m _ hreached c' hclass => .bearing (hreached (by simp)) hskip hmarker hclass
  case case3 =>
    intro e allowed hskip hmarker ih d r d' h hwf husable
    rw [Build.elementValue] at h
    simp only [if_neg hskip, if_neg hmarker, bind_eq] at h
    obtain ⟨v, d₁, hshape, h⟩ := h
    obtain ⟨rfl, hfinished, -⟩ := finishElement_spec h
    exact (((ih d _ d₁ hshape hwf husable).mono e.innerIds_subset (List.Subset.refl _)).before_calm
      hfinished.calm).imp fun m _ hreached hsome => .shaped (hreached hsome) hskip hmarker
  case case4 =>
    intro info text d r d' h hwf husable
    rw [Build.structuralValue] at h
    obtain ⟨-, rfl⟩ := pure_eq.mp h
    exact .refl _
  case case5 =>
    intro info p d r d' h hwf husable
    rw [Build.structuralValue] at h
    obtain ⟨-, rfl⟩ := pure_eq.mp h
    exact .refl _
  case case6 =>
    intro info name p hname d r d' h hwf husable
    rw [Build.structuralValue, hname] at h
    obtain ⟨-, rfl⟩ := pure_eq.mp h
    exact .refl _
  case case7 =>
    intro info name id hname d r d' h hwf husable
    rw [Build.structuralValue, hname] at h
    exact ((hvisit id d r d' h hwf).mono (List.nil_subset _) (List.nil_subset _)).imp
      fun _ _ _ => trivial
  case case8 =>
    intro info name hname d r d' h hwf husable
    rw [Build.structuralValue, hname] at h
    obtain ⟨-, rfl⟩ := pure_eq.mp h
    exact .refl _
  case case9 =>
    intro info body ih d r d' h hwf husable
    rw [Build.structuralValue] at h
    have hids : body.ids ⊆ (group info body).innerIds := by
      rw [innerIds_group]
      exact List.Subset.refl _
    exact ((ih d r d' h hwf (husable.ofBody rfl)).mono hids hids).imp fun m _ hreached hsome =>
      .child (hreached hsome) rfl (List.mem_singleton.mpr rfl)
  case case10 =>
    intro info items ih d r d' h hwf husable
    rw [Build.structuralValue] at h
    obtain ⟨values, d₁, hvalues, hsingle⟩ := bind_eq.mp h
    obtain ⟨hfaults, hvalue⟩ := singleValue_spec hsingle
    refine ((ih d values d₁ hvalues hwf husable.children).before_calm hfaults.calm).imp
      fun m hm hreached entry hentry hsome => ?_
    obtain ⟨hitem, hmem⟩ := List.of_mem_zip hentry
    refine .child (hreached fun hnone => ?_) rfl hitem
    have hempty := hvalue hm.errors_eq
    rw [hnone] at hempty
    obtain ⟨v, hv⟩ := Option.ne_none_iff_exists'.mp hsome
    have hmissing : entry.2 = none := List.filterMap_eq_nil_iff.mp hempty _ hmem
    rw [hmissing] at hv
    cases hv
  case case11 =>
    intro info branches ih d r d' h hwf husable
    rw [Build.structuralValue] at h
    exact ih d r d' h hwf husable
  case case12 =>
    intro info body ih d r d' h hwf husable
    rw [Build.structuralValue] at h
    simp only [bind_eq, pure_eq] at h
    obtain ⟨v, d₁, hvalue, rfl, rfl⟩ := h
    exact covers_operand rfl (ih d v d₁ hvalue hwf (husable.ofBody rfl)) rfl (by simp)
  case case13 =>
    intro info body kind ih d r d' h hwf husable
    rw [Build.structuralValue] at h
    simp only [bind_eq, pure_eq] at h
    obtain ⟨v, d₁, hvalue, rfl, rfl⟩ := h
    exact covers_operand rfl (ih d v d₁ hvalue hwf (husable.ofBody rfl)) rfl (by simp)
  case case14 =>
    intro info branches hint hpolymorphic ih d r d' h hwf husable
    obtain ⟨base, d₁, d₂, rfl, hnew, hrecord, hbranches⟩ :=
      alternationValue_polymorphic_parts hpolymorphic h
    have hopens := hnew.opens hwf
    have hcalm := recordClass_calm hrecord
    have hinner := ih base d₂ () d' hbranches (hcalm.wellFormed (hopens.wellFormed hwf))
      husable.children
    refine (Covers.after_opens hopens (.after_calm hcalm hinner)).imp fun m hm hreached => ?_
    obtain ⟨hclass, hkind⟩ :=
      (hm.before (hcalm.toOnward.trans hinner.onward)).opened hopens (.inl rfl)
    exact ⟨.of_abstract hkind, branches, List.Subset.refl _,
      .base (hreached (by simp)) hclass hkind⟩
  case case15 =>
    intro info branches hint hpolymorphic ih d r d' h hwf husable
    obtain ⟨values, d₁, hvalues, hrest⟩ := alternationValue_plain_parts hpolymorphic h
    have hinner := ih d values d₁ hvalues hwf husable.children
    rcases hrest with ⟨hnone, rfl, rfl⟩ | ⟨-, c, d₂, d₃, rfl, hnew, hrecord, hvariants⟩
    · exact hinner.imp fun _ _ _ entry hentry hsome =>
        absurd (hnone _ (List.of_mem_zip hentry).2) hsome
    · have hopens := hnew.opens (hinner.onward.wellFormed hwf)
      have hcalm := recordClass_calm hrecord
      have hlt : c < d₂.classes.size := by
        rw [hopens.classes_size, hopens.id_eq]
        exact Nat.lt_succ_self _
      have hadded := addVariants_calm hvariants (Nat.lt_of_lt_of_le hlt hcalm.classes_le)
        ((hcalm.kind_eq c hlt).trans hopens.kind_new)
      have hmade : Covers sc.toScope sc.roles [] [] (fun m => m.ClassReached c) d₁ d' :=
        ((Covers.of_opens hopens).before_calm hcalm).before_calm hadded
      refine (hinner.seq hmade (List.Subset.refl _) (List.nil_subset _) (List.Subset.refl _)
        (List.nil_subset _) (by simp)).imp fun m hm hreached => ?_
      obtain ⟨hclass, hkind⟩ :=
        (hm.before (hcalm.toOnward.trans hadded.toOnward)).opened hopens (.inl rfl)
      have hchoice : m.Reached (.choice c branches) := .choice (hreached (by simp)) hclass hkind
      exact ⟨fun entry hentry _ => .branch hchoice (List.of_mem_zip hentry).1,
        .of_tagged hkind hchoice⟩
  case case16 =>
    intro d r d' h hwf husable
    rw [Build.elementValues] at h
    obtain ⟨-, rfl⟩ := pure_eq.mp h
    exact .refl _
  case case17 =>
    intro e rest ih ihrest d r d' h hwf husable
    rw [Build.elementValues] at h
    simp only [bind_eq, pure_eq] at h
    obtain ⟨v, d₁, hvalue, vs, d₂, hrest, rfl, rfl⟩ := h
    have hfirst := (ih d v d₁ hvalue hwf husable.head).mono (List.Subset.refl _) e.innerIds_subset
    refine (covers_cons hfirst (ihrest d₁ vs d₂ hrest (hfirst.onward.wellFormed hwf) husable.tail)
      husable).imp fun m _ hreached => ?_
    rw [List.zip_cons_cons, List.forall_mem_cons] at hreached
    exact hreached
  case case18 =>
    intro base index d u d' h hwf husable
    rw [Build.polymorphicBranches] at h
    obtain ⟨-, rfl⟩ := pure_eq.mp h
    exact .refl _
  case case19 =>
    intro base index branch rest hmarker ihrest ih d u d' h hwf husable
    obtain ⟨c, d₁, d₂, d₃, d₄, r, hbearer, hderive, hfinish, hrecord, hrest⟩ :=
      polymorphicBranches_bearing hmarker h
    have hcore := (ids_core_sublist branch).subset
    have hclass := (ih d c d₁ hbearer hwf husable.head.core).mono hcore
      (List.Subset.trans (innerIds_subset _) hcore)
    have hderived := hclass.before_calm (setBase_calm hderive)
    have hfinished := hderived.before_calm (finishElement_spec hfinish).2.1.calm
    have hfirst : Covers sc.toScope sc.roles branch.ids branch.ids (fun m => ∀ c,
        m.nodeClasses.get? branch.core.id = some c → m.Reached (.bearer branch.core c)) d d₄ := by
      rcases hrecord with ⟨-, rfl⟩ | ⟨-, hrecord⟩
      · exact hfinished
      · exact hrecorded hfinished hrecord
    refine (covers_cons hfirst (ihrest d₄ () d' hrest (hfirst.onward.wellFormed hwf) husable.tail)
      husable).imp fun m _ hreached => ?_
    obtain ⟨whole, hsub, hwhole⟩ := hreached
    exact ⟨fun c' hclass => .derived hwhole (hsub List.mem_cons_self) hmarker hclass,
      whole, List.Subset.trans (List.subset_cons_self _ _) hsub, hwhole⟩
  case case20 =>
    intro base index branch rest hmarker c hclass ihrest ih d u d' h hwf husable
    obtain ⟨d₁, r, d₂, hderive, hvalue, hrest⟩ := polymorphicBranches_referring hmarker hclass h
    have hcalm := setBase_calm hderive
    have hfirst := Covers.after_calm hcalm ((ih d₁ r d₂ hvalue (hcalm.wellFormed hwf)
      husable.head).mono (List.Subset.refl _) branch.innerIds_subset)
    refine (covers_cons hfirst (ihrest d₂ () d' hrest (hfirst.onward.wellFormed hwf) husable.tail)
      husable).imp fun m _ hreached => ?_
    obtain ⟨whole, hsub, hwhole⟩ := hreached
    obtain ⟨info, name, hcore⟩ : ∃ info name, branch.core = .reference info name := by
      generalize branch.core = core at hclass
      cases core with
      | reference info name => exact ⟨info, name, rfl⟩
      | _ => cases hclass
    exact ⟨fun _ => .referring hwhole (hsub List.mem_cons_self) hmarker hcore,
      whole, List.Subset.trans (List.subset_cons_self _ _) hsub, hwhole⟩
  case case21 =>
    intro base index branch rest hmarker hclass ihrest ih d u d' h hwf husable
    obtain ⟨c, d₁, d₂, d₃, d₄, d₅, hnew, hderive, hrecord, hvalue, hcollect, hrest⟩ :=
      polymorphicBranches_synthesized_parts hmarker hclass h
    have hopens := hnew.opens hwf
    have hcalm := ((setBase_calm hderive).trans (recordClass_calm hrecord)).trans
      (recordValue_calm hvalue)
    have honward := hopens.toOnward.trans hcalm.toOnward
    have hlt : c < d₁.classes.size := by
      rw [hopens.classes_size, hopens.id_eq]
      exact Nat.lt_succ_self _
    have horigin : (d₄.classAt c).origin = .synthesized branch.id :=
      (hcalm.origin_eq c hlt).trans hopens.origin_new
    have hhosts : d₄.Hosts c (branch.foreignIds false) :=
      ⟨Nat.lt_of_lt_of_le hlt hcalm.classes_le, (hcalm.kind_eq c hlt).trans hopens.kind_new,
        fun node _ => by simp [horigin]⟩
    have hinner := ih c d₄ () d₅ hcollect (honward.wellFormed hwf) husable.head hhosts
      (fun h => by cases h)
    have hfirst := Covers.after_opens hopens (.after_calm hcalm hinner)
    have hlast := ihrest d₅ () d' hrest (hfirst.onward.wellFormed hwf) husable.tail
    refine (covers_cons hfirst hlast husable).imp fun m hm hreached => ?_
    obtain ⟨whole, hsub, hwhole⟩ := hreached
    obtain ⟨hclass, hkind⟩ := (hm.before (hcalm.toOnward.trans
      (hinner.onward.trans hlast.onward))).opened hopens (.inr rfl)
    have hsole : m.Reached (.sole c branch) :=
      .synthesized hwhole (hsub List.mem_cons_self) hmarker hclass
    exact ⟨⟨.of_concrete hkind (.inr ⟨branch, hsole⟩), fun _ => .sole hsole⟩,
      whole, List.Subset.trans (List.subset_cons_self _ _) hsub, hwhole⟩
  case case22 =>
    intro e c outer branch isBearer hskip d u d' h hwf husable hhosts horigin
    rw [collectFields_skip hskip] at h
    exact .of_calm (recordValue_calm h)
  case case23 =>
    intro e c outer branch isBearer hskip hfield ih d u d' h hwf husable hhosts horigin
    rw [collectFields_field hskip hfield] at h
    obtain ⟨r, d₁, hvalue, hadd⟩ := bind_eq.mp h
    obtain rfl : isBearer = false := by
      cases isBearer with
      | true => cases hfield
      | false => rfl
    exact covers_value (ih d r d₁ hvalue hwf husable) hadd hwf husable hhosts horigin
      ⟨hskip, .inl hfield⟩
  case case24 =>
    intro c outer branch isBearer info items hskip hfield ih d u d' h hwf husable hhosts horigin
    rw [Build.collectFields, if_neg hskip, if_neg hfield] at h
    have hinner := (sequence info items).innerIds_subset_foreignIds isBearer
    refine ((ih d u d' h hwf husable.children (hhosts.mono hinner)).mono
      (sequence info items).innerIds_subset hinner).imp fun m _ hreached x hx hfills => ?_
    have hinside : m.fillsFieldsOf (sequence info items) c = true :=
      GrammarModel.fillsFieldsOf_of_child hx hfills
    exact .part (hreached fun _ => hinside) ⟨hskip, hfield, fun h => h⟩ hinside hx
  case case25 =>
    intro c outer branch isBearer info body hskip hfield ih d u d' h hwf husable hhosts horigin
    rw [Build.collectFields, if_neg hskip, if_neg hfield] at h
    have hinner := (group info body).innerIds_subset_foreignIds isBearer
    rw [innerIds_group] at hinner
    exact covers_part rfl (ih d u d' h hwf (husable.ofBody rfl) (hhosts.mono hinner)
      (fun h => by cases h))
      ⟨hskip, hfield, fun h => h⟩
  case case26 =>
    intro c outer branch isBearer info body hsimple hskip hfield ih d u d' h hwf husable hhosts
      horigin
    have hunit : (Expr.optional info body).IsUnit := hsimple
    rw [collectFields_unit hskip hfield hunit] at h
    obtain ⟨r, d₁, hvalue, hadd⟩ := bind_eq.mp h
    exact covers_value (ih d r d₁ hvalue hwf husable) hadd hwf husable hhosts horigin
      ⟨hskip, .inr hunit⟩
  case case27 =>
    intro c outer branch isBearer info body hsimple hskip hfield ih d u d' h hwf husable hhosts
      horigin
    rw [Build.collectFields, if_neg hskip, if_neg hfield, if_neg hsimple] at h
    have hinner := (optional info body).innerIds_subset_foreignIds isBearer
    rw [innerIds_optional] at hinner
    exact covers_part rfl (ih d u d' h hwf (husable.ofBody rfl) (hhosts.mono hinner)
      (fun h => by cases h))
      ⟨hskip, hfield, hsimple⟩
  case case28 =>
    intro c outer branch isBearer info body kind hsimple hskip hfield ih d u d' h hwf husable hhosts
      horigin
    have hunit : (Expr.repeated info body kind).IsUnit := hsimple
    rw [collectFields_unit hskip hfield hunit] at h
    obtain ⟨r, d₁, hvalue, hadd⟩ := bind_eq.mp h
    exact covers_value (ih d r d₁ hvalue hwf husable) hadd hwf husable hhosts horigin
      ⟨hskip, .inr hunit⟩
  case case29 =>
    intro c outer branch isBearer info body kind hsimple hskip hfield ih d u d' h hwf husable hhosts
      horigin
    rw [Build.collectFields, if_neg hskip, if_neg hfield, if_neg hsimple] at h
    have hinner := (repeated info body kind).innerIds_subset_foreignIds isBearer
    rw [innerIds_repeated] at hinner
    exact covers_part rfl (ih d u d' h hwf (husable.ofBody rfl) (hhosts.mono hinner)
      (fun h => by cases h))
      ⟨hskip, hfield, hsimple⟩
  case case30 =>
    intro c outer branch isBearer e hsequence hgroup hoptional hrepeated hskip hfield ih d u d' h
      hwf husable hhosts horigin
    have hunit := isUnit_of_other hsequence hgroup hoptional hrepeated
    rw [collectFields_unit hskip hfield hunit] at h
    obtain ⟨r, d₁, hvalue, hadd⟩ := bind_eq.mp h
    exact covers_value (ih d r d₁ hvalue hwf husable) hadd hwf husable hhosts horigin
      ⟨hskip, .inr hunit⟩
  case case31 =>
    intro e ih d r d' h hwf husable
    rw [Build.ownValue] at h
    exact ih d r d' h hwf husable
  case case32 =>
    intro e isBearer hbearer ih d r d' h hwf husable
    obtain rfl : isBearer = false := Bool.not_eq_true _ ▸ hbearer
    rw [Build.ownValue] at h
    exact ih d r d' h hwf husable
  case case33 =>
    intro c outer branch d u d' h hwf husable hhosts
    rw [Build.collectItems] at h
    obtain ⟨-, rfl⟩ := pure_eq.mp h
    exact .refl _
  case case34 =>
    intro c outer branch e rest ih ihrest d u d' h hwf husable hhosts
    rw [Build.collectItems] at h
    obtain ⟨_, d₁, hfirst, hrest⟩ := bind_eq.mp h
    exact covers_contents husable hhosts hwf (ih d () d₁ hfirst) (ihrest d₁ u d' hrest)
  case case35 =>
    intro e ihbranches ihfill ihfill' d c d' h hwf husable
    exact bearerClass_covers
      (fun base info branches hcore => ihbranches _ _ rfl info branches hcore base)
      (ihfill _ _ rfl []) h hwf husable
  case case36 =>
    intro c content isBearer branches hbranches ih d u d' h hwf husable hhosts horigin
    obtain ⟨d₁, hcollect, hrelax⟩ := fillClass_several hbranches h
    obtain ⟨info, hcore⟩ := core_of_classAlternatives hbranches
    have hsub := idsAll_subset_of_core hcore
    have hinner := List.Subset.trans hsub (content.innerIds_subset_foreignIds isBearer)
    exact ((((ih d () d₁ hcollect hwf (husable.ofClassAlternatives hbranches)
      (hhosts.mono hinner)).before_calm (relaxPartial_calm hrelax)).mono
        (List.Subset.trans hsub content.innerIds_subset) hinner)).imp
      fun m _ hreached x hx _ => .several hreached hbranches hx
  case case37 =>
    intro c content isBearer hbranches ih d u d' h hwf husable hhosts horigin
    exact (ih d () d' (fillClass_single hbranches h) hwf husable hhosts horigin).imp
      fun m _ hreached _ => .single hreached hbranches
  case case38 =>
    intro c index d u d' h hwf husable hhosts
    rw [Build.collectBranches] at h
    obtain ⟨-, rfl⟩ := pure_eq.mp h
    exact .refl _
  case case39 =>
    intro c index e rest ih ihrest d u d' h hwf husable hhosts
    rw [Build.collectBranches] at h
    obtain ⟨_, d₁, hfirst, hrest⟩ := bind_eq.mp h
    exact covers_contents husable hhosts hwf (ih d () d₁ hfirst) (ihrest d₁ u d' hrest)
  case case40 =>
    intro hint info branches ih d r d' h hwf husable
    rw [Build.groupValue] at h
    simp only [bind_eq, pure_eq] at h
    obtain ⟨v, d₁, hvalue, _, d₂, hrecord, rfl, rfl⟩ := h
    have hids := (alternation info branches).innerIds_subset
    refine (hrecorded (e := .alternation info branches)
      ((ih d v d₁ hvalue hwf husable).mono hids hids) hrecord).imp fun m _ hreached hsome => ?_
    exact .shaped (hreached hsome) (husable.hasMarker_alternation .skip)
      (husable.hasMarker_alternation .classOf)
  case case41 =>
    intro hint info inner hkeeps ih d r d' h hwf husable
    rw [Build.groupValue] at h
    rw [if_pos hkeeps] at h
    exact (ih d r d' h hwf husable).mono (List.Subset.refl _) (innerIds_subset _)
  case case42 =>
    intro hint info inner hkeeps ih d r d' h hwf husable
    rw [Build.groupValue] at h
    simp only [if_neg hkeeps, bind_eq, pure_eq] at h
    obtain ⟨v, d₁, hvalue, _, d₂, hrecord, rfl, rfl⟩ := h
    have hids : inner.ids ⊆ (group info inner).ids := by
      rw [ids_eq (group info inner), innerIds_group]
      exact List.subset_cons_self _ _
    refine (hrecorded (e := .group info inner)
      ((ih d v d₁ hvalue hwf (husable.ofBody rfl)).mono hids hids) hrecord).imp
      fun m _ hreached hsome => ?_
    obtain ⟨hskip, hmarker, -⟩ := not_hasMarker_of_not_keepsGroup hkeeps
    exact .child (.shaped (hreached hsome) hskip hmarker) rfl (List.mem_singleton.mpr rfl)
  case case43 =>
    intro hint e halternation hgroup ih d r d' h hwf husable
    rw [groupValue_other halternation hgroup] at h
    exact (ih d r d' h hwf husable).mono (List.Subset.refl _) e.innerIds_subset

end Build
end AnnotatedGrammar
