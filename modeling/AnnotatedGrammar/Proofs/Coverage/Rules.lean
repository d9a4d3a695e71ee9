import AnnotatedGrammar.Proofs.Analysis.Bodies
import AnnotatedGrammar.Proofs.Coverage.Walks

/-!
# Whatever the analysis of rules makes is reached

A rule that is analyzed when its value is needed has expressions of its own, so that the walk around
it goes on as if it had made nothing. The bodies of the other rules are walked through one after the
other.
-/

namespace AnnotatedGrammar

open Build AnnotatedGrammar.Expr

namespace Draft

/-- Two drafts with the same classes, fields and errors. -/
structure Alike (d d' : Draft) : Prop where
  errors_eq : d'.errors = d.errors
  classes_eq : d'.classes = d.classes
  fields_eq : d'.fields = d.fields
  nodeFields_eq : d'.nodeFields = d.nodeFields

namespace Alike

variable {d d' : Draft} {f : FieldId} {c : ClassId} {node : NodeId}

theorem classAt_eq (h : d.Alike d') (c : ClassId) : d'.classAt c = d.classAt c := by
  rw [classAt, classAt, h.classes_eq]

theorem fieldAt_eq (h : d.Alike d') (f : FieldId) : d'.fieldAt f = d.fieldAt f := by
  rw [fieldAt, fieldAt, h.fields_eq]

theorem symm (h : d.Alike d') : d'.Alike d :=
  ⟨h.errors_eq.symm, h.classes_eq.symm, h.fields_eq.symm, h.nodeFields_eq.symm⟩

theorem fills (h : d.Alike d') (hfills : d.Fills f c node) : d'.Fills f c node :=
  ⟨h.fields_eq ▸ hfills.field_lt, h.classes_eq ▸ hfills.class_lt, h.classAt_eq c ▸ hfills.kind_eq,
    h.fieldAt_eq f ▸ hfills.owner_eq, h.fieldAt_eq f ▸ hfills.mem⟩

theorem filed (h : d.Alike d') (hfiled : d.Filed) : d'.Filed := by
  refine ⟨fun hf hf' => hfiled.sole (h.symm.fills hf) (h.symm.fills hf'), fun hf hne => ?_⟩
  rw [h.classAt_eq] at hne
  rw [h.nodeFields_eq]
  exact hfiled.last (h.symm.fills hf) hne

theorem onward (h : d.Alike d') : d.Onward d' where
  errors_eq hnone := h.errors_eq.symm.trans hnone
  wellFormed hwf := by
    refine ⟨fun f hf => ?_, fun f hf => ?_, fun c hc f hf => ?_⟩
    · rw [h.fields_eq] at hf
      rw [h.fieldAt_eq]
      exact hwf.field_id f hf
    · rw [h.fields_eq] at hf
      rw [h.fieldAt_eq, h.classes_eq]
      exact hwf.owner_lt f hf
    · rw [h.classes_eq] at hc
      rw [h.classAt_eq] at hf
      rw [h.fields_eq, h.fieldAt_eq]
      exact hwf.owner_eq c hc f hf
  unlimited hlimit hnone c := by
    rw [h.classes_eq]
    exact hlimit (h.errors_eq.symm.trans hnone) c
  classes_le := Nat.le_of_eq (by rw [h.classes_eq])
  fields_le := Nat.le_of_eq (by rw [h.fields_eq])
  kind_eq c _ := by rw [h.classAt_eq]
  origin_eq c _ := by rw [h.classAt_eq]
  owner_eq f _ := by rw [h.fieldAt_eq]
  nodes_sub f _ := by
    rw [h.fieldAt_eq]
    exact List.Subset.refl _

end Alike

end Draft

section

variable {sc : Scope} {roles : Array RuleRole} {d d₁ d₂ d' : Draft} {r : RuleId} {body : Expr}
  {v : Option Value} {rule : Rule} {u : Unit}

/-- To the rules around it, the run that finds the value of a rule touches nothing, and everything
of it is reached. -/
theorem Visits.covers {foreign : List NodeId} (h : Visits sc roles r body v d d₁ d₂ d')
    (hinner : Covers sc roles body.ids foreign
      (fun m => v ≠ none → m.Reached (.element body)) d₁ d₂)
    (hframe : Frame (sc.lazyIds roles) body.elementCells d₁ d₂) :
    Covers sc roles [] [] (fun _ => True) d d' := by
  have hstart : d.Alike d₁ := by
    rw [h.start_eq]
    exact ⟨rfl, rfl, rfl, rfl⟩
  have hend : d₂.Alike d' := by
    rw [h.end_eq]
    exact ⟨rfl, rfl, rfl, rfl⟩
  have hsame {node : NodeId} (hfree : ¬(Cell.value node).Visited (sc.lazyIds roles) d d') :
      d'.nodeFields.get? node = d.nodeFields.get? node ∧
        ∀ f c, d'.Fills f c node → d.Fills f c node := by
    have hvisited (hmem : node ∈ body.ids) :
        (Cell.value node).Visited (sc.lazyIds roles) d d' := h.visited hframe hmem
    have hinside := hinner.same node (fun hmem => hfree (hvisited hmem))
      fun hvisited => hfree (h.visited_of_inner hframe hvisited)
    refine ⟨?_, fun f c hfills => hstart.symm.fills (hinside.2 f c (hend.symm.fills hfills))⟩
    rw [hend.nodeFields_eq, hinside.1, hstart.nodeFields_eq]
  refine ⟨(hstart.onward.trans hinner.onward).trans hend.onward, fun node hreserved => ?_,
    fun node _ hfree => hsame hfree, fun node _ hfree f c hfills =>
      .inl ((hsame hfree).2 f c hfills),
    fun hidle hfiled => ?_, fun hlimit m hm _ => ?_⟩
  · exact h.start_reserved (hinner.reserved node ((h.end_reserved hframe).mp hreserved))
  · refine hend.filed (hinner.filed ⟨fun node hnode => h.start_free hnode,
      fun node hnode f c hfills => ?_, fun node hreserved f c hfills => ?_⟩ (hstart.filed hfiled))
    · exact hidle.waiting node (h.body_reserved hnode) f c (hstart.symm.fills hfills)
    · exact hidle.waiting node (h.start_reserved hreserved) f c (hstart.symm.fills hfills)
  · obtain ⟨hclass, rule, hrule, rfl⟩ := Scope.lazyBody?_eq_some.mp h.body_eq
    have hbody : m.Reached (.element rule.body) := by
      have hreached := hm.rules hrule
      generalize roles.getD r .passthrough = role at hclass hreached
      cases role with
      | passthrough => exact hreached
      | _ => cases hclass
    have hall := hinner.reaches (hstart.onward.unlimited hlimit) m (hm.before hend.onward)
      fun _ => hbody
    refine ⟨fun c hge hlt => hall.classes c ?_ ?_, fun f c node hfills hnew =>
      hall.fills f c node (hend.symm.fills hfills) fun hbefore => hnew (hstart.symm.fills hbefore)⟩
    · rw [hstart.classes_eq]
      exact hge
    · rw [hend.classes_eq] at hlt
      exact hlt

/-- Of finding the value of a rule everything is reached. -/
theorem Build.ruleValue_covers (hseparate : sc.Separate)
    (husable : ∀ (r : RuleId) rule, sc.rules[r]? = some rule → rule.body.Usable) (depth : Nat) :
    ∀ r d v d', ruleValue sc roles depth r d = (v, d') → d.WellFormed →
      Covers sc roles [] [] (fun _ => True) d d' := by
  induction depth with
  | zero =>
    intro r d v d' h _
    rw [ruleValue] at h
    obtain ⟨-, rfl⟩ := pure_eq.mp h
    exact .refl _
  | succ depth ih =>
    intro r d v d' h hwf
    rcases ruleValue_cases hseparate h with ⟨c, -, -, rfl⟩ | ⟨-, -, rfl⟩ | ⟨-, -, rfl⟩ |
      ⟨-, -, rfl⟩ | ⟨-, hmarked, rule, -, -, rfl⟩ | ⟨rule, d₁, d₂, hvisits, hvalue⟩
    · exact .refl _
    · exact .refl _
    · exact .refl _
    · exact .refl _
    · -- the rule needs its own value, which is an error
      have hframe : Frame (sc.lazyIds roles) (fun _ => False) d (d.reported r rule) :=
        Draft.reported_frame hmarked
      have hfills {f : FieldId} {c : ClassId} {node : NodeId}
          (hfills : (d.reported r rule).Fills f c node) : d.Fills f c node :=
        ⟨hfills.field_lt, hfills.class_lt, hfills.kind_eq, hfills.owner_eq, hfills.mem⟩
      refine ⟨⟨hframe.errors_eq, hframe.wellFormed, fun _ hnone => absurd hnone (size_push_ne _ _),
        hframe.classes_le, hframe.fields_le, hframe.kind_eq, hframe.origin_eq, hframe.owner_eq,
        fun _ _ => List.Subset.refl _⟩, fun node => hframe.reserved,
        fun node _ _ => ⟨rfl, fun _ _ => hfills⟩, fun node _ _ f c h => .inl (hfills h),
        fun _ hfiled => ⟨fun h h' => hfiled.sole (hfills h) (hfills h'),
          fun h hne => hfiled.last (hfills h) hne⟩,
        fun _ m hm _ => absurd hm.errors_eq (size_push_ne _ _)⟩
    · have hwf₁ : d₁.WellFormed := by
        rw [hvisits.start_eq]
        exact ⟨hwf.field_id, hwf.owner_lt, hwf.owner_eq⟩
      have hframes : WalkFrames (sc.lazyIds roles) (ruleValue sc roles depth)
          (scopeOf sc roles rule) := walkFrames (ruleValue_frame hseparate depth)
      have hcovers : WalkCovers (ruleValue sc roles depth) (scopeOf sc roles rule) := walkCovers ih
      obtain ⟨-, rule', hrule, hbody⟩ := Scope.lazyBody?_eq_some.mp hvisits.body_eq
      exact hvisits.covers (hcovers.elementValue rule.body false d₁ v d₂ hvalue hwf₁
        (hbody ▸ husable r rule' hrule)) (hframes.elementValue rule.body false d₁ v d₂ hvalue hwf₁)

/-! ## Bodies of rules -/

/-- The classes of rules are there, and were made for rules. -/
structure RolesHost (sc : Scope) (roles : Array RuleRole) (d : Draft) : Prop
    extends RolesFit sc roles d where
  origin_eq : ∀ r c, (roles.getD r .passthrough).class? = some c →
    ∃ r', (d.classAt c).origin = .rule r'

theorem RolesHost.after {bodies : RuleId → List NodeId} {S : Cell → Prop}
    (h : RolesHost sc roles d) (hframe : Frame bodies S d d') : RolesHost sc roles d' where
  toRolesFit := h.toRolesFit.after hframe
  origin_eq r c hclass := by
    rw [hframe.origin_eq c (h.class_lt r c hclass).2]
    exact h.origin_eq r c hclass

/-- The expressions of a rule that has a class. -/
def Rule.classIds (roles : Array RuleRole) (r : RuleId) (rule : Rule) : List NodeId :=
  if (roles.getD r .passthrough).class?.isSome then rule.body.ids else []

/-- The expressions of those among rules that have classes. -/
def Rule.classIdsFrom (roles : Array RuleRole) (r : RuleId) : List Rule → List NodeId
  | [] => []
  | rule :: rest => rule.classIds roles r ++ classIdsFrom roles (r + 1) rest

theorem Rule.mem_classIdsFrom {rules : List Rule} {node : NodeId}
    (h : node ∈ classIdsFrom roles r rules) : ∃ i rule, rules[i]? = some rule ∧
      (roles.getD (r + i) .passthrough).class?.isSome = true ∧ node ∈ rule.body.ids := by
  induction rules generalizing r with
  | nil => cases h
  | cons rule rest ih =>
    rcases List.mem_append.mp h with h | h
    · unfold classIds at h
      split at h
      · exact ⟨0, rule, rfl, ‹_›, h⟩
      · cases h
    · obtain ⟨i, rule', hrule, hclass, hmem⟩ := ih h
      rw [Nat.add_right_comm] at hclass
      exact ⟨i + 1, rule', hrule, hclass, hmem⟩

/-- Of the analysis of a rule everything is reached. -/
theorem Build.analyzeRule_covers (hseparate : sc.Separate)
    (husable : ∀ (r : RuleId) rule, sc.rules[r]? = some rule → rule.body.Usable)
    (hhost : RolesHost sc roles d) (hrule : sc.rules[r]? = some rule)
    (h : analyzeRule sc roles r rule d = (u, d')) (hwf : d.WellFormed) :
    Covers sc roles (rule.classIds roles r) (rule.classIds roles r) (fun _ => True) d d' := by
  have hcovers : WalkCovers (ruleValue sc roles sc.rules.size) (scopeOf sc roles rule) :=
    walkCovers (ruleValue_covers hseparate husable sc.rules.size)
  have hbody := husable r rule hrule
  have hreached {m : GrammarModel} (hm : Lasts sc roles m d') :
      m.RuleReached (roles.getD r .passthrough) rule.body := hm.rules hrule
  unfold Rule.classIds
  cases hrole : roles.getD r .passthrough with
  | builds c =>
    have hclass : (roles.getD r .passthrough).class? = some c := by
      rw [hrole]
      rfl
    have hkind := hhost.kind_eq r c hclass
    obtain ⟨r', horigin⟩ := hhost.origin_eq r c hclass
    rw [hrole] at hkind
    unfold analyzeRule at h
    simp only [hrole] at h
    have hhosts : d.Hosts c (rule.body.foreignIds false) :=
      ⟨(hhost.class_lt r c hclass).2, (Option.some.inj hkind).symm, fun node _ => by simp [horigin]⟩
    refine (hcovers.fillClass c rule.body false d u d' h hwf hbody hhosts
      nofun).imp fun m hm _ => ?_
    have hbuilt := hreached hm
    rw [hrole] at hbuilt
    exact hbuilt
  | polymorphic c =>
    obtain ⟨info, branches, hcore⟩ := hhost.alternatives r c rule hrule (.inl hrole)
    obtain ⟨d₁, hrecord, hbranches⟩ := analyzeRule_polymorphic hrole hcore h
    have hcalm := recordClass_calm hrecord
    have husable' := hbody.core
    rw [hcore] at husable'
    have hsub := (ids_of_core hcore).2
    refine (Covers.after_calm hcalm ((hcovers.polymorphicBranches c 0 branches d₁ () d' hbranches
      (hcalm.wellFormed hwf) husable'.children).mono hsub hsub)).imp fun m hm _ => ?_
    have halternatives := hreached hm
    rw [hrole] at halternatives
    exact ⟨branches, List.Subset.refl _, halternatives info branches hcore⟩
  | tagged c =>
    have hclass : (roles.getD r .passthrough).class? = some c := by
      rw [hrole]
      rfl
    have hkind := hhost.kind_eq r c hclass
    rw [hrole] at hkind
    have hlt := (hhost.class_lt r c hclass).2
    obtain ⟨info, branches, hcore⟩ := hhost.alternatives r c rule hrule (.inr hrole)
    obtain ⟨d₁, values, d₂, hrecord, hvalues, hvariants⟩ := analyzeRule_tagged hrole hcore h
    have hcalm := recordClass_calm hrecord
    have husable' := hbody.core
    rw [hcore] at husable'
    have hsub := (ids_of_core hcore).2
    have hinner := hcovers.elementValues branches d₁ values d₂ hvalues (hcalm.wellFormed hwf)
      husable'.children
    have honward := hcalm.toOnward.trans hinner.onward
    have hadded := addVariants_calm hvariants (Nat.lt_of_lt_of_le hlt honward.classes_le)
      ((honward.kind_eq c hlt).trans (Option.some.inj hkind).symm)
    refine ((Covers.after_calm hcalm (hinner.mono hsub hsub)).before_calm hadded).imp
      fun m hm _ entry hentry _ => ?_
    have halternatives := hreached hm
    rw [hrole] at halternatives
    exact .branch (halternatives info branches hcore) (List.of_mem_zip hentry).1
  | passthrough =>
    obtain ⟨v, hvalue⟩ := analyzeRule_passthrough hrole h
    exact ruleValue_covers hseparate husable (sc.rules.size + 1) r d v d' hvalue hwf

/-- Of the analysis of all rules everything is reached. -/
theorem Build.analyzeRules_covers {rules : List Rule} (hseparate : sc.Separate)
    (husable : ∀ (r : RuleId) rule, sc.rules[r]? = some rule → rule.body.Usable)
    (hhost : RolesHost sc roles d) (hrules : sc.RulesFrom r rules)
    (h : analyzeRules sc roles r rules d = (u, d')) (hwf : d.WellFormed) :
    Covers sc roles (Rule.classIdsFrom roles r rules) (Rule.classIdsFrom roles r rules)
      (fun _ => True) d d' := by
  induction rules generalizing r d with
  | nil =>
    rw [analyzeRules] at h
    obtain ⟨-, rfl⟩ := pure_eq.mp h
    exact .refl _
  | cons rule rest ih =>
    rw [analyzeRules] at h
    obtain ⟨_, d₁, hfirst, hrest⟩ := bind_eq.mp h
    have hframe := analyzeRule_frame hseparate hhost.toRolesFit hrules.head hfirst hwf
    have hcovers := analyzeRule_covers hseparate husable hhost hrules.head hfirst hwf
    have hothers := ih (hhost.after hframe) hrules.tail hrest (hframe.wellFormed hwf)
    have hleft := List.subset_append_left (rule.classIds roles r)
      (Rule.classIdsFrom roles (r + 1) rest)
    have hright := List.subset_append_right (rule.classIds roles r)
      (Rule.classIdsFrom roles (r + 1) rest)
    refine (hcovers.seq hothers hleft hright hleft hright fun node hnode hlater => ?_).imp
      fun _ _ _ => ⟨trivial, trivial⟩
    obtain ⟨i, rule', hrule', -, hmem'⟩ := Rule.mem_classIdsFrom hlater
    have hmem : node ∈ rule.body.ids := by
      unfold Rule.classIds at hnode
      split at hnode
      · exact hnode
      · cases hnode
    have hlt : r < r + 1 + i := Nat.lt_of_lt_of_le (Nat.lt_succ_self r) (Nat.le_add_right _ _)
    exact hseparate.disjoint r (r + 1 + i) rule rule' hrules.head (hrules.tail i rule' hrule')
      (Nat.ne_of_lt hlt) node hmem hmem'

end

end AnnotatedGrammar
