import AnnotatedGrammar.Proofs.Analysis.Tracking
import AnnotatedGrammar.Proofs.Coverage.Reached

/-!
# Runs of which everything is reached

What is made in a run is made at sites that are reached, provided that the sites are at which the
run begins. On the way every expression fills at most one field of a class, and the table of fields
has the field of the class around an expression rather than that of its own class.
-/

namespace AnnotatedGrammar

open Build AnnotatedGrammar.Expr

namespace Draft

/-- No expression among some, nor one of a rule that is yet to be analyzed, fills a field; and those
expressions belong to no such rule. -/
structure Idle (bodies : RuleId → List NodeId) (ids : List NodeId) (d : Draft) : Prop where
  free : ∀ node ∈ ids, ¬d.Reserved bodies node
  idle : ∀ node ∈ ids, ∀ f c, ¬d.Fills f c node
  waiting : ∀ node, d.Reserved bodies node → ∀ f c, ¬d.Fills f c node

theorem Idle.mono {bodies : RuleId → List NodeId} {ids ids' : List NodeId} {d : Draft}
    (h : d.Idle bodies ids) (hids : ids' ⊆ ids) : d.Idle bodies ids' :=
  ⟨fun node hnode => h.free node (hids hnode),
    fun node hnode => h.idle node (hids hnode), h.waiting⟩

/-- An expression fills at most one field of a class, and the table of fields has it unless the
class is that of the expression itself. -/
structure Filed (d : Draft) : Prop where
  sole : ∀ {f f' c node}, d.Fills f c node → d.Fills f' c node → f = f'
  last : ∀ {f c node}, d.Fills f c node → (d.classAt c).origin ≠ .node node →
    d.nodeFields.get? node = some f

/-- A class with instances that is not the class of any expression among some. -/
structure Hosts (c : ClassId) (ids : List NodeId) (d : Draft) : Prop where
  lt : c < d.classes.size
  kind_eq : (d.classAt c).kind = .concrete
  origin_ne : ∀ node ∈ ids, (d.classAt c).origin ≠ .node node

variable {c : ClassId} {ids ids' : List NodeId} {d d' : Draft}

theorem Hosts.mono (h : d.Hosts c ids) (hids : ids' ⊆ ids) : d.Hosts c ids' :=
  ⟨h.lt, h.kind_eq, fun node hnode => h.origin_ne node (hids hnode)⟩

theorem Hosts.after (h : d.Hosts c ids) (honward : d.Onward d') : d'.Hosts c ids where
  lt := Nat.lt_of_lt_of_le h.lt honward.classes_le
  kind_eq := (honward.kind_eq c h.lt).trans h.kind_eq
  origin_ne node hnode := by
    rw [honward.origin_eq c h.lt]
    exact h.origin_ne node hnode

end Draft

/-- What the model keeps of a draft without errors, and what is true of the model: expressions build
the classes made for them and fill fields as the table says, and the bodies of rules are reached. -/
structure Lasts (sc : Scope) (roles : Array RuleRole) (m : GrammarModel) (d : Draft) : Prop where
  errors_eq : d.errors = #[]
  class_kept : ∀ c < d.classes.size, ∃ cls, m.class? c = some cls ∧
    cls.kind = (d.classAt c).kind ∧ cls.origin = (d.classAt c).origin
  field_kept : ∀ f < d.fields.size, ∃ field, m.field? f = some field ∧
    field.owner = (d.fieldAt f).owner ∧ (d.fieldAt f).nodes ⊆ field.nodes
  placed : ∀ {c cls b}, m.class? c = some cls →
    (cls.origin = .node b ∨ cls.origin = .synthesized b) → m.nodeClasses.get? b = some c
  last : ∀ {f c cls node}, m.Fills f c node → m.class? c = some cls → cls.origin ≠ .node node →
    m.nodeFields.get? node = some f
  rules : ∀ {r : RuleId} {rule}, sc.rules[r]? = some rule →
    m.RuleReached (roles.getD r .passthrough) rule.body

namespace Lasts

variable {sc : Scope} {roles : Array RuleRole} {m : GrammarModel} {d d' : Draft} {f : FieldId}
  {c : ClassId} {node : NodeId} {e : Expr}

theorem before (h : Lasts sc roles m d') (honward : d.Onward d') : Lasts sc roles m d where
  errors_eq := honward.errors_eq h.errors_eq
  class_kept c hc := by
    obtain ⟨cls, hcls, hkind, horigin⟩ := h.class_kept c (Nat.lt_of_lt_of_le hc honward.classes_le)
    exact ⟨cls, hcls, hkind.trans (honward.kind_eq c hc), horigin.trans (honward.origin_eq c hc)⟩
  field_kept f hf := by
    obtain ⟨field, hfield, howner, hnodes⟩ :=
      h.field_kept f (Nat.lt_of_lt_of_le hf honward.fields_le)
    exact ⟨field, hfield, howner.trans (honward.owner_eq f hf),
      List.Subset.trans (honward.nodes_sub f hf) hnodes⟩
  placed := h.placed
  last := h.last
  rules := h.rules

theorem hasKind (h : Lasts sc roles m d) (hc : c < d.classes.size) :
    Settled.HasKind m c (d.classAt c).kind := by
  obtain ⟨cls, hcls, hkind, -⟩ := h.class_kept c hc
  exact ⟨cls, hcls, hkind⟩

theorem fills (h : Lasts sc roles m d) (hfills : d.Fills f c node) : m.Fills f c node := by
  obtain ⟨field, hfield, howner, hnodes⟩ := h.field_kept f hfills.field_lt
  exact ⟨hfills.kind_eq ▸ h.hasKind hfills.class_lt, field, hfield, howner.trans hfills.owner_eq,
    hnodes hfills.mem⟩

/-- An expression that fills a field of the class around it makes itself known. -/
theorem fillsFieldsOf (h : Lasts sc roles m d) (hhosts : d.Hosts c e.ids)
    (hfills : m.Fills f c e.id) : m.fillsFieldsOf e c = true := by
  obtain ⟨cls, hcls, -, horigin⟩ := h.class_kept c hhosts.lt
  have htable : m.nodeFields.get? e.id = some f :=
    h.last hfills hcls (horigin ▸ hhosts.origin_ne e.id e.id_mem_ids)
  obtain ⟨-, field, hfield, howner, -⟩ := hfills
  unfold GrammarModel.fillsFieldsOf
  refine List.any_eq_true.mpr ⟨e, e.self_mem_preorder, ?_⟩
  rw [htable, Option.bind_some, hfield]
  exact beq_iff_eq.mpr howner

/-- The class that was made for an expression is the one that it builds. -/
theorem opened (h : Lasts sc roles m d') {kind : ClassKind} {origin : ClassOrigin}
    (hopens : d.Opens kind origin c d')
    (horigin : origin = .node node ∨ origin = .synthesized node) :
    m.nodeClasses.get? node = some c ∧ Settled.HasKind m c kind := by
  have hc : c < d'.classes.size := by
    rw [hopens.classes_size, hopens.id_eq]
    exact Nat.lt_succ_self _
  obtain ⟨cls, hcls, hkind, hmade⟩ := h.class_kept c hc
  rw [hopens.origin_new] at hmade
  exact ⟨h.placed hcls (hmade ▸ horigin), cls, hcls, hkind.trans hopens.kind_new⟩

end Lasts

/-- A run of which everything is reached if `Q` holds of the model. Only expressions among `all`
come to fill fields, and only those among `foreign` come to fill fields of classes that are not
their own. -/
structure Covers (sc : Scope) (roles : Array RuleRole) (all foreign : List NodeId)
    (Q : GrammarModel → Prop) (d d' : Draft) : Prop where
  onward : d.Onward d'
  reserved : ∀ node, d'.Reserved (sc.lazyIds roles) node → d.Reserved (sc.lazyIds roles) node
  same : ∀ node, node ∉ all → ¬(Cell.value node).Visited (sc.lazyIds roles) d d' →
    d'.nodeFields.get? node = d.nodeFields.get? node ∧ ∀ f c, d'.Fills f c node → d.Fills f c node
  own : ∀ node, node ∉ foreign → ¬(Cell.value node).Visited (sc.lazyIds roles) d d' →
    ∀ f c, d'.Fills f c node → d.Fills f c node ∨ (d'.classAt c).origin = .node node
  filed : d.Idle (sc.lazyIds roles) all → d.Filed → d'.Filed
  reaches : d.Unlimited → ∀ m, Lasts sc roles m d' → Q m → m.AllReached d d'

namespace Covers

variable {sc : Scope} {roles : Array RuleRole}
  {all all₁ all₂ foreign foreign₁ foreign₂ : List NodeId}
  {Q Q₁ Q₂ : GrammarModel → Prop} {d d₁ d' : Draft}

theorem imp (h : Covers sc roles all foreign Q₁ d d')
    (himp : ∀ m, Lasts sc roles m d' → Q₂ m → Q₁ m) : Covers sc roles all foreign Q₂ d d' :=
  ⟨h.onward, h.reserved, h.same, h.own, h.filed,
    fun hlimit m hm hQ => h.reaches hlimit m hm (himp m hm hQ)⟩

theorem mono (h : Covers sc roles all₁ foreign₁ Q d d') (hall : all₁ ⊆ all)
    (hforeign : foreign₁ ⊆ foreign) : Covers sc roles all foreign Q d d' :=
  ⟨h.onward, h.reserved, fun node hnode => h.same node fun hmem => hnode (hall hmem),
    fun node hnode => h.own node fun hmem => hnode (hforeign hmem),
    fun hidle => h.filed (hidle.mono hall), h.reaches⟩

/-- Expressions that a run does not touch are as idle after it as before. -/
theorem idle (h : Covers sc roles all₁ foreign₁ Q d d') (hall : all₁ ⊆ all)
    (hidle : d.Idle (sc.lazyIds roles) all) (hids : all₂ ⊆ all)
    (hdisjoint : ∀ node ∈ all₁, node ∉ all₂) : d'.Idle (sc.lazyIds roles) all₂ where
  free node hnode hreserved := hidle.free node (hids hnode) (h.reserved node hreserved)
  idle node hnode f c hfills := by
    have hsame := h.same node (fun hmem => hdisjoint node hmem hnode)
      fun hvisited => hidle.free node (hids hnode) hvisited.1
    exact hidle.idle node (hids hnode) f c (hsame.2 f c hfills)
  waiting node hreserved f c hfills := by
    have hbefore := h.reserved node hreserved
    have hsame := h.same node (fun hmem => hidle.free node (hall hmem) hbefore)
      fun hvisited => hvisited.2 hreserved
    exact hidle.waiting node hbefore f c (hsame.2 f c hfills)

/-- Two runs one after the other. -/
theorem seq (h₁ : Covers sc roles all₁ foreign₁ Q₁ d d₁)
    (h₂ : Covers sc roles all₂ foreign₂ Q₂ d₁ d')
    (hall₁ : all₁ ⊆ all) (hall₂ : all₂ ⊆ all) (hforeign₁ : foreign₁ ⊆ foreign)
    (hforeign₂ : foreign₂ ⊆ foreign) (hdisjoint : ∀ node ∈ all₁, node ∉ all₂) :
    Covers sc roles all foreign (fun m => Q₁ m ∧ Q₂ m) d d' where
  onward := h₁.onward.trans h₂.onward
  reserved node hnode := h₁.reserved node (h₂.reserved node hnode)
  same node hnode hvisited := by
    have hsame₁ := h₁.same node (fun hmem => hnode (hall₁ hmem)) fun hvisited₁ =>
      hvisited ⟨hvisited₁.1, fun hreserved => hvisited₁.2 (h₂.reserved node hreserved)⟩
    have hsame₂ := h₂.same node (fun hmem => hnode (hall₂ hmem)) fun hvisited₂ =>
      hvisited ⟨h₁.reserved node hvisited₂.1, hvisited₂.2⟩
    exact ⟨hsame₂.1.trans hsame₁.1, fun f c hfills => hsame₁.2 f c (hsame₂.2 f c hfills)⟩
  own node hnode hvisited f c hfills := by
    have hown₂ := h₂.own node (fun hmem => hnode (hforeign₂ hmem)) (fun hvisited₂ =>
      hvisited ⟨h₁.reserved node hvisited₂.1, hvisited₂.2⟩) f c hfills
    rcases hown₂ with hbetween | horigin
    · have hown₁ := h₁.own node (fun hmem => hnode (hforeign₁ hmem)) (fun hvisited₁ =>
        hvisited ⟨hvisited₁.1, fun hreserved => hvisited₁.2 (h₂.reserved node hreserved)⟩)
          f c hbetween
      rw [h₂.onward.origin_eq c hbetween.class_lt]
      exact hown₁
    · exact .inr horigin
  filed hidle hfiled :=
    h₂.filed (h₁.idle hall₁ hidle hall₂ hdisjoint) (h₁.filed (hidle.mono hall₁) hfiled)
  reaches hlimit m hm hQ :=
    (h₁.reaches hlimit m (hm.before h₂.onward) hQ.1).trans
      (h₂.reaches (h₁.onward.unlimited hlimit) m hm hQ.2)

/-- A run in which no expression comes to fill a field. -/
theorem of_unfilled (honward : d.Onward d') (hprogress : d'.progress = d.progress)
    (hnodeFields : d'.nodeFields = d.nodeFields)
    (hfills : ∀ {f c node}, d'.Fills f c node → d.Fills f c node)
    (hreaches : ∀ m, Q m → m.AllReached d d') : Covers sc roles all foreign Q d d' where
  onward := honward
  reserved node := by
    rintro ⟨r, hr, hmem⟩
    exact ⟨r, hprogress ▸ hr, hmem⟩
  same node _ _ := ⟨by rw [hnodeFields], fun _ _ => hfills⟩
  own node _ _ f c h := .inl (hfills h)
  filed _ hfiled := by
    refine ⟨fun h h' => hfiled.sole (hfills h) (hfills h'), fun {f c node} h horigin => ?_⟩
    have hbefore := hfills h
    rw [honward.origin_eq c hbefore.class_lt] at horigin
    rw [hnodeFields]
    exact hfiled.last hbefore horigin
  reaches _ m _ hQ := hreaches m hQ

theorem of_calm (h : d.Calm d') : Covers sc roles all foreign Q d d' :=
  .of_unfilled h.toOnward h.progress_eq h.nodeFields_eq h.fills_of fun _ _ => .of_calm h

theorem refl (d : Draft) : Covers sc roles all foreign Q d d := .of_calm (.refl d)

/-- A class is made. -/
theorem of_opens {kind : ClassKind} {origin : ClassOrigin} {c : ClassId}
    (h : d.Opens kind origin c d') :
    Covers sc roles all foreign (fun m => m.ClassReached c) d d' := by
  refine .of_unfilled h.toOnward h.progress_eq h.nodeFields_eq h.fills_of fun m hm => ?_
  refine ⟨fun c' hge hlt => ?_, fun f c' node hfills hnew => absurd (h.fills_of hfills) hnew⟩
  rw [h.classes_size] at hlt
  obtain rfl : c' = c := (Nat.le_antisymm (Nat.le_of_lt_succ hlt) hge).trans h.id_eq.symm
  exact hm

/-- Something calm happens in front. -/
theorem after_calm (h : d.Calm d₁) (h' : Covers sc roles all foreign Q d₁ d') :
    Covers sc roles all foreign Q d d' := by
  have hcalm : Covers sc roles [] [] (fun _ => True) d d₁ := .of_calm h
  exact (hcalm.seq h' (List.nil_subset _) (List.Subset.refl _) (List.nil_subset _)
    (List.Subset.refl _) (by simp)).imp fun _ _ hQ => ⟨trivial, hQ⟩

/-- A class is made in front. -/
theorem after_opens {kind : ClassKind} {origin : ClassOrigin} {c : ClassId}
    (h : d.Opens kind origin c d₁) (h' : Covers sc roles all foreign Q d₁ d') :
    Covers sc roles all foreign (fun m => m.ClassReached c ∧ Q m) d d' := by
  have hopens : Covers sc roles [] [] (fun m => m.ClassReached c) d d₁ := .of_opens h
  exact hopens.seq h' (List.nil_subset _) (List.Subset.refl _) (List.nil_subset _)
    (List.Subset.refl _) (by simp)

/-- Something calm happens afterwards. -/
theorem before_calm (h : Covers sc roles all foreign Q d d₁) (h' : d₁.Calm d') :
    Covers sc roles all foreign Q d d' := by
  have hcalm : Covers sc roles [] [] (fun _ => True) d₁ d' := .of_calm h'
  exact (h.seq hcalm (List.Subset.refl _) (List.nil_subset _) (List.Subset.refl _)
    (List.nil_subset _) (by simp)).imp fun _ _ hQ => ⟨hQ, trivial⟩

/-- After the walk through an expression, its value is put into a field of a class. -/
theorem place {c : ClassId} {e : Expr} {value : Option Value}
    (h : Covers sc roles all foreign₁ Q d d₁) (hplaced : Placed c e d₁ d' value)
    (hall : all ⊆ e.ids) (hforeign : foreign₁ ⊆ foreign) (hnot : e.id ∉ foreign₁)
    (hown : (d.classAt c).origin = .node e.id ∧ e.id ∉ all ∨
      (d.classAt c).origin ≠ .node e.id ∧ e.id ∈ foreign) (hhosts : d.Hosts c [])
    (husable : ∀ raw, e.markerValue? .field = some raw → (Naming.fieldName raw).isSome = true) :
    Covers sc roles e.ids foreign (fun m => (value = none → Q m) ∧
      ∀ f, m.Fills f c e.id → Q m ∧ m.ValueReached c e.id) d d' := by
  have hself := e.id_mem_ids
  cases hplaced with
  | nothing heq =>
    subst heq
    exact (h.mono hall hforeign).imp fun _ _ hQ => hQ.1 rfl
  | refused hcalm herrors =>
    have hwhole := (h.mono hall hforeign).before_calm hcalm
    refine ⟨hwhole.onward, hwhole.reserved, hwhole.same, hwhole.own, hwhole.filed,
      fun hlimit m hm _ => absurd hm.errors_eq ?_⟩
    exact herrors (h.onward.unlimited hlimit) husable
  | filled f hadds =>
    have hlt₁ := Nat.lt_of_lt_of_le hhosts.lt h.onward.classes_le
    have horigin : (d'.classAt c).origin = (d.classAt c).origin :=
      (hadds.origin_eq c hlt₁).trans (h.onward.origin_eq c hhosts.lt)
    have hnew : d'.Fills f c e.id :=
      ⟨hadds.field_lt, Nat.lt_of_lt_of_le hlt₁ hadds.classes_le,
        (hadds.kind_eq c hlt₁).trans ((h.onward.kind_eq c hhosts.lt).trans hhosts.kind_eq),
        hadds.owner_new, hadds.mem_new⟩
    have hreserved (node : NodeId) (hreserved : d'.Reserved (sc.lazyIds roles) node) :
        d₁.Reserved (sc.lazyIds roles) node := by
      obtain ⟨r, hr, hmem⟩ := hreserved
      exact ⟨r, hadds.progress_eq ▸ hr, hmem⟩
    have hvisited {node : NodeId} (hvisited : ¬(Cell.value node).Visited (sc.lazyIds roles) d d') :
        ¬(Cell.value node).Visited (sc.lazyIds roles) d d₁ := fun hvisited₁ =>
      hvisited ⟨hvisited₁.1, fun hreserved' => hvisited₁.2 (hreserved node hreserved')⟩
    refine ⟨h.onward.trans hadds.toOnward, fun node hnode => h.reserved node (hreserved node hnode),
      fun node hnode hfree => ?_, fun node hnode hfree g c' hfills => ?_, fun hidle hfiled => ?_,
      fun hlimit m hm hQ => ?_⟩
    · have hne : e.id ≠ node := fun heq => hnode (heq ▸ hself)
      have hsame := h.same node (fun hmem => hnode (hall hmem)) (hvisited hfree)
      refine ⟨?_, fun g c' hfills => ?_⟩
      · rw [hadds.nodeFields_eq, NodeTable.get?_insert, if_neg hne]
        exact hsame.1
      · rcases hadds.fills_of hfills with hbefore | ⟨-, -, heq⟩
        · exact hsame.2 g c' hbefore
        · exact absurd heq.symm hne
    · rcases hadds.fills_of hfills with hbefore | ⟨-, rfl, rfl⟩
      · rw [hadds.origin_eq c' hbefore.class_lt]
        exact h.own node (fun hmem => hnode (hforeign hmem)) (hvisited hfree) g c' hbefore
      · rcases hown with ⟨hcarried, -⟩ | ⟨-, hmem⟩
        · exact .inr (horigin.trans hcarried)
        · exact absurd hmem hnode
    · -- only the class of the expression itself, if any, had its field filled by it
      have hfree : ¬(Cell.value e.id).Visited (sc.lazyIds roles) d d₁ :=
        fun hvisited => hidle.free _ hself hvisited.1
      have hfiled₁ := h.filed (hidle.mono hall) hfiled
      have hbefore {g : FieldId} {c' : ClassId} (hfills : d₁.Fills g c' e.id) :
          (d₁.classAt c').origin = .node e.id ∧ (d.classAt c).origin ≠ .node e.id := by
        refine ⟨(h.own _ hnot hfree g c' hfills).resolve_left (hidle.idle _ hself g c'), ?_⟩
        rcases hown with ⟨-, houtside⟩ | ⟨hne, -⟩
        · exact absurd ((h.same _ houtside hfree).2 g c' hfills) (hidle.idle _ hself g c')
        · exact hne
      have hother {g : FieldId} (hfills : d₁.Fills g c e.id) : False := by
        obtain ⟨hcarried, hne⟩ := hbefore hfills
        exact hne ((h.onward.origin_eq c hhosts.lt).symm.trans hcarried)
      refine ⟨fun {g g' c' node} hg hg' => ?_, fun {g c' node} hg hne => ?_⟩
      · rcases hadds.fills_of hg with hg | ⟨rfl, rfl, rfl⟩ <;>
          rcases hadds.fills_of hg' with hg' | ⟨rfl, hc, hnode⟩
        · exact hfiled₁.sole hg hg'
        · subst hc hnode
          exact (hother hg).elim
        · exact (hother hg').elim
        · rfl
      · rw [hadds.nodeFields_eq, NodeTable.get?_insert]
        rcases hadds.fills_of hg with hg | ⟨rfl, rfl, rfl⟩
        · rw [hadds.origin_eq c' hg.class_lt] at hne
          by_cases heq : e.id = node
          · subst heq
            exact absurd (hbefore hg).1 hne
          · rw [if_neg heq]
            exact hfiled₁.last hg hne
        · rw [if_pos rfl]
    · obtain ⟨hinner, hvalue⟩ := hQ.2 f (hm.fills hnew)
      refine (h.reaches hlimit m (hm.before hadds.toOnward) hinner).trans
        ⟨fun c' hge hlt => ?_, fun g c' node hfills hbefore => ?_⟩
      · exact absurd (hadds.classes_size ▸ hlt) (Nat.not_lt.mpr hge)
      · obtain ⟨-, rfl, rfl⟩ := (hadds.fills_of hfills).resolve_left hbefore
        exact hvalue

end Covers
end AnnotatedGrammar
