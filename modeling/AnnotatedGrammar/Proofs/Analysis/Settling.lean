import AnnotatedGrammar.Proofs.Analysis.Tracking

/-!
# What the walks settle

From a sound draft, on whose cells of its footprint nothing happened yet, a walk that finds no error
settles what its expression is: an element with a value, the content of a class, the carrier of a
class, or the alternatives of a base.
-/

namespace AnnotatedGrammar

open Build AnnotatedGrammar.Expr

section

variable {strict : Prop} {m : GrammarModel} {sc : Scope} {roles : Array RuleRole} {bound : Nat}
  {bodies : RuleId → List NodeId} {S S₁ S₂ : Cell → Prop} {d d₁ d' : Draft} {P P₁ P₂ : Prop}
  {e : Expr} {kind : ClassKind} {c : ClassId} {node : NodeId}

/-! ## Steps and claims -/

theorem Build.Finished.claimed {value : Option Value} (h : Finished e value d d')
    (hclaimed : d.Claimed) (hfresh : (Cell.value e.id).Fresh d) : d'.Claimed := by
  obtain ⟨errors, claims, rfl, -, hclaims⟩ := h
  intro claim hclaim
  rw [NodeTable.get?_insert]
  rcases hclaims claim hclaim with hbefore | ⟨hnode, hvalue⟩
  · rw [if_neg fun heq => hfresh claim hbefore heq.symm]
    exact hclaimed claim hbefore
  · rw [if_pos hnode.symm, hvalue]

theorem Build.Finished.classes_eq {value : Option Value} (h : Finished e value d d') :
    d'.classes = d.classes := by
  obtain ⟨errors, claims, rfl, -, -⟩ := h
  rfl

theorem Build.recordValue_claimed {value : Option Value} {u : Unit}
    (h : recordValue node value d = (u, d')) (hclaimed : d.Claimed)
    (hfresh : (Cell.value node).Fresh d) : d'.Claimed := by
  rw [recordValue_eq h]
  intro claim hclaim
  rw [NodeTable.get?_insert, if_neg fun heq => hfresh claim hclaim heq.symm]
  exact hclaimed claim hclaim

/-- A cell of the footprint is touched. -/
theorem Draft.Open.touched (h : d.Open bodies S) (hframe : Frame bodies S₁ d d') {cell : Cell}
    (hS : S cell) : cell.Touched bodies S d d' :=
  ⟨hframe.cell_old (h cell hS).2.2, fun hreserved =>
    (h cell hS).2.1 (hframe.cell_reserved hreserved),
    .inl hS⟩

/-- What was recorded in the end agrees with what the model says. -/
theorem Tracks.recorded {value : Option Value}
    (htracks : Tracks strict m sc roles d' (Cell.Touched bodies S d d')) (hopen : d.Open bodies S)
    (hframe : Frame bodies S d d') (hS : S (.value e.id))
    (hvalue : d'.nodeValues.get? e.id = some value) : Settled.Recorded strict m e value :=
  htracks.cells _ (hopen.touched hframe hS) value hvalue

/-! ## Making classes -/

theorem Build.Opened.only (h : Opened kind c node d d₁) {c' : ClassId} (hge : d.classes.size ≤ c')
    (hlt : c' < d₁.classes.size) : c' = c := by
  rw [h.size_eq] at hlt
  rw [h.id_eq]
  exact Nat.le_antisymm (Nat.le_of_lt_succ hlt) hge

theorem Build.Opened.sound (h : Opened kind c node d d₁) (hsound : d.Sound sc roles bound)
    (hopen : d.Open (sc.lazyIds roles) S) (hnode : S (.nodeClass node))
    (herrors : d₁.errors = #[]) : d₁.Sound sc roles bound := by
  refine hsound.after (h.quiet.frame _) ?_ herrors (h.quiet.claimed hsound.claimed (by simp))
  rintro cell rfl -
  exact (hopen _ hnode).2.1

/-- After a class was made, its fields are open as well. -/
theorem Build.Opened.open (h : Opened kind c node d d₁) (hwf : d.WellFormed)
    (hopen : d.Open bodies S) (hS : ∀ cell, S₂ cell → (S cell ∧ cell ≠ .nodeClass node) ∨
      ∃ id, cell = .filling c id ∧ ¬d.Reserved bodies id) : d₁.Open bodies S₂ := by
  intro cell hcell
  rcases hS cell hcell with ⟨hbefore, hne⟩ | ⟨id, rfl, hfree⟩
  · obtain ⟨hfresh, hfree, hold⟩ := hopen cell hbefore
    have hframe := h.quiet.frame bodies
    exact ⟨hframe.fresh hfresh hne hold hfree,
      fun hreserved => hfree (hframe.cell_reserved hreserved), hframe.cell_old hold⟩
  · refine ⟨fun f hf howner => ?_, fun hreserved =>
      hfree ((h.quiet.frame bodies).reserved hreserved), h.lt⟩
    rw [h.fields_eq] at hf
    have hlt := hwf.owner_lt f hf
    rw [← (h.quiet.plain).owner_eq f hf, howner] at hlt
    exact absurd hlt h.not_lt

theorem Build.Opened.class_at (h : Opened kind c node d d₁) (hframe : Frame bodies S₂ d₁ d')
    (hS : ¬S₂ (.nodeClass node)) (hfree : ¬d.Reserved bodies node) :
    d'.nodeClasses.get? node = some c := by
  refine (hframe.same (.nodeClass node) trivial hS fun hvisited => ?_).trans h.class_eq
  exact hfree ((h.quiet.frame bodies).reserved hvisited.1)

theorem Build.Opened.hasKind (h : Opened kind c node d d₁) (hframe : Frame bodies S₂ d₁ d')
    (hkeeps : Keeps strict m sc roles d') : Settled.HasKind m c kind := by
  obtain ⟨model, hmodel, hkind, -⟩ :=
    hkeeps.class_kept c (Nat.lt_of_lt_of_le h.lt hframe.classes_le)
  exact ⟨model, hmodel, hkind.trans ((hframe.kind_eq c h.lt).trans h.kind_eq)⟩

/-- The one class that was made is placed, if its expression is known to build it. -/
theorem Build.Opened.placed (h : Opened kind c node d d₁)
    (hclass : m.nodeClasses.get? node = some c) :
    ClassesPlaced m d d₁ := by
  intro c' hge hlt b hb
  obtain rfl := h.only hge hlt
  have hnode : b = node := by
    rcases h.origin_eq with horigin | horigin <;> rw [horigin] at hb <;> simpa [eq_comm] using hb
  rw [hnode]
  exact hclass

/-- A class that was made before a walk. -/
theorem Settles.opened (h₁ : Opened kind c node d d₁) (hkind : kind ≠ .tagged)
    (h₂ : Settles strict m sc roles S₂ P d₁ d') (hnode : S (.nodeClass node))
    (hS : ∀ cell : Cell, cell.Old d → S₂ cell → S cell)
    (hplaced : Tracks strict m sc roles d' (Cell.Touched (sc.lazyIds roles) S d d') →
      m.nodeClasses.get? node = some c) : Settles strict m sc roles S P d d' := by
  refine .before h₁.quiet h₂ ?_ hS (fun c' hge hlt => ?_) fun htracks =>
    h₁.placed (hplaced htracks)
  · rintro cell - rfl
    exact hnode
  · rw [h₁.only hge hlt, h₁.kind_eq]
    exact hkind

/-- What is settled by a walk from a draft that is ready for it. -/
def Settling (strict : Prop) (m : GrammarModel) (sc : Scope) (roles : Array RuleRole) (bound : Nat)
    (S : Cell → Prop) (P : Prop) (d d' : Draft) : Prop :=
  d.Sound sc roles bound → d.Open (sc.lazyIds roles) S → d'.errors = #[] →
    Settles strict m sc roles S P d d'

namespace Settling

theorem mono (h : Settling strict m sc roles bound S₁ P d d')
    (hS : ∀ cell, S₁ cell → S cell) : Settling strict m sc roles bound S P d d' :=
  fun hsound hopen herrors => (h hsound (hopen.mono hS) herrors).mono fun cell _ => hS cell

theorem imp (h : Settling strict m sc roles bound S P₁ d d')
    (himp : d.Open (sc.lazyIds roles) S → Frame (sc.lazyIds roles) S d d' →
      Tracks strict m sc roles d' (Cell.Touched (sc.lazyIds roles) S d d') → P₁ → P₂) :
    Settling strict m sc roles bound S P₂ d d' :=
  fun hsound hopen herrors =>
    (h hsound hopen herrors).imp (himp hopen (h hsound hopen herrors).frame)

/-- Two walks one after the other. -/
theorem seq (h₁ : Settling strict m sc roles bound S₁ P₁ d d₁)
    (h₂ : Settling strict m sc roles bound S₂ P₂ d₁ d')
    (hmono : d.WellFormed → d.Open (sc.lazyIds roles) S → d'.errors = #[] → d₁.errors = #[])
    (hS₁ : ∀ cell, S₁ cell → S cell) (hS₂ : ∀ cell, S₂ cell → S cell)
    (hdisjoint : ∀ cell, S₁ cell → ¬S₂ cell) :
    Settling strict m sc roles bound S (P₁ ∧ P₂) d d' := by
  intro hsound hopen herrors
  have herrors₁ := hmono hsound.wellFormed hopen herrors
  have hsettles₁ := h₁ hsound (hopen.mono hS₁) herrors₁
  have hsound₁ := hsound.after hsettles₁.frame
    (fun cell hcell _ => (hopen cell (hS₁ cell hcell)).2.1) herrors₁ hsettles₁.claimed
  have hopen₁ : d₁.Open (sc.lazyIds roles) S₂ :=
    (hopen.mono hS₂).after hsettles₁.frame fun cell h₂ h₁ => hdisjoint cell h₁ h₂
  exact hsettles₁.seq (h₂ hsound₁ hopen₁ herrors) hopen hS₁ hS₂ hdisjoint

/-- An expression whose class a walk does not touch has none. -/
theorem without_class (h : Settling strict m sc roles bound S₁ P d d')
    (hS : ∀ cell, S₁ cell → S cell) (hnode : S (.nodeClass node))
    (hnot : ¬S₁ (.nodeClass node)) :
    Settling strict m sc roles bound S (P ∧ m.nodeClasses.get? node = none) d d' := by
  intro hsound hopen herrors
  have hsettles := h hsound (hopen.mono hS) herrors
  obtain ⟨hfresh, hfree, hold⟩ := hopen _ hnode
  refine (hsettles.mono fun cell _ => hS cell).imp fun htracks hP => ⟨hP, ?_⟩
  have htracked : (Cell.nodeClass node).Tracked strict m d' :=
    htracks.cells _ (hopen.touched hsettles.frame hnode)
  exact htracked.trans (hsettles.frame.fresh hfresh hnot hold hfree)

/-- A walk that makes no class and analyzes no rule. -/
theorem ofQuiet (h : Quiet S d d') (hsize : d'.classes.size ≤ d.classes.size)
    (hclaimed : d.Claimed → d.Open (sc.lazyIds roles) S → d'.Claimed)
    (hsettled : d.Open (sc.lazyIds roles) S → d'.errors = #[] →
      Tracks strict m sc roles d' (Cell.Touched (sc.lazyIds roles) S d d') → P) :
    Settling strict m sc roles bound S P d d' :=
  fun hsound hopen herrors => .ofQuiet h (hclaimed hsound.claimed hopen)
    (fun _ hge hlt => absurd (Nat.lt_of_lt_of_le hlt hsize) (Nat.not_lt.mpr hge))
    (fun _ => .of_size_le hsize) (hsettled hopen herrors)

/-- An element that is finished settles that its value is recorded. -/
theorem ofFinish {rsc : RuleScope} {value r : Option Value} {allowed : Bool}
    (h : finishElement rsc e value allowed d = (r, d')) :
    Settling strict m sc roles bound (fun cell => cell = .value e.id)
      (Settled.Recorded strict m e value ∧ (allowed = false → e.NoFieldMarkers) ∧
        (e.hasMarker .optional = true → ∀ v, value = some v → v.cardinality ≠ .list)) d d' := by
  obtain ⟨-, hfinished, hmarkers⟩ := finishElement_spec h
  have hquiet : Quiet (fun cell => cell = .value e.id) d d' := hfinished.quiet rfl
  refine ofQuiet hquiet (Nat.le_of_eq (by rw [hfinished.classes_eq]))
    (fun hclaimed hopen => hfinished.claimed hclaimed (hopen _ rfl).1)
    fun hopen herrors htracks => ⟨?_, hmarkers herrors⟩
  exact htracks.recorded hopen (hquiet.frame _) rfl hfinished.recorded

/-- A walk in front of which a class was made: the class is there, and the walk may fill its
fields. -/
theorem opened (h₁ : Opened kind c node d d₁) (hkind : kind ≠ .tagged)
    (h₂ : Settling strict m sc roles bound S₂ P d₁ d')
    (hmono : d₁.WellFormed → d₁.Open (sc.lazyIds roles) S₂ → d'.errors = #[] → d₁.errors = #[])
    (hnode : S (.nodeClass node)) (hS : ∀ cell, S₂ cell → (S cell ∧ cell ≠ .nodeClass node) ∨
      ∃ id, cell = .filling c id ∧ S (.nodeClass id)) :
    Settling strict m sc roles bound S
      (P ∧ Settled.HasKind m c kind ∧ m.nodeClasses.get? node = some c ∧ c < d'.classes.size)
      d d' := by
  intro hsound hopen herrors
  have hopen₁ : d₁.Open (sc.lazyIds roles) S₂ := by
    refine h₁.open hsound.wellFormed hopen fun cell hcell => (hS cell hcell).imp_right ?_
    rintro ⟨id, rfl, hid⟩
    exact ⟨id, rfl, (hopen _ hid).2.1⟩
  have hwf₁ := (h₁.quiet.frame (sc.lazyIds roles)).wellFormed hsound.wellFormed
  have herrors₁ := hmono hwf₁ hopen₁ herrors
  have hsettles := h₂ (h₁.sound hsound hopen hnode herrors₁) hopen₁ herrors
  have hnot : ¬S₂ (.nodeClass node) := by
    intro hcell
    rcases hS _ hcell with ⟨-, hne⟩ | ⟨id, heq, -⟩
    · exact hne rfl
    · cases heq
  have hold : ∀ cell : Cell, cell.Old d → S₂ cell → S cell := by
    intro cell hbefore hcell
    rcases hS cell hcell with ⟨hin, -⟩ | ⟨id, rfl, -⟩
    · exact hin
    · exact absurd hbefore h₁.not_lt
  have hframe : Frame (sc.lazyIds roles) S d d' :=
    (h₁.quiet.frame _).comp hsettles.frame (by rintro cell - rfl; exact hnode) hold
  have hclass (htracks : Tracks strict m sc roles d' (Cell.Touched (sc.lazyIds roles) S d d')) :
      m.nodeClasses.get? node = some c := by
    have htracked : (Cell.nodeClass node).Tracked strict m d' :=
      htracks.cells _ (hopen.touched hframe hnode)
    exact htracked.trans (h₁.class_at hsettles.frame hnot (hopen _ hnode).2.1)
  have hwhole : Settles strict m sc roles S P d d' := .opened h₁ hkind hsettles hnode hold hclass
  exact hwhole.imp fun htracks hP => ⟨hP, h₁.hasKind hsettles.frame htracks.keeps, hclass htracks,
    Nat.lt_of_lt_of_le h₁.lt hsettles.frame.classes_le⟩

end Settling

end

end AnnotatedGrammar
