import AnnotatedGrammar.Proofs.Analysis.Elements
import AnnotatedGrammar.Proofs.Recursion.Silent

/-!
# Runs that ask for the values of rules

A run of the analysis asks for the values of some rules, one after the other; whatever it does in
between is no concern of the rules that are yet to be analyzed. Runs one after the other ask for
what each of them asks for, as long as they have different footprints.
-/

namespace AnnotatedGrammar

open Build AnnotatedGrammar.Expr

variable {bodies : RuleId → List NodeId} {visit : RuleId → Build (Option Value)}
  {S S₁ S₂ T : Cell → Prop} {d d₁ d' : Draft} {rs rs₁ rs₂ : List RuleId}

/-- A run that analyzes no rule, touches none that waits, and finds no recursive value. -/
structure Steady (bodies : RuleId → List NodeId) (d d' : Draft) : Prop where
  frame : Frame bodies (fun cell => ¬cell.Reserved bodies d) d d'
  progress_eq : d'.progress = d.progress
  recursions_eq : d'.recursions = d.recursions

namespace Steady

theorem refl (d : Draft) : Steady bodies d d := ⟨.refl _ _ d, rfl, rfl⟩

theorem reserved_iff (h : Steady bodies d d') {cell : Cell} :
    cell.Reserved bodies d' ↔ cell.Reserved bodies d := by
  cases cell with
  | value id | nodeClass id | filling c id =>
    unfold Cell.Reserved Draft.Reserved
    rw [h.progress_eq]
  | variants c => exact Iff.rfl

theorem trans (h₁ : Steady bodies d d₁) (h₂ : Steady bodies d₁ d') : Steady bodies d d' where
  frame := h₁.frame.comp h₂.frame (fun _ _ h => h) fun _ _ h hreserved =>
    h (h₁.reserved_iff.mpr hreserved)
  progress_eq := h₂.progress_eq.trans h₁.progress_eq
  recursions_eq := h₂.recursions_eq.trans h₁.recursions_eq

theorem of_quiet (h : Quiet S d d') (hrecursions : d'.recursions = d.recursions)
    (hopen : d.Open bodies S) : Steady bodies d d' :=
  ⟨(h.frame bodies).mono fun cell _ hcell => (hopen cell hcell).2.1, h.progress_eq, hrecursions⟩

end Steady

/-- The run asks for the values of rules in the given order, and is steady in between. -/
inductive Asks (bodies : RuleId → List NodeId) (visit : RuleId → Build (Option Value)) :
    List RuleId → Draft → Draft → Prop
  | none {d d' : Draft} (h : Steady bodies d d') : Asks bodies visit [] d d'
  | ask {r : RuleId} {rs : List RuleId} {v : Option Value} {d d₁ d₂ d' : Draft}
      (h : Steady bodies d d₁) (hvisit : visit r d₁ = (v, d₂))
      (hrest : Asks bodies visit rs d₂ d') :
      Asks bodies visit (r :: rs) d d'

namespace Asks

theorem before (h₁ : Steady bodies d d₁) (h₂ : Asks bodies visit rs d₁ d') :
    Asks bodies visit rs d d' := by
  cases h₂ with
  | none h => exact .none (h₁.trans h)
  | ask h hvisit hrest => exact .ask (h₁.trans h) hvisit hrest

theorem append (h₁ : Asks bodies visit rs₁ d d₁) (h₂ : Asks bodies visit rs₂ d₁ d') :
    Asks bodies visit (rs₁ ++ rs₂) d d' := by
  induction h₁ with
  | none h => exact h₂.before h
  | ask h hvisit _ ih => exact .ask h hvisit (ih h₂)

end Asks

/-- What a walk does from a draft that is ready for it: it asks for the values of rules, and keeps
to its footprint. -/
def Asking (bodies : RuleId → List NodeId) (visit : RuleId → Build (Option Value))
    (S : Cell → Prop) (rs : List RuleId) (d d' : Draft) : Prop :=
  d.WellFormed → d.Open bodies S → Asks bodies visit rs d d' ∧ Frame bodies S d d'

namespace Asking

theorem mono (h : Asking bodies visit S₁ rs d d') (hS : ∀ cell, S₁ cell → S cell) :
    Asking bodies visit S rs d d' := fun hwf hopen =>
  have hasks := h hwf (hopen.mono hS)
  ⟨hasks.1, hasks.2.mono fun cell _ => hS cell⟩

/-- Two walks one after the other. -/
theorem seq (h₁ : Asking bodies visit S₁ rs₁ d d₁) (h₂ : Asking bodies visit S₂ rs₂ d₁ d')
    (hS₁ : ∀ cell, S₁ cell → S cell) (hS₂ : ∀ cell, S₂ cell → S cell)
    (hdisjoint : ∀ cell, S₁ cell → ¬S₂ cell) : Asking bodies visit S (rs₁ ++ rs₂) d d' := by
  intro hwf hopen
  obtain ⟨hasks₁, hframe₁⟩ := h₁ hwf (hopen.mono hS₁)
  have hopen₁ : d₁.Open bodies S₂ :=
    (hopen.mono hS₂).after hframe₁ fun cell h₂ h₁ => hdisjoint cell h₁ h₂
  obtain ⟨hasks₂, hframe₂⟩ := h₂ (hframe₁.wellFormed hwf) hopen₁
  exact ⟨hasks₁.append hasks₂, hframe₁.comp hframe₂ (fun cell _ => hS₁ cell) fun cell _ => hS₂ cell⟩

/-- A run that asks for nothing. -/
theorem of_quiet (h : d.WellFormed → d.Open bodies S → Quiet S d d')
    (hrecursions : d'.recursions = d.recursions) : Asking bodies visit S [] d d' :=
  fun hwf hopen =>
    ⟨.none (.of_quiet (h hwf hopen) hrecursions hopen), (h hwf hopen).frame bodies⟩

theorem refl (d : Draft) : Asking bodies visit S [] d d := of_quiet (fun _ _ => .refl S d) rfl

/-- A step that asks for nothing behind a walk. -/
theorem before_quiet (h₁ : Asking bodies visit S₁ rs d d₁)
    (h₂ : d₁.WellFormed → d₁.Open bodies T → Quiet T d₁ d')
    (hrecursions : d'.recursions = d₁.recursions) (hS₁ : ∀ cell, S₁ cell → S cell)
    (hT : ∀ cell, T cell → S cell) (hdisjoint : ∀ cell, S₁ cell → ¬T cell) :
    Asking bodies visit S rs d d' := by
  have hstep : Asking bodies visit T [] d₁ d' := .of_quiet h₂ hrecursions
  have hseq := h₁.seq hstep hS₁ hT hdisjoint
  rwa [List.append_nil] at hseq

/-- The value of a rule is asked for. -/
theorem of_visit {r : RuleId} {v : Option Value} (h : visit r d = (v, d'))
    (hframe : d.WellFormed → Frame bodies (fun _ => False) d d') :
    Asking bodies visit S [r] d d' := fun hwf _ =>
  ⟨.ask (.refl d) h (.none (.refl d')), (hframe hwf).mono fun _ _ h => h.elim⟩

/-- A walk in front of which a class was made; the walk may fill its fields. -/
theorem opened {kind : ClassKind} {c : ClassId} {node : NodeId} (h₁ : Opened kind c node d d₁)
    (hrecursions : d₁.recursions = d.recursions) (h₂ : Asking bodies visit S₂ rs d₁ d')
    (hnode : S (.nodeClass node)) (hS : ∀ cell, S₂ cell → (S cell ∧ cell ≠ .nodeClass node) ∨
      ∃ id, cell = .filling c id ∧ S (.nodeClass id)) : Asking bodies visit S rs d d' := by
  intro hwf hopen
  have hquiet : Quiet S d d₁ := h₁.quiet.mono (by rintro cell - rfl; exact hnode)
  have hopen₁ : d₁.Open bodies S₂ := by
    refine h₁.open hwf hopen fun cell hcell => (hS cell hcell).imp_right ?_
    rintro ⟨id, rfl, hid⟩
    exact ⟨id, rfl, (hopen _ hid).2.1⟩
  obtain ⟨hasks, hframe⟩ := h₂ (hquiet.plain.wellFormed hwf) hopen₁
  refine ⟨hasks.before (.of_quiet hquiet hrecursions hopen), (hquiet.frame bodies).comp hframe
    (fun _ _ h => h) fun cell hold hcell => ?_⟩
  rcases hS cell hcell with ⟨hin, -⟩ | ⟨id, rfl, -⟩
  · exact hin
  · exact absurd hold h₁.not_lt

/-- A value is recorded in front of a walk that records another one in its place. -/
theorem after_record {node : NodeId} {v : Option Value} {u : Unit}
    (hrecord : recordValue node v d = (u, d₁)) (h : Asking bodies visit S rs d₁ d')
    (hnode : S (.value node)) : Asking bodies visit S rs d d' := by
  intro hwf hopen
  have hquiet : Quiet S d d₁ := recordValue_quiet hrecord hnode
  obtain ⟨hasks, hframe⟩ := h (hquiet.plain.wellFormed hwf) (recordValue_open hrecord hopen)
  exact ⟨hasks.before (.of_quiet hquiet (silent.recordValue _ _ _ hrecord) hopen),
    (hquiet.frame bodies).trans hframe⟩

end Asking

end AnnotatedGrammar
