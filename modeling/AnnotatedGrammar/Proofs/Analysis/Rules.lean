import AnnotatedGrammar.Model.Build
import AnnotatedGrammar.Proofs.Analysis.Contents

/-!
# Rules that are analyzed on demand

The value of a rule without a class is found when it is first needed, in the middle of the walk
through another rule. Its body has expressions of its own, so that the walk goes on as if nothing
had happened. As many rules as are waiting can be under way at once, and one fewer waits inside
each.
-/

namespace AnnotatedGrammar

open Build AnnotatedGrammar.Expr

/-- Different rules have different expressions. -/
structure Scope.Separate (sc : Scope) : Prop where
  proper : ∀ (r : RuleId) rule, sc.rules[r]? = some rule → rule.body.Proper
  disjoint : ∀ (r r' : RuleId) rule rule', sc.rules[r]? = some rule → sc.rules[r']? = some rule' →
    r ≠ r' → ∀ id ∈ rule.body.ids, id ∉ rule'.body.ids

section

variable {strict : Prop} {m : GrammarModel} {sc : Scope} {roles : Array RuleRole} {bound : Nat}
  {d d₁ d₂ d' : Draft} {r : RuleId} {body : Expr} {v : Option Value}

theorem Scope.lazyBody?_eq_some : sc.lazyBody? roles r = some body ↔
    (roles.getD r .passthrough).class? = none ∧ ∃ rule, sc.rules[r]? = some rule ∧
      rule.body = body := by
  unfold lazyBody?
  cases (roles.getD r .passthrough).class? with
  | none => simp
  | some c => simp

/-- A rule without a class is analyzed when its value is asked for. -/
theorem Scope.isSome_lazyBody? : (sc.lazyBody? roles r).isSome ↔
    (roles.getD r .passthrough).class? = none ∧ ∃ rule, sc.rules[r]? = some rule := by
  simp [Option.isSome_iff_exists, lazyBody?_eq_some]

theorem Scope.mem_lazyIds {id : NodeId} :
    id ∈ sc.lazyIds roles r ↔ ∃ body, sc.lazyBody? roles r = some body ∧ id ∈ body.ids := by
  unfold lazyIds
  cases sc.lazyBody? roles r with
  | none => simp
  | some body => simp

/-- The run that finds the value of a rule: the rule is marked as under way, its body is walked
through, and the value is kept. -/
structure Visits (sc : Scope) (roles : Array RuleRole) (r : RuleId) (body : Expr)
    (v : Option Value) (d d₁ d₂ d' : Draft) : Prop where
  separate : sc.Separate
  body_eq : sc.lazyBody? roles r = some body
  pending : d.progress[r]? = some .pending
  start_eq : d₁ = { d with progress := d.progress.setIfInBounds r (.inProgress false) }
  end_eq : d' = { d₂ with progress := d₂.progress.setIfInBounds r (.done v) }

namespace Visits

theorem lt (h : Visits sc roles r body v d d₁ d₂ d') : r < d.progress.size :=
  (Array.getElem?_eq_some_iff.mp h.pending).1

theorem start_get? (h : Visits sc roles r body v d d₁ d₂ d') (r' : RuleId) :
    d₁.progress[r']? = if r = r' then some (.inProgress false) else d.progress[r']? := by
  rw [h.start_eq, Array.getElem?_setIfInBounds]
  split
  · rw [if_pos h.lt]
  · rfl

theorem start_size (h : Visits sc roles r body v d d₁ d₂ d') :
    d₁.progress.size = d.progress.size := by
  rw [h.start_eq]
  exact Array.size_setIfInBounds

/-- The walk through the body does not come back to the body. -/
theorem start_free (h : Visits sc roles r body v d d₁ d₂ d') {id : NodeId} (hid : id ∈ body.ids) :
    ¬d₁.Reserved (sc.lazyIds roles) id := by
  rintro ⟨r', hpending, hmem⟩
  rw [h.start_get?] at hpending
  split at hpending
  · cases hpending
  · rename_i hne
    obtain ⟨body', hbody', hid'⟩ := Scope.mem_lazyIds.mp hmem
    obtain ⟨-, rule, hrule, rfl⟩ := Scope.lazyBody?_eq_some.mp h.body_eq
    obtain ⟨-, rule', hrule', rfl⟩ := Scope.lazyBody?_eq_some.mp hbody'
    exact h.separate.disjoint r r' rule rule' hrule hrule' hne id hid hid'

theorem start_reserved (h : Visits sc roles r body v d d₁ d₂ d') {id : NodeId}
    (hid : d₁.Reserved (sc.lazyIds roles) id) : d.Reserved (sc.lazyIds roles) id := by
  obtain ⟨r', hpending, hmem⟩ := hid
  rw [h.start_get?] at hpending
  split at hpending
  · cases hpending
  · exact ⟨r', hpending, hmem⟩

theorem body_reserved (h : Visits sc roles r body v d d₁ d₂ d') {id : NodeId}
    (hid : id ∈ body.ids) : d.Reserved (sc.lazyIds roles) id :=
  ⟨r, h.pending, Scope.mem_lazyIds.mpr ⟨body, h.body_eq, hid⟩⟩

variable {S : Cell → Prop}

theorem lt_after (h : Visits sc roles r body v d d₁ d₂ d')
    (hframe : Frame (sc.lazyIds roles) S d₁ d₂) : r < d₂.progress.size := by
  rw [hframe.progress_size, h.start_size]
  exact h.lt

theorem end_get? (h : Visits sc roles r body v d d₁ d₂ d')
    (hframe : Frame (sc.lazyIds roles) S d₁ d₂) (r' : RuleId) :
    d'.progress[r']? = if r = r' then some (.done v) else d₂.progress[r']? := by
  rw [h.end_eq, Array.getElem?_setIfInBounds]
  split
  · rw [if_pos (h.lt_after hframe)]
  · rfl

theorem end_reserved (h : Visits sc roles r body v d d₁ d₂ d')
    (hframe : Frame (sc.lazyIds roles) S d₁ d₂) {id : NodeId} :
    d'.Reserved (sc.lazyIds roles) id ↔ d₂.Reserved (sc.lazyIds roles) id := by
  have hmarked : d₂.progress[r]? ≠ some .pending := by
    intro hpending
    have hstart : d₁.progress[r]? = some (.inProgress false) := by
      rw [h.start_get?, if_pos rfl]
    cases hframe.progress r _ _ hstart hpending
  constructor
  · rintro ⟨r', hpending, hmem⟩
    rw [h.end_get? hframe] at hpending
    split at hpending
    · cases hpending
    · exact ⟨r', hpending, hmem⟩
  · rintro ⟨r', hpending, hmem⟩
    refine ⟨r', ?_, hmem⟩
    rw [h.end_get? hframe, if_neg]
    · exact hpending
    · rintro rfl
      exact hmarked hpending

theorem end_cell_reserved (h : Visits sc roles r body v d d₁ d₂ d')
    (hframe : Frame (sc.lazyIds roles) S d₁ d₂) {cell : Cell} :
    cell.Reserved (sc.lazyIds roles) d' ↔ cell.Reserved (sc.lazyIds roles) d₂ := by
  cases cell with
  | value | nodeClass | filling => exact h.end_reserved hframe
  | variants => exact Iff.rfl

theorem start_cell_reserved (h : Visits sc roles r body v d d₁ d₂ d') {cell : Cell}
    (hcell : cell.Reserved (sc.lazyIds roles) d₁) : cell.Reserved (sc.lazyIds roles) d := by
  cases cell with
  | value | nodeClass | filling => exact h.start_reserved hcell
  | variants => exact hcell

/-- The cells of the body belong to a rule that is analyzed on the way. -/
theorem visited (h : Visits sc roles r body v d d₁ d₂ d')
    (hframe : Frame (sc.lazyIds roles) S d₁ d₂) {cell : Cell} (hcell : body.elementCells cell) :
    cell.Visited (sc.lazyIds roles) d d' := by
  have hid {id : NodeId} (hid : id ∈ body.ids) : d.Reserved (sc.lazyIds roles) id ∧
      ¬d'.Reserved (sc.lazyIds roles) id :=
    ⟨h.body_reserved hid, fun hreserved =>
      h.start_free hid (hframe.reserved ((h.end_reserved hframe).mp hreserved))⟩
  cases cell with
  | value id => exact hid hcell
  | nodeClass id => exact hid (body.classIds_subset hcell)
  | filling | variants => exact hcell.elim

theorem visited_of_inner (h : Visits sc roles r body v d d₁ d₂ d')
    (hframe : Frame (sc.lazyIds roles) S d₁ d₂) {cell : Cell}
    (hcell : cell.Visited (sc.lazyIds roles) d₁ d₂) : cell.Visited (sc.lazyIds roles) d d' :=
  ⟨h.start_cell_reserved hcell.1, fun hreserved =>
    hcell.2 ((h.end_cell_reserved hframe).mp hreserved)⟩

/-- To the rules around it, the run changes nothing but what belongs to rules. -/
theorem frame (h : Visits sc roles r body v d d₁ d₂ d')
    (hframe : Frame (sc.lazyIds roles) body.elementCells d₁ d₂) :
    Frame (sc.lazyIds roles) (fun _ => False) d d' := by
  have hstart := h.start_eq
  have hend := h.end_eq
  subst hstart hend
  exact {
    errors_eq := hframe.errors_eq
    wellFormed := fun hwf =>
      have hwf₂ := hframe.wellFormed ⟨hwf.field_id, hwf.owner_lt, hwf.owner_eq⟩
      ⟨hwf₂.field_id, hwf₂.owner_lt, hwf₂.owner_eq⟩
    unreported := fun hunreported herrors r' => by
      rw [h.end_get? hframe]
      split
      · simp
      · refine hframe.unreported (fun herrors₁ r'' => ?_) herrors r'
        rw [h.start_get?]
        split
        · simp
        · exact hunreported herrors₁ r''
    onlyDebug := hframe.onlyDebug
    progress_size := by
      rw [← h.start_size, ← hframe.progress_size]
      exact Array.size_setIfInBounds
    progress := fun r' p p' hp hp' => by
      rw [h.end_get? hframe] at hp'
      split at hp'
      · rename_i heq
        subst heq
        obtain rfl := Option.some.inj (h.pending.symm.trans hp)
        obtain rfl := Option.some.inj hp'
        exact .analyzed v
      · rename_i hne
        refine hframe.progress r' p p' ?_ hp'
        rw [h.start_get?, if_neg hne]
        exact hp
    classes_le := hframe.classes_le
    fields_le := hframe.fields_le
    kind_eq := hframe.kind_eq
    origin_eq := hframe.origin_eq
    base_eq := hframe.base_eq
    variants_ne := hframe.variants_ne
    owner_eq := hframe.owner_eq
    element_eq := hframe.element_eq
    rank_le := hframe.rank_le
    same := fun cell hold _ hvisited => by
      have hsame := hframe.same cell (by cases cell <;> exact hold)
        (fun hcell => hvisited (h.visited hframe hcell))
        (fun hcell => hvisited (h.visited_of_inner hframe hcell))
      cases cell <;> exact hsame
    claims := fun claim hclaim => by
      rcases hframe.claims claim hclaim with hbefore | hcell | hcell
      · exact .inl hbefore
      · exact .inr (.inr (h.visited hframe hcell))
      · exact .inr (.inr (h.visited_of_inner hframe hcell)) }

/-- One rule fewer waits while the body is walked through. -/
theorem waiting_lt (h : Visits sc roles r body v d d₁ d₂ d') :
    (d₁.waiting sc roles).card < (d.waiting sc roles).card := by
  refine Finset.card_lt_card (Finset.ssubset_iff_of_subset (fun r' hr' => ?_) |>.mpr ⟨r, ?_, ?_⟩)
  · rw [Draft.waiting, Finset.mem_filter, Finset.mem_range] at hr' ⊢
    obtain ⟨hlt, hpending, hbody⟩ := hr'
    rw [h.start_size] at hlt
    rw [h.start_get?] at hpending
    split at hpending
    · cases hpending
    · exact ⟨hlt, hpending, hbody⟩
  · rw [Draft.waiting, Finset.mem_filter, Finset.mem_range]
    exact ⟨h.lt, h.pending, h.body_eq ▸ rfl⟩
  · rw [Draft.waiting, Finset.mem_filter, h.start_get?, if_pos rfl]
    simp

theorem untouched (h : Visits sc roles r body v d d₁ d₂ d')
    (huntouched : d.Untouched (sc.lazyIds roles)) : d₁.Untouched (sc.lazyIds roles) := by
  intro id hid
  have hbefore := huntouched id (h.start_reserved hid)
  rw [h.start_eq]
  exact hbefore

/-- The draft is ready for the walk through the body. -/
theorem sound (h : Visits sc roles r body v d d₁ d₂ d') (hsound : d.Sound sc roles (bound + 1)) :
    d₁.Sound sc roles bound where
  wellFormed := by
    rw [h.start_eq]
    exact ⟨hsound.wellFormed.field_id, hsound.wellFormed.owner_lt, hsound.wellFormed.owner_eq⟩
  unreported r' := by
    rw [h.start_get?]
    split
    · simp
    · exact hsound.unreported r'
  claimed := by
    rw [h.start_eq]
    exact hsound.claimed
  untouched := h.untouched hsound.untouched
  roles_lt := by
    rw [h.start_eq]
    exact hsound.roles_lt
  waiting_lt := Nat.lt_of_lt_of_le h.waiting_lt (Nat.le_of_lt_succ hsound.waiting_lt)

theorem cells_open (h : Visits sc roles r body v d d₁ d₂ d')
    (huntouched : d.Untouched (sc.lazyIds roles)) :
    d₁.Open (sc.lazyIds roles) body.elementCells := by
  intro cell hcell
  have hfresh {id : NodeId} (hid : id ∈ body.ids) :
      (Cell.value id).Fresh d₁ ∧ (Cell.nodeClass id).Fresh d₁ := by
    have hbefore := huntouched id (h.body_reserved hid)
    rw [h.start_eq]
    exact hbefore
  cases cell with
  | value id => exact ⟨(hfresh hcell).1, h.start_free hcell, trivial⟩
  | nodeClass id =>
    have hid := body.classIds_subset hcell
    exact ⟨(hfresh hid).2, h.start_free hid, trivial⟩
  | filling | variants => exact hcell.elim

/-- What the walk through the body settles is settled with the value of the rule. -/
theorem settles (h : Visits sc roles r body v d d₁ d₂ d')
    (hinner : Settles strict m sc roles body.elementCells (Settled.Element strict m false body v)
      d₁ d₂) :
    Settles strict m sc roles (fun _ => False) ((m.rule? r).bind (·.value) = v) d d' where
  frame := h.frame hinner.frame
  claimed := by
    rw [h.end_eq]
    exact hinner.claimed
  tagged := by
    have htagged := hinner.tagged
    rw [h.start_eq] at htagged
    rw [h.end_eq]
    exact htagged
  settled htracks := by
    have hframe := hinner.frame
    have hget := h.end_get? hframe
    obtain ⟨hclass, -⟩ := Scope.lazyBody?_eq_some.mp h.body_eq
    have hmarked : d₁.progress[r]? = some (.inProgress false) := by
      rw [h.start_get?, if_pos rfl]
    have hkeeps : Keeps strict m sc roles d₂ := by
      obtain ⟨hsymbols, howned, hroles, hdone, hrules, hclasses, hfields⟩ := htracks.keeps
      rw [h.end_eq] at hclasses hfields
      refine ⟨hsymbols, howned, hroles, fun r' w hrole hw => ?_, hrules, hclasses, hfields⟩
      refine hdone r' w hrole ?_
      rw [Array.getD_eq_getD_getElem?] at hw ⊢
      rw [hget r', if_neg]
      · exact hw
      · rintro rfl
        have hafter := Array.getElem?_eq_getElem (h.lt_after hframe)
        rw [hafter, Option.getD_some] at hw
        have hbecomes := hframe.progress r _ _ hmarked hafter
        rw [hw] at hbecomes
        cases hbecomes
    have htracks₂ : Tracks strict m sc roles d₂
        (Cell.Touched (sc.lazyIds roles) body.elementCells d₁ d₂) := by
      refine ⟨hkeeps, ?_⟩
      rintro cell ⟨hold, hfree, hcause⟩
      have htracked : cell.Tracked strict m d' := by
        refine htracks.cells cell ⟨?_, fun hreserved =>
          hfree ((h.end_cell_reserved hframe).mp hreserved), ?_⟩
        · rw [h.end_eq]
          cases cell <;> exact hold
        · rcases hcause with hcell | hvisited | hnew
          · exact .inr (.inl (h.visited hframe hcell))
          · exact .inr (.inl (h.visited_of_inner hframe hvisited))
          · refine .inr (.inr fun hbefore => hnew ?_)
            rw [h.start_eq]
            cases cell <;> exact hbefore
      rw [h.end_eq] at htracked
      cases cell <;> exact htracked
    obtain ⟨helement, hrules, hplaced⟩ := hinner.settled htracks₂
    refine ⟨htracks.keeps.done_value r v hclass ?_, fun r' body' hbody' hpending hafter => ?_, ?_⟩
    · rw [Array.getD_eq_getD_getElem?, hget, if_pos rfl]
      rfl
    · rw [hget] at hafter ⊢
      by_cases heq : r = r'
      · subst heq
        obtain rfl : body = body' := Option.some.inj (h.body_eq.symm.trans hbody')
        exact ⟨v, if_pos rfl, helement⟩
      · rw [if_neg heq] at hafter ⊢
        refine hrules r' body' hbody' ?_ hafter
        rw [h.start_get?, if_neg heq]
        exact hpending
    · rw [h.start_eq] at hplaced
      rw [h.end_eq]
      exact hplaced

end Visits

/-! ## Values of rules -/

theorem Build.setProgress_eq {progress : RuleProgress} {u : Unit}
    (h : setProgress r progress d = (u, d')) :
    d' = { d with progress := d.progress.setIfInBounds r progress } := by
  unfold setProgress at h
  rw [modify_eq] at h
  exact h.symm

/-- The report that a rule needs its own value. -/
def Rule.recursion (rule : Rule) : SemanticError := ⟨.recursiveValue rule.name, rule.nameSpan⟩

/-- The draft once a rule is reported to need its own value. -/
def Draft.reported (d : Draft) (r : RuleId) (rule : Rule) : Draft :=
  { d with
    errors := d.errors.push rule.recursion
    progress := d.progress.setIfInBounds r (.inProgress true) }

/-- How the value of a rule is found. -/
theorem Build.ruleValue_cases (hseparate : sc.Separate) {depth : Nat}
    (h : ruleValue sc roles (depth + 1) r d = (v, d')) :
    (∃ c, (roles.getD r .passthrough).class? = some c ∧ v = some (.ofClass c) ∧ d' = d) ∨
      (sc.rules[r]? = none ∧ v = none ∧ d' = d) ∨
      ((roles.getD r .passthrough).class? = none ∧ d.progress.getD r (.done none) = .done v ∧
        d' = d) ∨
      (v = none ∧ d.progress[r]? = some (.inProgress true) ∧ d' = d) ∨
      (v = none ∧ d.progress[r]? = some (.inProgress false) ∧
        ∃ rule, sc.lazyBody? roles r = some rule.body ∧ sc.rules[r]? = some rule ∧
          d' = d.reported r rule) ∨
      ∃ rule d₁ d₂, Visits sc roles r rule.body v d d₁ d₂ d' ∧
        elementValue (ruleValue sc roles depth) (scopeOf sc roles rule) rule.body false d₁ =
          (v, d₂) := by
  have hget {p : RuleProgress} (hp : d.progress.getD r (.done none) = p) (hne : p ≠ .done none) :
      d.progress[r]? = some p := by
    rw [Array.getD_eq_getD_getElem?] at hp
    cases hr : d.progress[r]? with
    | none =>
      rw [hr] at hp
      exact absurd hp.symm hne
    | some p' =>
      rw [hr] at hp
      exact congrArg some hp
  rw [ruleValue] at h
  cases hclass : (roles.getD r .passthrough).class? with
  | some c =>
    simp only [hclass, pure_eq] at h
    exact .inl ⟨c, rfl, h.1.symm, h.2.symm⟩
  | none =>
    cases hrule : sc.rules[r]? with
    | none =>
      simp only [hclass, hrule, pure_eq] at h
      exact .inr (.inl ⟨rfl, h.1.symm, h.2.symm⟩)
    | some rule =>
      have hbody : sc.lazyBody? roles r = some rule.body :=
        Scope.lazyBody?_eq_some.mpr ⟨hclass, rule, hrule, rfl⟩
      simp only [hclass, hrule, bind_eq, get_eq] at h
      obtain ⟨_, _, ⟨rfl, rfl⟩, h⟩ := h
      cases hprogress : d.progress.getD r (.done none) with
      | done value =>
        simp only [hprogress, pure_eq] at h
        obtain ⟨rfl, rfl⟩ := h
        exact .inr (.inr (.inl ⟨rfl, rfl, rfl⟩))
      | inProgress reported =>
        have hmarked := hget hprogress (by simp)
        cases reported with
        | true =>
          simp only [hprogress, Bool.not_true, Bool.false_eq_true, if_false, pure_eq] at h
          exact .inr (.inr (.inr (.inl ⟨h.1.symm, hmarked, h.2.symm⟩)))
        | false =>
          simp only [hprogress, Bool.not_false, if_true, bind_eq, pure_eq] at h
          obtain ⟨_, d₁, hfault, _, d₂, hset, rfl, rfl⟩ := h
          refine .inr (.inr (.inr (.inr (.inl ⟨rfl, hmarked, rule, hbody, rfl, ?_⟩))))
          rw [setProgress_eq hset, fault_eq hfault]
          rfl
      | pending =>
        simp only [hprogress, bind_eq, pure_eq] at h
        obtain ⟨_, d₁, hstart, value, d₂, hvalue, _, d₃, hend, rfl, rfl⟩ := h
        exact .inr (.inr (.inr (.inr (.inr ⟨rule, d₁, d₂, ⟨hseparate, hbody,
          hget hprogress (by simp), setProgress_eq hstart, setProgress_eq hend⟩, hvalue⟩))))

/-- A rule that needs its own value is reported. -/
theorem Draft.reported_frame {bodies : RuleId → List NodeId} {rule : Rule}
    (hmarked : d.progress[r]? = some (.inProgress false)) :
    Frame bodies (fun _ => False) d (d.reported r rule) where
  errors_eq h := absurd h (size_push_ne _ _)
  wellFormed h := ⟨h.field_id, h.owner_lt, h.owner_eq⟩
  unreported _ h := absurd h (size_push_ne _ _)
  onlyDebug h := h
  progress_size := Array.size_setIfInBounds
  progress r' p p' hp hp' := by
    rw [Draft.reported, Array.getElem?_setIfInBounds] at hp'
    split at hp'
    · rename_i heq
      subst heq
      split at hp'
      · obtain rfl := Option.some.inj (hmarked.symm.trans hp)
        obtain rfl := Option.some.inj hp'
        exact .reported
      · cases hp'
    · obtain rfl := Option.some.inj (hp.symm.trans hp')
      exact .same p
  classes_le := Nat.le_refl _
  fields_le := Nat.le_refl _
  kind_eq _ _ := rfl
  origin_eq _ _ := rfl
  base_eq _ _ _ h := h
  variants_ne _ _ h := h
  owner_eq _ _ := rfl
  element_eq _ _ := rfl
  rank_le _ _ := Nat.le_refl _
  same cell _ _ _ := by
    cases cell with
    | value | nodeClass | variants => rfl
    | filling => exact fun f hf _ hid => ⟨hf, hid⟩
  claims _ h := .inl h

/-- Finding the value of a rule changes nothing but what belongs to rules. -/
theorem Build.ruleValue_frame (hseparate : sc.Separate) (depth : Nat) :
    ∀ r d v d', ruleValue sc roles depth r d = (v, d') → d.WellFormed →
      Frame (sc.lazyIds roles) (fun _ => False) d d' := by
  induction depth with
  | zero =>
    intro r d v d' h _
    rw [ruleValue] at h
    obtain ⟨-, rfl⟩ := pure_eq.mp h
    exact .refl _ _ _
  | succ depth ih =>
    intro r d v d' h hwf
    rcases ruleValue_cases hseparate h with ⟨c, -, -, rfl⟩ | ⟨-, -, rfl⟩ | ⟨-, -, rfl⟩ |
      ⟨-, -, rfl⟩ | ⟨-, hmarked, rule, -, -, rfl⟩ | ⟨rule, d₁, d₂, hvisits, hvalue⟩
    · exact .refl _ _ _
    · exact .refl _ _ _
    · exact .refl _ _ _
    · exact .refl _ _ _
    · exact Draft.reported_frame hmarked
    · have hwalk : WalkFrames (sc.lazyIds roles) (ruleValue sc roles depth)
          (scopeOf sc roles rule) := walkFrames ih
      refine hvisits.frame (hwalk.elementValue rule.body false d₁ v d₂ hvalue ?_)
      rw [hvisits.start_eq]
      exact ⟨hwf.field_id, hwf.owner_lt, hwf.owner_eq⟩

/-- Finding the value of a rule settles which it is, as long as one more rule may be under way than
are waiting. -/
theorem Build.ruleValue_settles (hseparate : sc.Separate) (depth : Nat) :
    ∀ r d v d', ruleValue sc roles depth r d = (v, d') →
      Settling strict m sc roles depth (fun _ => False) ((m.rule? r).bind (·.value) = v) d d' := by
  induction depth with
  | zero =>
    intro r d v d' _ hsound
    exact absurd hsound.waiting_lt (Nat.not_lt_zero _)
  | succ depth ih =>
    intro r d v d' h
    rcases ruleValue_cases hseparate h with ⟨c, hclass, rfl, rfl⟩ | ⟨hrule, rfl, rfl⟩ |
      ⟨hclass, hdone, rfl⟩ | ⟨-, hmarked, rfl⟩ | ⟨-, -, rule, -, -, rfl⟩ |
      ⟨rule, d₁, d₂, hvisits, hvalue⟩
    · exact .of_same fun hkeeps => hkeeps.role_value r c hclass
    · refine .of_same fun hkeeps => ?_
      rw [hkeeps.no_rule r hrule]
      rfl
    · exact .of_same fun hkeeps => hkeeps.done_value r v hclass hdone
    · exact fun hsound => absurd hmarked (hsound.unreported r)
    · exact fun _ _ hnone => absurd hnone (size_push_ne _ _)
    · intro hsound _ herrors
      have hframes : WalkFrames (sc.lazyIds roles) (ruleValue sc roles depth)
          (scopeOf sc roles rule) := walkFrames (ruleValue_frame hseparate depth)
      have hwalks : WalkSettles strict m (ruleValue sc roles depth) (scopeOf sc roles rule) depth :=
        walkSettles hframes ih
      obtain ⟨-, rule', hrule, hbody⟩ := Scope.lazyBody?_eq_some.mp hvisits.body_eq
      have hproper : rule.body.Proper := hbody ▸ hseparate.proper r rule' hrule
      have hinner := hwalks.elementValue rule.body false d₁ v d₂ hvalue hproper
      have herrors₂ : d₂.errors = #[] := by
        rw [hvisits.end_eq] at herrors
        exact herrors
      have hsettles := hinner (hvisits.sound hsound) (hvisits.cells_open hsound.untouched) herrors₂
      exact hvisits.settles (hsettles.imp fun _ hP => hP.1)

end

end AnnotatedGrammar
