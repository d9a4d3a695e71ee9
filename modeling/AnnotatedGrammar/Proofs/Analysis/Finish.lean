import AnnotatedGrammar.Proofs.Analysis.Fields
import AnnotatedGrammar.Proofs.Analysis.Settled

/-!
# Finishing an element

Once the value of an element is computed it is recorded, after its markers were compared with it. An
element that passes without an error carries only markers that suit its place and its value.
-/

namespace AnnotatedGrammar.Build

variable {S : Cell → Prop} {d d' d'' : Draft} {u : Unit} {e : Expr} {value r : Option Value}

/-- A run that at most finds errors. -/
def Faults (d d' : Draft) : Prop :=
  ∃ errors, d' = { d with errors } ∧ (errors = #[] → d.errors = #[])

theorem Faults.refl (d : Draft) : Faults d d := ⟨d.errors, rfl, fun h => h⟩

theorem Faults.trans (h : Faults d d') (h' : Faults d' d'') : Faults d d'' := by
  obtain ⟨errors, rfl, herrors⟩ := h
  obtain ⟨errors', rfl, herrors'⟩ := h'
  exact ⟨errors', rfl, fun h => herrors (herrors' h)⟩

theorem Faults.errors_eq (h : Faults d d') (herrors : d'.errors = #[]) : d.errors = #[] := by
  obtain ⟨errors, rfl, hmono⟩ := h
  exact hmono herrors

theorem fault_faults {what : SemanticFault} {span : Span} (h : fault what span d = (u, d')) :
    Faults d d' :=
  ⟨_, fault_eq h, fun h => absurd h (size_push_ne _ _)⟩

theorem faultMarkers_faults {keys : List MarkerKey} {place : MarkerPlace}
    (h : faultMarkers e keys place d = (u, d')) :
    Faults d d' ∧ (d'.errors = #[] → ∀ key ∈ keys, e.hasMarker key = false) := by
  unfold faultMarkers at h
  induction keys generalizing d with
  | nil =>
    obtain ⟨-, rfl⟩ := pure_eq.mp h
    exact ⟨.refl d, fun _ key hkey => by cases hkey⟩
  | cons key rest ih =>
    rw [List.forM_eq_forM, List.forM_cons] at h
    obtain ⟨_, d₁, hfirst, h⟩ := bind_eq.mp h
    obtain ⟨hrest, hmarkers⟩ := ih h
    cases hmarker : e.marker? key with
    | some marker =>
      rw [hmarker] at hfirst
      refine ⟨(fault_faults hfirst).trans hrest, fun herrors => ?_⟩
      exact absurd (hrest.errors_eq herrors) (fault_errors hfirst)
    | none =>
      rw [hmarker] at hfirst
      obtain ⟨-, rfl⟩ := pure_eq.mp hfirst
      refine ⟨hrest, fun herrors => List.forall_mem_cons.mpr ⟨?_, hmarkers herrors⟩⟩
      rw [Expr.hasMarker, hmarker]
      rfl

/-- The value of an element was recorded, and perhaps a type that was declared for it. -/
def Finished (e : Expr) (value : Option Value) (d d' : Draft) : Prop :=
  ∃ errors claims, d' = { d with
      errors, typeClaims := claims, nodeValues := d.nodeValues.insert e.id value } ∧
    (errors = #[] → d.errors = #[]) ∧
      ∀ claim ∈ claims, claim ∈ d.typeClaims ∨ claim.node = e.id ∧ value = some claim.value

theorem Faults.finished (h : Faults d d') (h' : Finished e value d' d'') :
    Finished e value d d'' := by
  obtain ⟨errors, rfl, herrors⟩ := h
  obtain ⟨errors', claims, rfl, herrors', hclaims⟩ := h'
  exact ⟨errors', claims, rfl, fun h => herrors (herrors' h), hclaims⟩

theorem Finished.errors_eq (h : Finished e value d d') (herrors : d'.errors = #[]) :
    d.errors = #[] := by
  obtain ⟨errors, claims, rfl, hmono, -⟩ := h
  exact hmono herrors

theorem Finished.quiet (h : Finished e value d d') (hS : S (.value e.id)) : Quiet S d d' := by
  obtain ⟨errors, claims, rfl, herrors, hclaims⟩ := h
  refine .of_tables rfl rfl rfl rfl herrors (fun id hid => ?_) (fun _ _ => rfl)
    fun claim hclaim => ?_
  · rw [NodeTable.get?_insert, if_neg]
    rintro rfl
    exact hid hS
  · rcases hclaims claim hclaim with h | h
    · exact .inl h
    · rw [h.1]
      exact .inr hS

theorem Finished.recorded (h : Finished e value d d') :
    d'.nodeValues.get? e.id = some value := by
  obtain ⟨errors, claims, rfl, -, -⟩ := h
  rw [NodeTable.get?_insert, if_pos rfl]

theorem record_finished (h : (do recordValue e.id value; return value : Build (Option Value)) d =
    (r, d')) : r = value ∧ Finished e value d d' := by
  simp only [bind_eq, pure_eq] at h
  obtain ⟨_, d₁, hrecord, rfl, rfl⟩ := h
  exact ⟨rfl, d.errors, d.typeClaims, recordValue_eq hrecord, fun h => h, fun _ h => .inl h⟩

theorem claim_finished (claim? : Option Marker) {v : Value}
    (h : (match claim? with
      | some marker => do
        modify fun d =>
          { d with
            typeClaims := d.typeClaims.push ⟨e.id, marker.value.getD "", v, marker.span⟩ }
        recordValue e.id (some v)
        return some v
      | none => do
        recordValue e.id (some v)
        return some v : Build (Option Value)) d = (r, d')) :
    r = some v ∧ Finished e (some v) d d' := by
  cases claim? with
  | none => exact record_finished h
  | some marker =>
    simp only [bind_eq, modify_eq, pure_eq] at h
    obtain ⟨_, d₁, rfl, _, d₂, hrecord, rfl, rfl⟩ := h
    have heq := recordValue_eq hrecord
    refine ⟨rfl, d.errors, _, heq, fun h => h, fun claim hclaim => ?_⟩
    rcases Array.mem_push.mp hclaim with h | rfl
    · exact .inl h
    · exact .inr ⟨rfl, rfl⟩

/-- A step that is taken under a condition, in front of what comes next in any case. -/
theorem ite_bind {α : Type} (condition : Prop) [Decidable condition] (x : Build Unit)
    (next : Build α) : (if condition then (x >>= fun _ => next) else next) =
      (if condition then x else pure ()) >>= fun _ => next := by
  split
  · rfl
  · rw [pure_bind]

/-- What is known about an element once it is finished. -/
theorem finishElement_spec {sc : RuleScope} {allowed : Bool}
    (h : finishElement sc e value allowed d = (r, d')) :
    r = value ∧ Finished e value d d' ∧ (d'.errors = #[] →
      (allowed = false → e.NoFieldMarkers) ∧
        (e.hasMarker .optional = true → ∀ v, value = some v → v.cardinality ≠ .list)) := by
  unfold finishElement at h
  dsimp only at h
  rw [ite_bind] at h
  obtain ⟨_, d₁, hbefore, h⟩ := bind_eq.mp h
  have hmarkers : Faults d d₁ ∧ (d₁.errors = #[] → allowed = false → e.NoFieldMarkers) := by
    split at hbefore
    · obtain ⟨hfaults, hnone⟩ := faultMarkers_faults hbefore
      exact ⟨hfaults, fun herrors _ => hnone herrors⟩
    · rename_i hallowed
      obtain ⟨-, rfl⟩ := pure_eq.mp hbefore
      refine ⟨.refl d, fun _ hfalse => absurd ?_ hallowed⟩
      rw [hfalse]
      rfl
  have hafter : r = value ∧ Finished e value d₁ d' ∧ (d'.errors = #[] →
      e.hasMarker .optional = true → ∀ v, value = some v → v.cardinality ≠ .list) := by
    cases value with
    | none =>
      have hnone : ∀ v : Value, (none : Option Value) = some v → v.cardinality ≠ .list := by
        intro v hv
        cases hv
      dsimp only at h
      rw [ite_bind] at h
      obtain ⟨_, d₂, hfault, h⟩ := bind_eq.mp h
      obtain ⟨hr, hfinished⟩ := record_finished h
      refine ⟨hr, ?_, fun _ _ => hnone⟩
      split at hfault
      · exact (faultMarkers_faults hfault).1.finished hfinished
      · obtain ⟨-, rfl⟩ := pure_eq.mp hfault
        exact hfinished
    | some v =>
      dsimp only at h
      cases hmarker : e.marker? .optional with
      | none =>
        have hclaim : r = some v ∧ Finished e (some v) d₁ d' := by
          rw [hmarker] at h
          refine claim_finished (if e.namesAlternatives then none else e.marker? .typeOf) ?_
          rw [← h]
          cases v.cardinality <;> rfl
        refine ⟨hclaim.1, hclaim.2, fun _ hoptional => ?_⟩
        rw [Expr.hasMarker, hmarker] at hoptional
        cases hoptional
      | some marker =>
        rw [hmarker] at h
        by_cases hlist : v.cardinality = .list
        · rw [hlist] at h
          obtain ⟨_, d₂, hfault, h⟩ := bind_eq.mp h
          obtain ⟨hr, hfinished⟩ := claim_finished _ h
          refine ⟨hr, (fault_faults hfault).finished hfinished, fun herrors => ?_⟩
          exact absurd (hfinished.errors_eq herrors) (fault_errors hfault)
        · have hclaim : r = some v ∧ Finished e (some v) d₁ d' := by
            refine claim_finished (if e.namesAlternatives then none else e.marker? .typeOf) ?_
            rw [← h]
            generalize v.cardinality = k at hlist
            cases k <;> first | rfl | exact absurd rfl hlist
          refine ⟨hclaim.1, hclaim.2, fun _ _ w hw => ?_⟩
          obtain rfl := Option.some.inj hw
          exact hlist
  obtain ⟨hr, hfinished, hlist⟩ := hafter
  refine ⟨hr, hmarkers.1.finished hfinished, fun herrors => ⟨?_, hlist herrors⟩⟩
  exact hmarkers.2 (hfinished.errors_eq herrors)

/-- Without an error, a sequence has at most one value among those of its items. -/
theorem singleValue_spec {sc : RuleScope} {info : NodeInfo} {values : List (Option Value)}
    (h : singleValue sc info values d = (r, d')) :
    Faults d d' ∧ (d'.errors = #[] → values.filterMap (fun v => v) = r.toList) := by
  unfold singleValue at h
  generalize values.filterMap (fun v => v) = present at h
  match present with
  | [] =>
    obtain ⟨rfl, rfl⟩ := pure_eq.mp h
    exact ⟨.refl d, fun _ => rfl⟩
  | [v] =>
    obtain ⟨rfl, rfl⟩ := pure_eq.mp h
    exact ⟨.refl d, fun _ => rfl⟩
  | first :: second :: rest =>
    simp only [bind_eq, pure_eq] at h
    obtain ⟨_, d₁, hfault, rfl, rfl⟩ := h
    exact ⟨fault_faults hfault, fun herrors => absurd herrors (fault_errors hfault)⟩

theorem Faults.quiet (h : Faults d d') : Quiet S d d' := by
  obtain ⟨errors, rfl, herrors⟩ := h
  exact .of_tables rfl rfl rfl rfl herrors (fun _ _ => rfl) (fun _ _ => rfl) fun _ h => .inl h

end AnnotatedGrammar.Build
