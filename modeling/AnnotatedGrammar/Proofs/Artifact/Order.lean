import Mathlib.Data.List.Nodup
import Mathlib.Data.List.Perm.Subperm
import AnnotatedGrammar.Artifact.Cpp

/-!
# The order of declarations

The search that brings classes into order marks a class before it goes on to those the class wants,
and places it behind them. So it places whatever it marks, and every class of the model just once.
-/

namespace AnnotatedGrammar.DeclarationOrder

namespace Visit

/-- Whether a class needs no visit: it was reached before, or there is no such class. -/
def isReached (v : Visit) (c : ClassId) : Bool := v.reached.getD c true

/-- A class is marked as reached. -/
def mark (v : Visit) (c : ClassId) : Visit := { v with reached := v.reached.setIfInBounds c true }

theorem isReached_mark (v : Visit) (c other : ClassId) :
    (v.mark c).isReached other = true ↔ other = c ∨ v.isReached other = true := by
  simp only [isReached, mark, Array.getD_eq_getD_getElem?, Array.getElem?_setIfInBounds]
  split
  · rename_i heq
    subst heq
    split
    · simp
    · rename_i hsize
      simp [Array.getElem?_eq_none (Nat.not_lt.mp hsize)]
  · rename_i hne
    simp [Ne.symm hne]

/-- The search goes on from one state to another and places the classes `new`, none of which was
reached before and each of which it reaches. -/
structure Places (v v' : Visit) (new : List ClassId) : Prop where
  placed_eq : v'.placed = new ++ v.placed
  nodup : new.Nodup
  fresh : ∀ c ∈ new, v.isReached c = false
  reached : ∀ c, v'.isReached c = true ↔ c ∈ new ∨ v.isReached c = true

variable {v v₁ v₂ : Visit} {new later : List ClassId} {c : ClassId}

theorem Places.refl (v : Visit) : v.Places v [] := ⟨rfl, List.nodup_nil, by simp, by simp⟩

theorem Places.trans (h : v.Places v₁ new) (h' : v₁.Places v₂ later) :
    v.Places v₂ (later ++ new) where
  placed_eq := by rw [h'.placed_eq, h.placed_eq, List.append_assoc]
  nodup := List.nodup_append.mpr ⟨h'.nodup, h.nodup, by
    rintro c hlater _ hnew rfl
    exact Bool.false_ne_true ((h'.fresh c hlater).symm.trans ((h.reached c).mpr (.inl hnew)))⟩
  fresh c hc := by
    rcases List.mem_append.mp hc with hlater | hnew
    · have hnot := h'.fresh c hlater
      by_contra hreached
      exact Bool.false_ne_true (hnot.symm.trans
        ((h.reached c).mpr (.inr (Bool.not_eq_false _ ▸ hreached))))
    · exact h.fresh c hnew
  reached c := by
    rw [h'.reached, h.reached, List.mem_append, or_assoc]

/-- A class that was not reached is marked, and placed when the search comes back to it. -/
theorem Places.enter (hc : v.isReached c = false) (h : (v.mark c).Places v₁ new) :
    v.Places { v₁ with placed := c :: v₁.placed } (c :: new) where
  placed_eq := by rw [h.placed_eq]; rfl
  nodup := List.nodup_cons.mpr ⟨fun hmem => Bool.false_ne_true
    ((h.fresh c hmem).symm.trans ((isReached_mark v c c).mpr (.inl rfl))), h.nodup⟩
  fresh other hother := by
    rcases List.mem_cons.mp hother with rfl | hnew
    · exact hc
    · have hnot := h.fresh other hnew
      by_contra hreached
      exact Bool.false_ne_true (hnot.symm.trans
        ((isReached_mark v c other).mpr (.inr (Bool.not_eq_false _ ▸ hreached))))
  reached other := by
    change v₁.isReached other = true ↔ _
    rw [h.reached, isReached_mark, List.mem_cons, or_left_comm, or_assoc]

end Visit

open Visit

variable (m : GrammarModel)

/-- A visit places what it reaches, and with some depth left it reaches the class visited. -/
theorem visit_places (depth : Nat) (c : ClassId) (v : Visit) :
    ∃ new, v.Places (visit m depth c v) new ∧
      (depth ≠ 0 → (visit m depth c v).isReached c = true) := by
  induction depth generalizing c v with
  | zero => exact ⟨[], .refl v, fun h => absurd rfl h⟩
  | succ depth ih =>
    have hall (targets : List ClassId) (v : Visit) :
        ∃ new, v.Places (targets.foldl (fun v target => visit m depth target v) v) new := by
      induction targets generalizing v with
      | nil => exact ⟨[], .refl v⟩
      | cons target rest ihrest =>
        obtain ⟨new, hplaces, -⟩ := ih target v
        obtain ⟨later, hlater⟩ := ihrest (visit m depth target v)
        exact ⟨_, hplaces.trans hlater⟩
    rw [visit]
    split
    · rename_i hreached
      exact ⟨[], .refl v, fun _ => hreached⟩
    · rename_i hreached
      obtain ⟨new, hplaces⟩ := hall (wanted m c) (v.mark c)
      have henter := Places.enter (Bool.not_eq_true _ ▸ hreached) hplaces
      exact ⟨_, henter, fun _ => (henter.reached c).mpr (.inl List.mem_cons_self)⟩

/-- Every class of a model stands in the order of declarations just once. -/
theorem classes_perm_range : (ofModel m).classes.Perm (List.range m.classes.size) := by
  have hall (targets : List ClassId) (v : Visit) :
      ∃ new, v.Places (targets.foldl (fun v c => visit m (m.classes.size + 1) c v) v) new ∧
        ∀ c ∈ targets,
          (targets.foldl (fun v c => visit m (m.classes.size + 1) c v) v).isReached c = true := by
    induction targets generalizing v with
    | nil => exact ⟨[], .refl v, by simp⟩
    | cons target rest ih =>
      obtain ⟨new, hplaces, hreached⟩ := visit_places m (m.classes.size + 1) target v
      obtain ⟨later, hlater, hrest⟩ := ih (visit m (m.classes.size + 1) target v)
      refine ⟨_, hplaces.trans hlater, List.forall_mem_cons.mpr ⟨?_, hrest⟩⟩
      exact (hlater.reached target).mpr (.inr (hreached (Nat.succ_ne_zero _)))
  let initial : Visit := ⟨Array.replicate m.classes.size false, []⟩
  have hinitial (c : ClassId) : initial.isReached c = false ↔ c < m.classes.size := by
    simp only [isReached, initial, Array.getD_eq_getD_getElem?, Array.getElem?_replicate]
    split <;> simp_all
  obtain ⟨new, hplaces, hreached⟩ := hall (List.range m.classes.size) initial
  have hclasses : (ofModel m).classes = new.reverse := by
    change (List.foldl _ initial _).placed.reverse = _
    rw [hplaces.placed_eq, List.append_nil]
  rw [hclasses]
  refine (List.reverse_perm new).trans
    ((List.perm_ext_iff_of_nodup hplaces.nodup List.nodup_range).mpr fun c => ?_)
  rw [List.mem_range]
  constructor
  · exact fun hc => (hinitial c).mp (hplaces.fresh c hc)
  · intro hc
    refine ((hplaces.reached c).mp (hreached c (List.mem_range.mpr hc))).resolve_right fun h => ?_
    exact Bool.false_ne_true (((hinitial c).mpr hc).symm.trans h)

theorem filterMap_getElem?_range {α : Type} (xs : List α) :
    (List.range xs.length).filterMap (fun i => xs[i]?) = xs := by
  induction xs with
  | nil => rfl
  | cons x rest ih =>
    rw [List.length_cons, List.range_succ_eq_map, List.filterMap_cons, List.filterMap_map]
    exact congrArg (x :: ·) ih

/-- The classes in their order are those of the model. -/
theorem filterMap_class?_perm :
    ((ofModel m).classes.filterMap m.class?).Perm m.classes.toList := by
  have hrange : (List.range m.classes.size).filterMap m.class? = m.classes.toList := by
    have h := filterMap_getElem?_range m.classes.toList
    simp only [Array.length_toList, Array.getElem?_toList] at h
    exact h
  rw [← hrange]
  exact (classes_perm_range m).filterMap m.class?

end AnnotatedGrammar.DeclarationOrder
