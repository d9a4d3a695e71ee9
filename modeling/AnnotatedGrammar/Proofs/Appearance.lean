import Mathlib.Data.List.Basic
import Mathlib.Data.List.Sort

/-!
# Order of first appearance

The first place of an item in a list says where it appears. Dropping repetitions keeps the items in
the order in which they appear, and so does every choice from a list that tells its items apart;
sorting keeps this order among items of equal rank.
-/

namespace AnnotatedGrammar

variable {α β : Type}

section Appearance

variable [BEq α] [LawfulBEq α] [BEq β] [LawfulBEq β]

/-- A choice that tells items apart keeps the order in which they appear. -/
theorem idxOf_lt_of_filterMap {f : α → Option β}
    (hf : ∀ {x y : α} {b : β}, f x = some b → f y = some b → x = y) {l : List α} {x y : α} {b c : β}
    (hx : f x = some b) (hy : f y = some c)
    (h : (l.filterMap f).idxOf b < (l.filterMap f).idxOf c) : l.idxOf x < l.idxOf y := by
  induction l with
  | nil => simp at h
  | cons z rest ih =>
    by_cases hzx : z = x
    · have hzy : z ≠ y := by
        rintro rfl
        obtain rfl := Option.some.inj ((hzx ▸ hx).symm.trans hy)
        exact Nat.lt_irrefl _ h
      rw [hzx, List.idxOf_cons_self, List.idxOf_cons_ne _ (hzx ▸ hzy)]
      exact Nat.succ_pos _
    · have hrest (hlt : (rest.filterMap f).idxOf b < (rest.filterMap f).idxOf c) (hzy : z ≠ y) :
          (z :: rest).idxOf x < (z :: rest).idxOf y := by
        rw [List.idxOf_cons_ne _ hzx, List.idxOf_cons_ne _ hzy]
        exact Nat.succ_lt_succ (ih hlt)
      cases hz : f z with
      | none =>
        rw [List.filterMap_cons_none hz] at h
        refine hrest h ?_
        rintro rfl
        cases hz.symm.trans hy
      | some d =>
        have hdb : d ≠ b := fun hdb => hzx (hf (hdb ▸ hz) hx)
        have hzy : z ≠ y := by
          rintro rfl
          obtain rfl := Option.some.inj (hz.symm.trans hy)
          rw [List.filterMap_cons_some hz, List.idxOf_cons_self] at h
          exact Nat.not_lt_zero _ h
        have hdc : d ≠ c := fun hdc => hzy (hf (hdc ▸ hz) hy)
        rw [List.filterMap_cons_some hz, List.idxOf_cons_ne _ hdb, List.idxOf_cons_ne _ hdc] at h
        exact hrest (Nat.lt_of_succ_lt_succ h) hzy

/-- Without repetitions the items stand in the order in which they appear. -/
theorem pairwise_eraseDups :
    (l : List α) → l.eraseDups.Pairwise fun a b => l.idxOf a < l.idxOf b
  | [] => List.Pairwise.nil
  | a :: rest => by
    have hother {b : α} (hb : b ∈ (rest.filter fun b => !b == a).eraseDups) : b ≠ a := by
      simpa using (List.mem_filter.mp (List.mem_eraseDups.mp hb)).2
    have hkept {b : α} (hb : b ≠ a) : Option.guard (fun b => !b == a) b = some b :=
      Option.guard_eq_some_iff.mpr ⟨rfl, by simpa using hb⟩
    rw [List.eraseDups_cons]
    refine List.pairwise_cons.mpr ⟨fun b hb => ?_,
      (pairwise_eraseDups (rest.filter fun b => !b == a)).imp_of_mem fun hb hc h => ?_⟩
    · rw [List.idxOf_cons_self, List.idxOf_cons_ne _ (hother hb).symm]
      exact Nat.succ_pos _
    · rw [List.idxOf_cons_ne _ (hother hb).symm, List.idxOf_cons_ne _ (hother hc).symm]
      rw [← List.filterMap_eq_filter] at h
      refine Nat.succ_lt_succ (idxOf_lt_of_filterMap (fun hx hy => ?_) (hkept (hother hb))
        (hkept (hother hc)) h)
      exact (Option.guard_eq_some_iff.mp hx).1.trans (Option.guard_eq_some_iff.mp hy).1.symm
termination_by l => l.length
decreasing_by exact Nat.lt_succ_of_le (List.length_filter_le ..)

theorem nodup_eraseDups (l : List α) : l.eraseDups.Nodup :=
  (pairwise_eraseDups l).imp fun h => by rintro rfl; exact Nat.lt_irrefl _ h

end Appearance

/-- Sorting keeps the order of items of equal rank. -/
theorem pairwise_mergeSort_of_pairwise (le : α → α → Bool) {S : α → α → Prop}
    (htrans : ∀ a b c, le a b = true → le b c = true → le a c = true)
    (htotal : ∀ a b, (le a b || le b a) = true) {l : List α} (h : l.Pairwise S) :
    (l.mergeSort le).Pairwise fun a b => le a b = true ∧ (le b a = true → S a b) := by
  induction l with
  | nil => simp
  | cons a rest ih =>
    obtain ⟨ha, hrest⟩ := List.pairwise_cons.mp h
    obtain ⟨front, back, hsorted, hwithout, hfront⟩ := List.mergeSort_cons htrans htotal a rest
    have hkept := ih hrest
    have hle := List.pairwise_mergeSort htrans htotal (a :: rest)
    rw [hwithout] at hkept
    rw [hsorted] at hle ⊢
    obtain ⟨hbefore, hbehind, hacross⟩ := List.pairwise_append.mp hkept
    obtain ⟨-, hbelow, habove⟩ := List.pairwise_append.mp hle
    have hmem {b : α} (hb : b ∈ back) : b ∈ rest := by
      rw [← (List.mergeSort_perm rest le).mem_iff, hwithout]
      exact List.mem_append_right _ hb
    refine List.pairwise_append.mpr ⟨hbefore, List.pairwise_cons.mpr ⟨fun b hb => ?_, hbehind⟩,
      fun b hb c hc => ?_⟩
    · exact ⟨(List.pairwise_cons.mp hbelow).1 b hb, fun _ => ha b (hmem hb)⟩
    · rcases List.mem_cons.mp hc with rfl | hc
      · have hnot := hfront b hb
        exact ⟨habove b hb c List.mem_cons_self, fun hle => by simp [hle] at hnot⟩
      · exact hacross b hb c hc

end AnnotatedGrammar
