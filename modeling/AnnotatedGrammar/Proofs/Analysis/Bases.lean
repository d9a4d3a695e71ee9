import Mathlib.Data.Finset.Card
import Mathlib.Logic.Function.Iterate
import AnnotatedGrammar.Proofs.Analysis.Conclusion

/-!
# Bases do not come in cycles

Among finitely many classes, whoever follows bases without end passes some class twice, and that
class is on a cycle. The last check of the analysis looks from every class whether its bases come
back to it, so that a draft without errors has no cycle and every chain of bases ends.
-/

namespace AnnotatedGrammar

open Build

/-- Whoever makes more stops than there are places stops at one of them twice. -/
theorem exists_lt_map_eq {α : Type} (f : Nat → α) (places : Finset α)
    (h : ∀ n ≤ places.card, f n ∈ places) : ∃ i j, i < j ∧ j ≤ places.card ∧ f i = f j := by
  have hcard : places.card < (Finset.range (places.card + 1)).card := by
    rw [Finset.card_range]
    exact Nat.lt_succ_self _
  have hstops : ∀ n ∈ Finset.range (places.card + 1), f n ∈ places :=
    fun n hn => h n (Nat.le_of_lt_succ (Finset.mem_range.mp hn))
  obtain ⟨i, hi, j, hj, hne, heq⟩ := Finset.exists_ne_map_eq_of_card_lt_of_maps_to hcard hstops
  rcases Nat.lt_or_gt_of_ne hne with hlt | hlt
  · exact ⟨i, j, hlt, Nat.le_of_lt_succ (Finset.mem_range.mp hj), heq⟩
  · exact ⟨j, i, hlt, Nat.le_of_lt_succ (Finset.mem_range.mp hi), heq.symm⟩

namespace Draft

variable {d d' : Draft}

/-- The base of a class, if there is a class and it has one. -/
def follow (d : Draft) (c : Option ClassId) : Option ClassId := c.bind fun c => (d.classAt c).base

theorem iterate_follow_none (d : Draft) (n : Nat) : d.follow^[n] none = none :=
  Function.iterate_fixed rfl n

/-- If bases come back to where they started, the search for a cycle finds that. -/
theorem baseCycle?_ne_none {start : ClassId} {c : Option ClassId} {k steps : Nat}
    {seen : List ClassId} (h : d.follow^[k] c = some start) (hk : k < steps) :
    baseCycle? d start seen steps c ≠ none := by
  induction steps generalizing c k seen with
  | zero => exact absurd hk (Nat.not_lt_zero k)
  | succ steps ih =>
    cases c with
    | none =>
      rw [iterate_follow_none] at h
      cases h
    | some c =>
      rw [baseCycle?]
      split
      · simp
      · rename_i hne
        cases k with
        | zero => exact absurd (Option.some.inj h) hne
        | succ k =>
          rw [Function.iterate_succ_apply] at h
          exact ih h (Nat.lt_of_succ_lt_succ hk)

/-- From no class do bases come back to it. -/
def Acyclic (d : Draft) : Prop :=
  ∀ start < d.classes.size,
    baseCycle? d start [start] (d.classes.size + 1) (d.classAt start).base = none

/-- Without a cycle, the bases of every class end. -/
theorem Acyclic.follow_ends (h : d.Acyclic)
    (hbase : ∀ c b, (d.classAt c).base = some b → b < d.classes.size) (c : ClassId) :
    ∃ n, d.follow^[n] (some c) = none := by
  by_contra hnever
  simp only [not_exists] at hnever
  have hsome (n : Nat) : ∃ b, d.follow^[n] (some c) = some b :=
    Option.ne_none_iff_exists'.mp (hnever n)
  choose passed hpassed using hsome
  have hlt (n : Nat) : passed (n + 1) < d.classes.size := by
    have hnext := hpassed (n + 1)
    rw [Function.iterate_succ_apply', hpassed n] at hnext
    exact hbase _ _ hnext
  -- one more class is passed than there are
  obtain ⟨i, j, hij, hj, heq⟩ := exists_lt_map_eq (fun n => passed (n + 1))
    (Finset.range d.classes.size) fun n _ => Finset.mem_range.mpr (hlt n)
  rw [Finset.card_range] at hj
  have hreturns : d.follow^[j - i - 1] (d.classAt (passed (i + 1))).base =
      some (passed (i + 1)) := by
    have hsplit : j + 1 = (j - i - 1) + (1 + (i + 1)) := by omega
    have hreached := hpassed (j + 1)
    rw [hsplit, Function.iterate_add_apply, Function.iterate_add_apply, hpassed, ← hsplit,
      ← heq] at hreached
    exact hreached
  have hsteps : j - i - 1 < d.classes.size + 1 := by omega
  exact baseCycle?_ne_none hreturns hsteps (h _ (hlt i))

end Draft

/-- If no cycle is reported, there is none. -/
theorem Build.checkCycles_acyclic {d d' : Draft} {u : Unit} {classes : List ClassId}
    (h : checkCycles [] classes d = (u, d')) (herrors : d'.errors = #[]) :
    d' = d ∧ ∀ start ∈ classes,
      baseCycle? d start [start] (d.classes.size + 1) (d.classAt start).base = none := by
  induction classes with
  | nil =>
    rw [checkCycles] at h
    obtain ⟨-, rfl⟩ := pure_eq.mp h
    exact ⟨rfl, by simp⟩
  | cons start rest ih =>
    rw [checkCycles] at h
    obtain ⟨_, _, hget, h⟩ := bind_eq.mp h
    obtain ⟨rfl, rfl⟩ := get_eq.mp hget
    cases hcycle : baseCycle? d start [start] (d.classes.size + 1) (d.classAt start).base with
    | none =>
      simp only [hcycle] at h
      obtain ⟨heq, hrest⟩ := ih h
      exact ⟨heq, List.forall_mem_cons.mpr ⟨hcycle, hrest⟩⟩
    | some members =>
      simp only [hcycle, List.contains_nil, Bool.false_eq_true, if_false] at h
      obtain ⟨_, d₁, hfault, h⟩ := bind_eq.mp h
      obtain ⟨errors, rfl, hkept⟩ := checkCycles_faults h
      exact absurd (hkept herrors) (fault_errors hfault)

/-- A draft without errors has no cycle among its bases. -/
theorem Grammar.draft_acyclic {grammar : Grammar} {preferences : ModelPreferences}
    {overrides : Overrides} (herrors : (grammar.draft preferences overrides).draft.errors = #[]) :
    (grammar.draft preferences overrides).draft.Acyclic := by
  obtain ⟨_, _, _, claimed, hstages⟩ := grammar.exists_stages preferences overrides
  obtain ⟨heq, hnone⟩ := checkCycles_acyclic hstages.cycles herrors
  rw [heq]
  exact fun start hstart => hnone start (List.mem_range.mpr hstart)

end AnnotatedGrammar
