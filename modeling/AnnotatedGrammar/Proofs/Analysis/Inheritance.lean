import Mathlib.Data.Nat.Find
import Mathlib.Order.Bounds.Basic
import AnnotatedGrammar.Proofs.Analysis.Bases
import AnnotatedGrammar.Proofs.Model.WellFormed

/-!
# Inheritance

Every class has at most one base, so there is one way to go on from a class. Whoever follows it and
reaches a class at all reaches it after at most as many steps as there are classes, which is how far
the searches look. Bases that run in a cycle are reported once, for the smallest class on the cycle.
-/

namespace AnnotatedGrammar

open Relation (ReflTransGen TransGen)

/-! ## Following bases -/

section Following

variable {base : ClassId → Option ClassId} {bound : Nat} {c b : ClassId}

/-- The class `n` bases behind a class, if there are so many. -/
def behind (base : ClassId → Option ClassId) (n : Nat) (c : Option ClassId) : Option ClassId :=
  (fun c => c.bind base)^[n] c

theorem behind_none (base : ClassId → Option ClassId) (n : Nat) : behind base n none = none :=
  Function.iterate_fixed rfl n

theorem behind_succ (base : ClassId → Option ClassId) (n : Nat) (c : ClassId) :
    behind base (n + 1) (some c) = behind base n (base c) :=
  Function.iterate_succ_apply ..

theorem behind_succ' (base : ClassId → Option ClassId) (n : Nat) (c : Option ClassId) :
    behind base (n + 1) c = (behind base n c).bind base :=
  Function.iterate_succ_apply' ..

theorem behind_add (base : ClassId → Option ClassId) (n k : Nat) (c : Option ClassId) :
    behind base (n + k) c = behind base n (behind base k c) :=
  Function.iterate_add_apply ..

theorem reflTransGen_iff_behind :
    ReflTransGen (fun c b => base c = some b) c b ↔ ∃ n, behind base n (some c) = some b := by
  constructor
  · intro h
    induction h with
    | refl => exact ⟨0, rfl⟩
    | tail _ hbase ih =>
      obtain ⟨n, hn⟩ := ih
      use n + 1
      rw [behind_succ', hn]
      exact hbase
  · rintro ⟨n, hn⟩
    induction n generalizing c with
    | zero =>
      obtain rfl : c = b := Option.some.inj hn
      exact .refl
    | succ n ih =>
      rw [behind_succ] at hn
      cases hbase : base c with
      | none =>
        rw [hbase, behind_none] at hn
        cases hn
      | some next =>
        rw [hbase] at hn
        exact .head hbase (ih hn)

/-- If only the classes below a bound have bases, then a class that is reached is reached after at
most so many steps. -/
theorem exists_behind_le (hbound : ∀ c b, base c = some b → c < bound)
    (h : ∃ n, behind base n (some c) = some b) : ∃ n ≤ bound, behind base n (some c) = some b := by
  refine ⟨Nat.find h, ?_, Nat.find_spec h⟩
  by_contra hlong
  have hcard : ((Finset.range bound).image (some : Nat → Option Nat)).card ≤ bound :=
    Finset.card_image_le.trans (Finset.card_range bound).le
  have hpassed (i : Nat) (hi : i < Nat.find h) :
      behind base i (some c) ∈ (Finset.range bound).image some := by
    have hrest : Nat.find h = (Nat.find h - (i + 1)) + (i + 1) := by omega
    have hend := Nat.find_spec h
    rw [hrest, behind_add, behind_succ'] at hend
    cases hat : behind base i (some c) with
    | none =>
      rw [hat, Option.bind_none, behind_none] at hend
      cases hend
    | some x =>
      rw [hat, Option.bind_some] at hend
      cases hbase : base x with
      | none =>
        rw [hbase, behind_none] at hend
        cases hend
      | some y => simpa using hbound x y hbase
  -- the shortest way passes a class twice if it is longer than there are classes
  obtain ⟨i, j, hij, hj, heq⟩ := exists_lt_map_eq (fun n => behind base n (some c)) _
    fun n hn => hpassed n (by omega)
  -- without the stretch between the two visits it is shorter
  have hwhole : Nat.find h = (Nat.find h - j) + j := by omega
  have hend := Nat.find_spec h
  rw [hwhole, behind_add] at hend
  rw [← heq, ← behind_add] at hend
  exact Nat.find_min h (by omega) hend

/-- A search that looks at a class and then at its base finds what is at most `steps` bases away. -/
theorem search_iff {ancestor : ClassId} (search : Nat → ClassId → Bool)
    (hzero : ∀ c, search 0 c = (c == ancestor))
    (hsucc : ∀ steps c, search (steps + 1) c =
      (c == ancestor || match base c with
        | some b => search steps b
        | none => false)) (steps : Nat) (c : ClassId) :
    search steps c = true ↔ ∃ n ≤ steps, behind base n (some c) = some ancestor := by
  induction steps generalizing c with
  | zero =>
    rw [hzero, beq_iff_eq]
    constructor
    · rintro rfl
      exact ⟨0, Nat.le_refl 0, rfl⟩
    · rintro ⟨n, hn, h⟩
      obtain rfl := Nat.le_zero.mp hn
      exact Option.some.inj h
  | succ steps ih =>
    rw [hsucc, Bool.or_eq_true, beq_iff_eq]
    constructor
    · rintro (rfl | h)
      · exact ⟨0, Nat.zero_le _, rfl⟩
      · split at h
        next b hbase =>
          obtain ⟨n, hn, hreach⟩ := (ih b).mp h
          exact ⟨n + 1, Nat.succ_le_succ hn, by rwa [behind_succ, hbase]⟩
        next => cases h
    · rintro ⟨n, hn, h⟩
      cases n with
      | zero => exact Or.inl (Option.some.inj h)
      | succ n =>
        apply Or.inr
        rw [behind_succ] at h
        cases hbase : base c with
        | none =>
          rw [hbase, behind_none] at h
          cases h
        | some b =>
          rw [hbase] at h
          exact (ih b).mpr ⟨n, Nat.le_of_succ_le_succ hn, h⟩

/-- A search as deep as there are classes finds exactly the classes that are reached. -/
theorem search_iff_reflTransGen {ancestor : ClassId} (search : Nat → ClassId → Bool)
    (hzero : ∀ c, search 0 c = (c == ancestor))
    (hsucc : ∀ steps c, search (steps + 1) c =
      (c == ancestor || match base c with
        | some b => search steps b
        | none => false)) (hbound : ∀ c b, base c = some b → c < bound) (c : ClassId) :
    search bound c = true ↔ ReflTransGen (fun c b => base c = some b) c ancestor := by
  rw [search_iff search hzero hsucc, reflTransGen_iff_behind]
  constructor
  · rintro ⟨n, -, h⟩
    exact ⟨n, h⟩
  · exact exists_behind_le hbound

end Following

/-! ## Ancestors -/

namespace Draft

variable {d : Draft} {c b : ClassId}

/-- One class is the base of another one. -/
def HasBase (d : Draft) (c b : ClassId) : Prop := (d.classAt c).base = some b

/-- Only classes of the table have bases. -/
theorem HasBase.lt (h : d.HasBase c b) : c < d.classes.size := by
  by_contra hout
  have hdefault : d.classes.getD c default = default := by simp [Array.getD, hout]
  rw [HasBase, classAt, hdefault] at h
  cases h

theorem isAncestor_iff (d : Draft) (ancestor c : ClassId) :
    d.isAncestor ancestor c = true ↔ ReflTransGen d.HasBase c ancestor :=
  search_iff_reflTransGen (d.reaches ancestor) (fun _ => rfl) (fun _ _ => rfl)
    (fun _ _ h => HasBase.lt h) c

end Draft

theorem GrammarModel.isAncestor_iff (m : GrammarModel) (ancestor c : ClassId) :
    m.isAncestor ancestor c = true ↔ ReflTransGen m.HasBase c ancestor := by
  have hbase : m.HasBase = fun c b => m.base? c = some b := by
    funext c b
    exact propext hasBase_iff
  rw [hbase]
  apply search_iff_reflTransGen (m.reaches ancestor) (fun _ => rfl) (fun _ _ => rfl)
  intro c b h
  obtain ⟨cls, hcls, -⟩ := hasBase_iff.mpr h
  exact (Array.getElem?_eq_some_iff.mp hcls).1

/-! ## Cycles -/

/-- Whoever goes on from one of some classes comes past all of them, and past no others. -/
structure IsCycle (follows : ClassId → ClassId → Prop) (cycle : Set ClassId) : Prop where
  nonempty : cycle.Nonempty
  mem_iff : ∀ c ∈ cycle, ∀ b, b ∈ cycle ↔ TransGen follows c b

theorem IsCycle.unique {follows : ClassId → ClassId → Prop} {cycle other : Set ClassId}
    {c : ClassId} (h : IsCycle follows cycle) (h' : IsCycle follows other) (hc : c ∈ cycle)
    (hc' : c ∈ other) : cycle = other := by
  ext b
  rw [h.mem_iff c hc, h'.mem_iff c hc']

/-- Whoever comes back to a class comes back to it from everywhere on the way. -/
theorem transGen_back {follows : ClassId → ClassId → Prop} {c b : ClassId}
    (hunique : ∀ x y z, follows x y → follows x z → y = z) (hcycle : TransGen follows c c)
    (h : TransGen follows c b) : TransGen follows b c := by
  have hstep {x y : ClassId} (hback : TransGen follows x c) (hxy : follows x y) :
      TransGen follows y c := by
    obtain ⟨z, hxz, hrest⟩ := TransGen.head'_iff.mp hback
    obtain rfl := hunique x y z hxy hxz
    exact hcycle.trans_right hrest
  induction h with
  | single hxy => exact hstep hcycle hxy
  | tail _ hxy ih => exact hstep ih hxy

theorem isCycle_of_transGen {follows : ClassId → ClassId → Prop} {c : ClassId}
    (hunique : ∀ x y z, follows x y → follows x z → y = z) (hcycle : TransGen follows c c) :
    IsCycle follows {b | TransGen follows c b} := by
  constructor
  · exact ⟨c, hcycle⟩
  · intro x hx b
    constructor
    · exact (transGen_back hunique hcycle hx).trans
    · exact TransGen.trans hx

theorem isLeast_foldl_min (c : ClassId) (cs : List ClassId) :
    IsLeast {x | x = c ∨ x ∈ cs} (cs.foldl min c) := by
  induction cs generalizing c with
  | nil => simp [IsLeast]
  | cons next cs ih =>
    obtain ⟨hmem, hle⟩ := ih (min c next)
    rw [mem_lowerBounds] at hle
    have hfirst : cs.foldl min (min c next) ≤ min c next := hle _ (Or.inl rfl)
    constructor
    · rcases hmem with hmin | hmem
      · rcases min_choice c next with h | h
        · exact Or.inl (hmin.trans h)
        · exact Or.inr (List.mem_cons.mpr (Or.inl (hmin.trans h)))
      · exact Or.inr (List.mem_cons_of_mem _ hmem)
    · rw [mem_lowerBounds]
      rintro x (rfl | hx)
      · exact hfirst.trans (min_le_left _ _)
      · rcases List.mem_cons.mp hx with rfl | hx
        · exact hfirst.trans (min_le_right _ _)
        · exact hle x (Or.inr hx)

namespace Draft

variable {d : Draft} {start c : ClassId} {next : Option ClassId} {seen members : List ClassId}
  {steps : Nat}

theorem HasBase.unique (x y z : ClassId) (hy : d.HasBase x y) (hz : d.HasBase x z) : y = z :=
  Option.some.inj (hy.symm.trans hz)

/-- The search for a cycle through a class has come past some classes; `next` is where it goes
on. -/
structure Trail (d : Draft) (start : ClassId) (seen : List ClassId) (next : Option ClassId) :
    Prop where
  start_mem : start ∈ seen
  reached : ∀ x ∈ seen, ReflTransGen d.HasBase start x
  ahead : ∀ b, next = some b → TransGen d.HasBase start b
  closed : ∀ x ∈ seen, ∀ b, d.HasBase x b → b ∈ seen ∨ next = some b

theorem Trail.initial (d : Draft) (start : ClassId) :
    d.Trail start [start] (d.classAt start).base := by
  constructor
  · exact List.mem_singleton_self start
  · intro x hx
    rw [List.mem_singleton.mp hx]
  · intro b hb
    exact .single hb
  · intro x hx b hb
    rw [List.mem_singleton.mp hx] at hb
    exact Or.inr hb

theorem Trail.step (h : d.Trail start seen (some c)) :
    d.Trail start (c :: seen) (d.classAt c).base := by
  have hreached := h.ahead c rfl
  constructor
  · exact List.mem_cons_of_mem _ h.start_mem
  · exact List.forall_mem_cons.mpr ⟨hreached.to_reflTransGen, h.reached⟩
  · intro b hb
    exact hreached.tail hb
  · intro x hx b hb
    rcases List.mem_cons.mp hx with rfl | hx
    · exact Or.inr hb
    · rcases h.closed x hx b hb with hmem | hnext
      · exact Or.inl (List.mem_cons_of_mem _ hmem)
      · exact Or.inl (List.mem_cons.mpr (Or.inl (Option.some.inj hnext).symm))

/-- A search that succeeds has come past exactly the classes that are reached. -/
theorem Trail.mem_iff (h : d.Trail start seen next)
    (hcycle : Build.baseCycle? d start seen steps next = some members) :
    TransGen d.HasBase start start ∧ ∀ x, x ∈ members ↔ ReflTransGen d.HasBase start x := by
  fun_induction Build.baseCycle? d start seen steps next with
  | case1 => cases hcycle
  | case2 => cases hcycle
  | case3 seen steps =>
    obtain rfl := Option.some.inj hcycle
    refine ⟨h.ahead _ rfl, fun x => ⟨h.reached x, fun hx => ?_⟩⟩
    induction hx with
    | refl => exact h.start_mem
    | tail _ hbase ih =>
      rcases h.closed _ ih _ hbase with hmem | hnext
      · exact hmem
      · rw [← Option.some.inj hnext]
        exact h.start_mem
  | case4 seen steps c _ ih => exact ih h.step hcycle

/-- A cycle through a class is found. -/
theorem baseCycle?_of_transGen (h : TransGen d.HasBase start start) :
    Build.baseCycle? d start [start] (d.classes.size + 1) (d.classAt start).base ≠ none := by
  obtain ⟨b, hbase, hback⟩ := TransGen.head'_iff.mp h
  obtain ⟨k, hk, hreach⟩ :=
    exists_behind_le (fun _ _ h => HasBase.lt h) (reflTransGen_iff_behind.mp hback)
  rw [hbase]
  exact baseCycle?_ne_none hreach (Nat.lt_succ_of_le hk)

/-- A class is the smallest one of a cycle. -/
def LeadsCycle (d : Draft) (c : ClassId) : Prop :=
  ∃ cycle, IsCycle d.HasBase cycle ∧ IsLeast cycle c

theorem LeadsCycle.transGen (h : d.LeadsCycle c) : TransGen d.HasBase c c := by
  obtain ⟨cycle, hcycle, hc, -⟩ := h
  exact (hcycle.mem_iff c hc c).mp hc

/-- What is reported about a cycle, at its smallest class. -/
def cycleReport (d : Draft) (c : ClassId) : SemanticError :=
  ⟨.inheritanceCycle (d.classAt c).name, (d.classAt c).span⟩

/-- The search from a class gives the smallest class of the cycle that the class is on. -/
theorem leadsCycle_foldl_min
    (h : Build.baseCycle? d start [start] (d.classes.size + 1) (d.classAt start).base =
      some members) :
    d.LeadsCycle (members.foldl min start) ∧ TransGen d.HasBase start (members.foldl min start) ∧
      members.foldl min start ≤ start := by
  obtain ⟨hback, hmembers⟩ := (Trail.initial d start).mem_iff h
  have hset : {x | x = start ∨ x ∈ members} = {x | TransGen d.HasBase start x} := by
    ext x
    simp only [Set.mem_ofPred_eq, hmembers]
    constructor
    · rintro (rfl | hx)
      · exact hback
      · exact hback.trans_left hx
    · intro hx
      exact Or.inr hx.to_reflTransGen
  have hleast := isLeast_foldl_min start members
  rw [hset] at hleast
  exact ⟨⟨_, isCycle_of_transGen HasBase.unique hback, hleast⟩, hleast.1, hleast.2 hback⟩

theorem LeadsCycle.eq {b : ClassId} (h : d.LeadsCycle c) (h' : d.LeadsCycle b)
    (hreach : TransGen d.HasBase c b) : c = b := by
  obtain ⟨cycle, hcycle, hleast⟩ := h
  obtain ⟨other, hother, hleast'⟩ := h'
  have hmem : b ∈ cycle := (hcycle.mem_iff c hleast.1 b).mpr hreach
  obtain rfl := hcycle.unique hother hmem hleast'.1
  exact hleast.unique hleast'

end Draft

open Draft

variable {d : Draft} {m : GrammarModel}

open Classical in
/-- From some class on, with the smallest classes of cycles before it reported, the check reports
those that are left. -/
theorem Build.checkCycles_eq {reported : List ClassId} {first count : Nat}
    (hreported : ∀ c, c ∈ reported ↔ c < first ∧ d.LeadsCycle c) :
    checkCycles reported (List.range' first count) d =
      ((), { d with errors := d.errors ++
        (((List.range' first count).filter d.LeadsCycle).map d.cycleReport).toArray }) := by
  induction count generalizing reported first d with
  | zero =>
    simp only [List.range'_zero, List.filter_nil, List.map_nil, Array.append_empty]
    rfl
  | succ count ih =>
    rw [List.range'_succ, checkCycles]
    apply bind_eq.mpr
    refine ⟨d, d, get_eq.mpr ⟨rfl, rfl⟩, ?_⟩
    by_cases hleads : d.LeadsCycle first
    · rw [List.filter_cons_of_pos (by simpa using hleads)]
      cases hcycle : baseCycle? d first [first] (d.classes.size + 1) (d.classAt first).base with
      | none => exact absurd hcycle (baseCycle?_of_transGen hleads.transGen)
      | some members =>
        obtain ⟨hhead, hreach, -⟩ := leadsCycle_foldl_min hcycle
        have hfirst : members.foldl min first = first := (hleads.eq hhead hreach).symm
        have hnew : first ∉ reported := fun h => Nat.lt_irrefl _ ((hreported first).mp h).1
        have hpassed (c : ClassId) : c ∈ first :: reported ↔ c < first + 1 ∧ d.LeadsCycle c := by
          rw [List.mem_cons, hreported, Nat.lt_succ_iff_lt_or_eq]
          constructor
          · rintro (rfl | ⟨hlt, hc⟩)
            · exact ⟨Or.inr rfl, hleads⟩
            · exact ⟨Or.inl hlt, hc⟩
          · rintro ⟨hlt | rfl, hc⟩
            · exact Or.inr ⟨hlt, hc⟩
            · exact Or.inl rfl
        simp only [hfirst, List.contains_eq_mem, hnew, decide_false, Bool.false_eq_true, if_false]
        -- the report changes no class, so the other cycles are those of the draft before it
        have hrest := ih (d := { d with errors := d.errors.push (d.cycleReport first) }) hpassed
        apply bind_eq.mpr
        refine ⟨(), _, rfl, hrest.trans ?_⟩
        rw [List.map_cons, List.toArray_cons, ← Array.append_assoc, Array.push_eq_append]
        rfl
    · rw [List.filter_cons_of_neg (by simpa using hleads)]
      have hpassed (c : ClassId) : c ∈ reported ↔ c < first + 1 ∧ d.LeadsCycle c := by
        rw [hreported]
        refine and_congr_left fun hc => ?_
        have hne : c ≠ first := fun h => hleads (h ▸ hc)
        rw [Nat.lt_succ_iff_lt_or_eq, or_iff_left hne]
      cases hcycle : baseCycle? d first [first] (d.classes.size + 1) (d.classAt first).base with
      | none => exact ih hpassed
      | some members =>
        obtain ⟨hhead, -, hle⟩ := leadsCycle_foldl_min hcycle
        have hdone : members.foldl min first ∈ reported :=
          (hpassed _).mpr ⟨Nat.lt_succ_of_le hle, hhead⟩
        simp only [List.contains_iff_mem.mpr hdone, if_true]
        exact ih hpassed

/-- Both searches find exactly the classes that are reached, and the check reports one error per
cycle, at its smallest class. -/
theorem inheritance_exact (d : Draft) (m : GrammarModel) :
    (∀ ancestor c, d.isAncestor ancestor c = true ↔ ReflTransGen d.HasBase c ancestor) ∧
    (∀ ancestor c, m.isAncestor ancestor c = true ↔ ReflTransGen m.HasBase c ancestor) ∧
    ∃ heads : List ClassId,
      Build.checkCycles [] (List.range d.classes.size) d =
        ((), { d with errors := d.errors ++ (heads.map d.cycleReport).toArray }) ∧
      heads.Pairwise (· < ·) ∧
      (∀ cycle, IsCycle d.HasBase cycle →
        ∃ first, IsLeast cycle first ∧ ∀ c ∈ cycle, c ∈ heads ↔ c = first) ∧
      ∀ c ∈ heads, ∃ cycle, IsCycle d.HasBase cycle ∧ c ∈ cycle := by
  classical
  refine ⟨d.isAncestor_iff, m.isAncestor_iff,
    (List.range d.classes.size).filter d.LeadsCycle, ?_, ?_, ?_, ?_⟩
  · rw [List.range_eq_range']
    apply Build.checkCycles_eq
    intro c
    exact ⟨nofun, fun h => absurd h.1 (Nat.not_lt_zero c)⟩
  · exact List.pairwise_lt_range.filter _
  · intro cycle hcycle
    have hleast := isLeast_csInf hcycle.nonempty
    refine ⟨_, hleast, fun c hc => ?_⟩
    rw [List.mem_filter, List.mem_range, decide_eq_true_iff]
    constructor
    · rintro ⟨-, other, hother, hc'⟩
      obtain rfl := hcycle.unique hother hc hc'.1
      exact hc'.unique hleast
    · rintro rfl
      obtain ⟨b, hbase, -⟩ := TransGen.head'_iff.mp ((hcycle.mem_iff _ hc _).mp hc)
      exact ⟨hbase.lt, cycle, hcycle, hleast⟩
  · intro c hc
    rw [List.mem_filter, decide_eq_true_iff] at hc
    obtain ⟨-, cycle, hcycle, hleast⟩ := hc
    exact ⟨cycle, hcycle, hleast.1⟩

/-- A class of which no more than the base is known. -/
def ClassDraft.withBase (base : ClassId) : ClassDraft where
  __ := (default : ClassDraft)
  model := { (default : ClassModel) with base := some base }

open ClassDraft (withBase) in
/-- Three classes, of which the first one leads into the cycle of the other two. -/
def Draft.leadingIntoCycle : Draft where
  __ := (default : Draft)
  classes := #[withBase 1, withBase 2, withBase 1]

theorem inheritance_exact_leadingIntoCycle :
    IsCycle leadingIntoCycle.HasBase {1, 2} ∧ leadingIntoCycle.isAncestor 2 0 = true ∧
    leadingIntoCycle.isAncestor 0 2 = false ∧
    Build.checkCycles [] [0, 1, 2] leadingIntoCycle =
      ((), { leadingIntoCycle with errors := #[leadingIntoCycle.cycleReport 1] }) := by
  have hmem {c b : ClassId} (h : leadingIntoCycle.HasBase c b) : b = 1 ∨ b = 2 := by
    have hlt : c < 3 := h.lt
    interval_cases c <;> cases h <;> decide
  have hlast {c b : ClassId} (h : TransGen leadingIntoCycle.HasBase c b) : b = 1 ∨ b = 2 := by
    obtain ⟨x, -, hbase⟩ := TransGen.tail'_iff.mp h
    exact hmem hbase
  have hcycle : IsCycle leadingIntoCycle.HasBase {1, 2} := by
    have htwo : TransGen leadingIntoCycle.HasBase 1 2 := .single rfl
    have hback : TransGen leadingIntoCycle.HasBase 1 1 := htwo.tail rfl
    have hset : ({1, 2} : Set ClassId) = {b | TransGen leadingIntoCycle.HasBase 1 b} := by
      ext b
      constructor
      · rintro (rfl | rfl)
        · exact hback
        · exact htwo
      · exact hlast
    rw [hset]
    exact isCycle_of_transGen HasBase.unique hback
  obtain ⟨hdraft, -, heads, hreports, hsorted, hhead, honCycle⟩ :=
    inheritance_exact leadingIntoCycle default
  have hreached : leadingIntoCycle.isAncestor 2 0 = true :=
    (hdraft 2 0).mpr (.head (b := 1) rfl (.single rfl))
  have hnot : leadingIntoCycle.isAncestor 0 2 = false := by
    apply Bool.eq_false_iff.mpr
    intro h
    rcases Relation.reflTransGen_iff_eq_or_transGen.mp ((hdraft 0 2).mp h) with h | h
    · cases h
    · rcases hlast h with h | h <;> cases h
  have hheads (c : ClassId) : c ∈ heads ↔ c = 1 := by
    obtain ⟨first, hleast, hfirst⟩ := hhead {1, 2} hcycle
    have hone : first = 1 := by
      refine hleast.unique ⟨Or.inl rfl, ?_⟩
      rintro b (rfl | rfl) <;> decide
    rw [hone] at hfirst
    constructor
    · intro hc
      obtain ⟨cycle, hcycle', hc'⟩ := honCycle c hc
      exact (hfirst c (hlast ((hcycle'.mem_iff c hc' c).mp hc'))).mp hc
    · rintro rfl
      exact (hfirst 1 (Or.inl rfl)).mpr rfl
  have hlist : heads = [1] := by
    apply hsorted.eq_of_mem_iff (List.pairwise_singleton _ 1)
    simpa using hheads
  rw [hlist] at hreports
  exact ⟨hcycle, hreached, hnot, hreports⟩

end AnnotatedGrammar
