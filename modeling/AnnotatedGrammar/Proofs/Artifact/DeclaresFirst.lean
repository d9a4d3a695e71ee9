import Mathlib.Data.List.Sort
import AnnotatedGrammar.Proofs.Appearance
import AnnotatedGrammar.Proofs.Artifact.Order
import AnnotatedGrammar.Proofs.Lowering.Fits
import AnnotatedGrammar.Proofs.Model.WellFormed

/-!
# Classes are declared before they are used

The search goes down from a class to the classes it refers to and places the class behind all of
them, except those it is still coming down from. Each of these reaches the class, so references to
them run in a cycle. No base is among them: bases have no fields, so only bases are reached from a
base, and no class is reached from itself over bases alone.
-/

namespace AnnotatedGrammar

open Relation (TransGen)
open scoped List

namespace GrammarModel

/-- A field of a class holds values of a class. -/
def HoldsClass (m : GrammarModel) (c target : ClassId) : Prop :=
  ∃ cls f fld, m.class? c = some cls ∧ f ∈ cls.fields ∧ m.field? f = some fld ∧
    fld.element = .instance target

/-- A class refers to its base and to the classes of its fields. -/
def Refers (m : GrammarModel) (c target : ClassId) : Prop :=
  m.HasBase c target ∨ m.HoldsClass c target

variable {m : GrammarModel} {c b target : ClassId}

theorem WellFormed.hasBase_lt (hm : m.WellFormed) (h : m.HasBase c b) : b < m.classes.size := by
  obtain ⟨cls, hcls, hbase⟩ := h
  obtain ⟨base, hget, -⟩ := (hm.classes c cls hcls).base b hbase
  exact (Array.getElem?_eq_some_iff.mp hget).1

theorem WellFormed.holdsClass_lt (hm : m.WellFormed) (h : m.HoldsClass c target) :
    target < m.classes.size := by
  obtain ⟨cls, f, fld, -, -, hfld, helement⟩ := h
  have hknows := (hm.fields f fld hfld).element
  rwa [helement] at hknows

theorem WellFormed.refers_lt (hm : m.WellFormed) (h : m.Refers c target) :
    target < m.classes.size := h.elim hm.hasBase_lt hm.holdsClass_lt

theorem Refers.lt (h : m.Refers c target) : c < m.classes.size := by
  rcases h with ⟨cls, hcls, -⟩ | ⟨cls, -, -, hcls, -⟩ <;>
    exact (Array.getElem?_eq_some_iff.mp hcls).1

/-! ## Nothing but bases is reached from a base -/

/-- A base refers to nothing but its own base. -/
theorem WellFormed.hasBase_of_refers (hm : m.WellFormed) (hbase : m.HasBase c b)
    (h : m.Refers b target) : m.HasBase b target := by
  obtain ⟨cls, hcls, hb⟩ := hbase
  obtain ⟨base, hget, habstract⟩ := (hm.classes c cls hcls).base b hb
  refine h.resolve_right ?_
  rintro ⟨cls', f, -, hcls', hf, -⟩
  obtain rfl : base = cls' := Option.some.inj (hget.symm.trans hcls')
  rw [((hm.classes b base hget).bare habstract).1] at hf
  cases hf

theorem WellFormed.hasBase_of_reaches (hm : m.WellFormed) (hbase : m.HasBase c b)
    (h : TransGen m.Refers b target) : TransGen m.HasBase c target := by
  induction h with
  | single h => exact (TransGen.single hbase).tail (hm.hasBase_of_refers hbase h)
  | tail _ h ih =>
    obtain ⟨_, -, hlast⟩ := TransGen.tail'_iff.mp ih
    exact ih.tail (hm.hasBase_of_refers hlast h)

/-- No class derives from itself. -/
theorem WellFormed.not_derives_self (hm : m.WellFormed) : ¬TransGen m.HasBase c c := by
  intro h
  -- from a class on the cycle there is always another base
  have hon (n : Nat) : ∃ d, (fun c => c.bind m.base?)^[n] (some c) = some d ∧
      TransGen m.HasBase d c := by
    induction n with
    | zero => exact ⟨c, rfl, h⟩
    | succ n ih =>
      obtain ⟨d, hd, hcycle⟩ := ih
      obtain ⟨e, hbase, hrest⟩ := TransGen.head'_iff.mp hcycle
      refine ⟨e, ?_, ?_⟩
      · rw [Function.iterate_succ_apply', hd]
        exact hasBase_iff.mp hbase
      · exact TransGen.trans_right hrest h
  obtain ⟨n, hn⟩ := hm.bases_end c
  obtain ⟨d, hd, -⟩ := hon n
  exact Option.some_ne_none d (hd.symm.trans hn)

/-- A base does not reach the classes that derive from it. -/
theorem WellFormed.not_reaches_of_hasBase (hm : m.WellFormed) (h : m.HasBase c b) :
    ¬TransGen m.Refers b c := fun hreaches => hm.not_derives_self (hm.hasBase_of_reaches h hreaches)

end GrammarModel

namespace DeclarationOrder

variable {m : GrammarModel} {c target : ClassId}

/-- One class comes before another one. -/
def Precedes (order : DeclarationOrder) (b c : ClassId) : Prop := [b, c] <+ order.classes

theorem mem_fieldClasses : target ∈ fieldClasses m c ↔ m.HoldsClass c target := by
  simp only [fieldClasses, List.mem_filterMap, GrammarModel.HoldsClass, GrammarModel.fieldsOf]
  cases m.class? c with
  | none => simp
  | some cls =>
    constructor
    · rintro ⟨fld, hfld, htarget⟩
      obtain ⟨f, hf, hget⟩ := List.mem_filterMap.mp hfld
      refine ⟨cls, f, fld, rfl, hf, hget, ?_⟩
      split at htarget
      next helement => rw [helement, Option.some.inj htarget]
      next => cases htarget
    · rintro ⟨_, f, fld, hcls, hf, hget, helement⟩
      obtain rfl := Option.some.inj hcls
      exact ⟨fld, List.mem_filterMap.mpr ⟨f, hf, hget⟩, by rw [helement]⟩

theorem mem_wanted : target ∈ wanted m c ↔ m.Refers c target := by
  rw [wanted, List.mem_append, mem_fieldClasses, Option.mem_toList]
  exact or_congr GrammarModel.hasBase_iff.symm Iff.rfl

/-! ## The search -/

/-- Whatever one of the classes refers to is behind it in the list, or reaches it; the list has the
latest class first. -/
def InOrder (m : GrammarModel) : List ClassId → Prop
  | [] => True
  | c :: earlier => (∀ target, m.Refers c target → target ∈ earlier ∨ TransGen m.Refers target c) ∧
    InOrder m earlier

/-- A state of the search while it comes down from the `active` classes. -/
structure Visit.Sound (m : GrammarModel) (active : List ClassId) (v : Visit) : Prop where
  reached : ∀ c, v.isReached c = true ↔ m.classes.size ≤ c ∨ c ∈ v.placed ∨ c ∈ active
  inOrder : InOrder m v.placed

/-- The classes that the search comes down from to a class. -/
structure Visit.Active (m : GrammarModel) (active : List ClassId) (c : ClassId) : Prop where
  nodup : active.Nodup
  lt : ∀ a ∈ active, a < m.classes.size
  reaches : ∀ a ∈ active, TransGen m.Refers a c

open Visit

variable {active : List ClassId} {v : Visit}

theorem Visit.Active.length_le (h : Active m active c) : active.length ≤ m.classes.size := by
  have hsub : active ⊆ List.range m.classes.size := fun a ha => List.mem_range.mpr (h.lt a ha)
  simpa using (h.nodup.subperm hsub).length_le

/-- The search goes further down from `c`. -/
theorem Visit.Active.push (h : Active m active c) (hc : c ∉ active) (hlt : c < m.classes.size)
    (hrefers : m.Refers c target) : Active m (c :: active) target where
  nodup := List.nodup_cons.mpr ⟨hc, h.nodup⟩
  lt := List.forall_mem_cons.mpr ⟨hlt, h.lt⟩
  reaches := List.forall_mem_cons.mpr
    ⟨.single hrefers, fun a ha => (h.reaches a ha).tail hrefers⟩

theorem Visit.Sound.mark (h : v.Sound m active) : (v.mark c).Sound m (c :: active) where
  reached other := by
    rw [isReached_mark, h.reached, List.mem_cons]
    change _ ↔ _ ∨ other ∈ v.placed ∨ _
    tauto
  inOrder := h.inOrder

/-- A class that the search is coming down from is placed, once everything it refers to was
reached. -/
theorem Visit.Sound.place (hm : m.WellFormed) (hactive : Active m active c)
    (h : v.Sound m (c :: active)) (hall : ∀ target, m.Refers c target → v.isReached target = true) :
    Visit.Sound m active { v with placed := c :: v.placed } where
  reached other := by
    change v.isReached other = true ↔ _ ∨ other ∈ c :: v.placed ∨ _
    rw [h.reached, List.mem_cons, List.mem_cons]
    tauto
  inOrder := by
    refine ⟨fun target hrefers => ?_, h.inOrder⟩
    rcases (h.reached target).mp (hall target hrefers) with hle | hplaced | hmem
    · exact absurd (hm.refers_lt hrefers) (Nat.not_lt_of_le hle)
    · exact .inl hplaced
    · rcases List.mem_cons.mp hmem with rfl | hmem
      · exact .inr (.single hrefers)
      · exact .inr (hactive.reaches target hmem)

/-- Visits with some depth left reach all their targets, and nothing is forgotten. -/
theorem foldl_visit_reached {depth : Nat} (hdepth : depth ≠ 0) (targets : List ClassId) (v : Visit)
    {c : ClassId} (h : c ∈ targets ∨ v.isReached c = true) :
    (targets.foldl (fun v target => visit m depth target v) v).isReached c = true := by
  induction targets generalizing v with
  | nil => exact h.resolve_left (List.not_mem_nil)
  | cons target rest ih =>
    obtain ⟨new, hplaces, hreached⟩ := visit_places m depth target v
    refine ih _ ?_
    rcases h with hmem | hv
    · rcases List.mem_cons.mp hmem with rfl | hmem
      · exact .inr (hreached hdepth)
      · exact .inl hmem
    · exact .inr ((hplaces.reached c).mpr (.inr hv))

theorem visit_sound (hm : m.WellFormed) {depth : Nat} (hactive : Active m active c)
    (hdepth : m.classes.size < active.length + depth) (h : v.Sound m active) :
    (visit m depth c v).Sound m active := by
  induction depth generalizing active c v with
  | zero => exact absurd hactive.length_le (Nat.not_le_of_lt hdepth)
  | succ depth ih =>
    rw [visit]
    split
    · exact h
    next hfresh =>
    have hnot := mt (h.reached c).mpr hfresh
    simp only [not_or, Nat.not_le] at hnot
    obtain ⟨hlt, -, hinactive⟩ := hnot
    have hdepth' : m.classes.size < (c :: active).length + depth := by
      rw [List.length_cons]
      omega
    have hbelow (targets : List ClassId) (htargets : ∀ target ∈ targets, m.Refers c target)
        (v : Visit) (hv : v.Sound m (c :: active)) :
        (targets.foldl (fun v target => visit m depth target v) v).Sound m (c :: active) := by
      induction targets generalizing v with
      | nil => exact hv
      | cons target rest ihrest =>
        obtain ⟨htarget, hrest⟩ := List.forall_mem_cons.mp htargets
        exact ihrest hrest _ (ih (hactive.push hinactive hlt htarget) hdepth' hv)
    refine (hbelow (wanted m c) (fun target => mem_wanted.mp) _ h.mark).place hm hactive ?_
    intro target hrefers
    have hsome : depth ≠ 0 := by
      have := (hactive.push hinactive hlt hrefers).length_le
      omega
    exact foldl_visit_reached hsome _ _ (.inl (mem_wanted.mpr hrefers))

/-- What a class refers to is behind it in a list of classes in order, or reaches it. -/
theorem InOrder.sublist_or_reaches {placed : List ClassId} (h : InOrder m placed) (hc : c ∈ placed)
    (hrefers : m.Refers c target) : [c, target] <+ placed ∨ TransGen m.Refers target c := by
  induction placed with
  | nil => cases hc
  | cons d earlier ih =>
    rcases List.mem_cons.mp hc with rfl | hc
    · refine (h.1 target hrefers).imp_left fun hmem => ?_
      exact (List.singleton_sublist.mpr hmem).cons_cons c
    · exact (ih h.2 hc).imp_left fun hsub => hsub.cons d

/-- The classes are in order. -/
theorem inOrder_classes (hm : m.WellFormed) : InOrder m (ofModel m).classes.reverse := by
  let initial : Visit := ⟨Array.replicate m.classes.size false, []⟩
  have hinitial : initial.Sound m [] := by
    refine ⟨fun c => ?_, trivial⟩
    simp only [isReached, initial, Array.getD_eq_getD_getElem?, Array.getElem?_replicate]
    split <;> simp_all
  have hall (targets : List ClassId) (v : Visit) (hv : v.Sound m []) :
      (targets.foldl (fun v c => visit m (m.classes.size + 1) c v) v).Sound m [] := by
    induction targets generalizing v with
    | nil => exact hv
    | cons target rest ih =>
      exact ih _ (visit_sound hm ⟨List.nodup_nil, by simp, by simp⟩ (by simp) hv)
  have hfinal := (hall (List.range m.classes.size) initial hinitial).inOrder
  rwa [← List.reverse_reverse (List.foldl _ initial _).placed] at hfinal

/-- What a class refers to comes before it or reaches it. -/
theorem precedes_or_reaches (hm : m.WellFormed) (hrefers : m.Refers c target) :
    (ofModel m).Precedes target c ∨ TransGen m.Refers target c := by
  have hmem : c ∈ (ofModel m).classes.reverse :=
    List.mem_reverse.mpr ((classes_perm_range m).mem_iff.mpr (List.mem_range.mpr hrefers.lt))
  refine ((inOrder_classes hm).sublist_or_reaches hmem hrefers).imp_left fun hsub => ?_
  simpa [Precedes] using hsub.reverse

theorem precedes_of_hasBase (hm : m.WellFormed) (h : m.HasBase c target) :
    (ofModel m).Precedes target c :=
  (precedes_or_reaches hm (.inl h)).resolve_right (hm.not_reaches_of_hasBase h)

/-! ## Announced classes -/

/-- The flags tell which classes of the model are in a list. -/
def Marks (m : GrammarModel) (flags : Array Bool) (cs : List ClassId) : Prop :=
  ∀ c, flags.getD c true = true ↔ m.classes.size ≤ c ∨ c ∈ cs

variable {flags defined announced : Array Bool} {cs before forward rest : List ClassId}

theorem marks_nil (m : GrammarModel) : Marks m (Array.replicate m.classes.size false) [] := by
  intro c
  simp only [Array.getD_eq_getD_getElem?, Array.getElem?_replicate]
  split <;> simp_all

theorem Marks.mark (h : Marks m flags cs) (c : ClassId) :
    Marks m (flags.setIfInBounds c true) (c :: cs) := by
  intro other
  refine (isReached_mark ⟨flags, []⟩ c other).trans ?_
  rw [List.mem_cons, ← or_left_comm]
  exact or_congr_right (h other)

theorem Marks.markAll (h : Marks m flags cs) (new : List ClassId) :
    Marks m (new.foldl (fun flags target => flags.setIfInBounds target true) flags)
      (new ++ cs) := by
  induction new generalizing flags cs with
  | nil => exact h
  | cons target new ih =>
    intro c
    rw [List.foldl_cons, ih (h.mark target) c]
    simp only [List.mem_append, List.mem_cons]
    tauto

/-- The classes `result` are those of `forward` and those that fields of the classes `rest` hold
before they are defined; `before` are the classes defined already, latest first. -/
structure Announces (m : GrammarModel) (before rest forward result : List ClassId) : Prop where
  nodup : result.Nodup
  keeps : forward ⊆ result
  late : ∀ target ∈ result, target ∈ forward ∨ ∃ c, m.HoldsClass c target ∧ target ≠ c ∧
    ¬[target, c] <+ before.reverse ++ rest
  covers : ∀ c ∈ rest, ∀ target, m.HoldsClass c target → target = c ∨
    [target, c] <+ before.reverse ++ rest ∨ target ∈ result

theorem mem_of_pair_sublist {before rest : List ClassId} (hnodup : (before ++ c :: rest).Nodup)
    (h : [target, c] <+ before ++ c :: rest) : target ∈ before := by
  obtain ⟨front, back, hpair, hfront, hback⟩ := List.sublist_append_iff.mp h
  cases front with
  | nil =>
    obtain rfl : [target, c] = back := hpair
    have hmem : c ∈ rest := List.singleton_sublist.mp hback.tail
    exact absurd hmem (List.nodup_cons.mp (List.nodup_append.mp hnodup).2.1).1
  | cons other front =>
    obtain ⟨rfl, -⟩ := List.cons_eq_cons.mp hpair
    exact hfront.subset List.mem_cons_self

theorem missing_announces (hm : m.WellFormed) (hnodup : (before.reverse ++ rest).Nodup)
    (hdefined : Marks m defined before) (hannounced : Marks m announced forward)
    (hforward : forward.Nodup) :
    Announces m before rest forward (missing m defined announced forward rest) := by
  induction rest generalizing defined announced before forward with
  | nil => exact ⟨hforward, List.Subset.refl _, fun target h => .inl h, by simp⟩
  | cons c rest ih =>
    rw [missing]
    have hnew (target : ClassId) : target ∈ ((fieldClasses m c).filter fun target =>
        target != c && !defined.getD target true && !announced.getD target true).eraseDups ↔
          m.HoldsClass c target ∧ target ≠ c ∧ target ∉ before ∧ target ∉ forward := by
      rw [List.mem_eraseDups, List.mem_filter, mem_fieldClasses]
      refine and_congr_right fun hholds => ?_
      have hlt := Nat.not_le_of_lt (hm.holdsClass_lt hholds)
      have hbefore := hdefined target
      have hforward := hannounced target
      simp only [hlt, false_or] at hbefore hforward
      simp [← hbefore, ← hforward, and_assoc]
    have hnodupNew := nodup_eraseDups ((fieldClasses m c).filter fun target =>
      target != c && !defined.getD target true && !announced.getD target true)
    generalize ((fieldClasses m c).filter fun target =>
      target != c && !defined.getD target true && !announced.getD target true).eraseDups = new
      at hnew hnodupNew ⊢
    have hsplit : before.reverse ++ c :: rest = (c :: before).reverse ++ rest := by simp
    obtain ⟨hresult, hkeeps, hlate, hcovers⟩ := ih (hsplit ▸ hnodup) (hdefined.mark c)
      (hannounced.markAll new) (List.nodup_append.mpr ⟨hnodupNew, hforward, by
        rintro target htarget _ hmem rfl
        exact ((hnew target).mp htarget).2.2.2 hmem⟩)
    rw [← hsplit] at hlate hcovers
    refine ⟨hresult, fun target hmem => hkeeps (List.mem_append_right _ hmem),
      fun target hmem => ?_, List.forall_mem_cons.mpr ⟨fun target hholds => ?_, hcovers⟩⟩
    · rcases hlate target hmem with hmem | hlate
      · rcases List.mem_append.mp hmem with hmem | hmem
        · obtain ⟨hholds, hne, hlate, -⟩ := (hnew target).mp hmem
          refine .inr ⟨c, hholds, hne, fun hsub => hlate ?_⟩
          exact List.mem_reverse.mp (mem_of_pair_sublist hnodup hsub)
        · exact .inl hmem
      · exact .inr hlate
    · by_cases hbefore : target ∈ before
      · refine .inr (.inl ?_)
        exact (List.singleton_sublist.mpr (List.mem_reverse.mpr hbefore)).append
          (List.singleton_sublist.mpr List.mem_cons_self)
      · by_cases hforward : target ∈ forward
        · exact .inr (.inr (hkeeps (List.mem_append_right _ hforward)))
        · by_cases hself : target = c
          · exact .inl hself
          · exact .inr (.inr (hkeeps (List.mem_append_left _
              ((hnew target).mpr ⟨hholds, hself, hbefore, hforward⟩))))

/-! ## Declared before used -/

theorem pair_sublist_trans (hnodup : cs.Nodup) {a b c : ClassId} (h : [a, b] <+ cs)
    (h' : [b, c] <+ cs) : [a, c] <+ cs := by
  induction cs with
  | nil => cases h
  | cons d rest ih =>
    obtain ⟨hd, hnodup⟩ := List.nodup_cons.mp hnodup
    have hb : b ∈ rest := List.singleton_sublist.mp h.tail
    have hbc : [b, c] <+ rest := by
      refine (List.sublist_cons_iff.mp h').resolve_right ?_
      rintro ⟨_, heq, -⟩
      exact hd ((List.cons_eq_cons.mp heq).1 ▸ hb)
    rcases List.sublist_cons_iff.mp h with hab | ⟨_, heq, -⟩
    · exact (ih hnodup hab hbc).cons d
    · obtain ⟨rfl, -⟩ := List.cons_eq_cons.mp heq
      exact (List.singleton_sublist.mpr (hbc.subset (by simp))).cons_cons a

/-- A header declares the classes of a model before it uses them. -/
structure DeclaresFirst (m : GrammarModel) (order : DeclarationOrder) : Prop where
  /-- Every class is declared just once. -/
  classes_perm : order.classes.Perm (List.range m.classes.size)
  /-- Every base comes before all classes that derive from it, over other bases or not. -/
  bases : ∀ c base, TransGen m.HasBase c base → order.Precedes base c
  /-- The class of a field is the class that has the field, comes before it or is announced. -/
  fields : ∀ c target, m.HoldsClass c target →
    target = c ∨ order.Precedes target c ∨ target ∈ order.forward
  /-- No class is announced twice. -/
  forward_nodup : order.forward.Nodup
  /-- Only classes from which references lead back to them are announced. -/
  forward_cyclic : ∀ c ∈ order.forward, TransGen m.Refers c c
  /-- Where references do not run in a cycle no class is announced, and all classes come before
  those that refer to them. -/
  acyclic : (∀ c, ¬TransGen m.Refers c c) →
    order.forward = [] ∧ ∀ c target, m.Refers c target → order.Precedes target c

theorem ofModel_declaresFirst (hm : m.WellFormed) : DeclaresFirst m (ofModel m) := by
  have hperm := classes_perm_range m
  have hnodup : (ofModel m).classes.Nodup := hperm.nodup_iff.mpr List.nodup_range
  have hforward : (ofModel m).forward.Perm (missing m (Array.replicate m.classes.size false)
      (Array.replicate m.classes.size false) [] (ofModel m).classes) := List.mergeSort_perm ..
  have hannounces : Announces m [] (ofModel m).classes [] _ :=
    missing_announces hm hnodup (marks_nil m) (marks_nil m) List.nodup_nil
  have hcyclic : ∀ c ∈ (ofModel m).forward, TransGen m.Refers c c := by
    intro target hmem
    rcases hannounces.late target (hforward.mem_iff.mp hmem) with hnone | ⟨c, hholds, -, hlate⟩
    · cases hnone
    · exact ((precedes_or_reaches hm (.inr hholds)).resolve_left hlate).tail (.inr hholds)
  refine ⟨hperm, fun c base h => ?_, fun c target hholds => ?_,
    hforward.nodup_iff.mpr hannounces.nodup, hcyclic,
    fun hacyclic => ⟨?_, fun c target hrefers => ?_⟩⟩
  · induction h with
    | single h => exact precedes_of_hasBase hm h
    | tail _ h ih => exact pair_sublist_trans hnodup (precedes_of_hasBase hm h) ih
  · have hc : c ∈ (ofModel m).classes :=
      hperm.mem_iff.mpr (List.mem_range.mpr (GrammarModel.Refers.lt (.inr hholds)))
    refine (hannounces.covers c hc target hholds).imp_right (Or.imp_right hforward.mem_iff.mpr)
  · exact List.eq_nil_iff_forall_not_mem.mpr fun c hc => hacyclic c (hcyclic c hc)
  · refine (precedes_or_reaches hm hrefers).resolve_right fun hreaches => ?_
    exact hacyclic target (hreaches.tail hrefers)

end DeclarationOrder

namespace GenerationOptions

open DeclarationOrder

/-- The header that is generated for a grammar declares classes before it uses them, as far as
references do not run in a cycle; classes on a cycle are announced. -/
theorem frontEnd_declaresFirst {o : GenerationOptions} {source : List Char} {m : GrammarModel}
    (h : (o.frontEnd source).result = .ok m) : DeclaresFirst m (DeclarationOrder.ofModel m) := by
  obtain ⟨tokens, -, grammar, hgrammar, hmodel⟩ := frontEnd_eq_ok.mp h
  exact ofModel_declaresFirst
    (Grammar.buildModel_wellFormed (TokenStream.isParsed_of_parse hgrammar) hmodel)

/-- Two classes that hold each other, one of them with a base that another class has too. -/
theorem frontEnd_declaresFirst_cycle : ∃ (o : GenerationOptions) (m : GrammarModel),
    (o.frontEnd
      "@class(S)S=N@field(t)T?;@class(T)T='t'@field(s)S;N=T|P;@class(P)P='p';".toList).result =
        .ok m ∧
      DeclarationOrder.ofModel m = ⟨[2, 1, 0, 3], [0]⟩ ∧
      DeclaresFirst m (DeclarationOrder.ofModel m) := by
  obtain ⟨m, hm, horder⟩ : ∃ m, (frontEnd ⟨default, "sample", false, default⟩
      "@class(S)S=N@field(t)T?;@class(T)T='t'@field(s)S;N=T|P;@class(P)P='p';".toList).result =
        .ok m ∧ DeclarationOrder.ofModel m = ⟨[2, 1, 0, 3], [0]⟩ :=
    Outcome.exists_of_map DeclarationOrder.ofModel (by decide +kernel)
  exact ⟨_, m, hm, horder, frontEnd_declaresFirst hm⟩

end GenerationOptions
end AnnotatedGrammar
