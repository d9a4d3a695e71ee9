import AnnotatedGrammar.Proofs.Syntax.Recognition
import AnnotatedGrammar.Proofs.Syntax.Shaped

/-!
# Flat rule bodies

A rule body is flat if all it does is list alternatives, each of them a leaf or a row of leaves. Of
the markers that may stand in front of a row the parser leaves only those on the row which describe
it as a whole; where a body states neither classes nor types, its rows are unmarked.
-/

namespace AnnotatedGrammar

open Written (DescribesSequence)

namespace Expr

/-- Whether the expression is a literal, a pattern or a name. -/
def isLeaf : Expr → Bool
  | terminal _ _ | reference _ _ => true
  | _ => false

/-- What stands in a row: the items of a sequence, or else the expression alone. -/
def row : Expr → List Expr
  | sequence _ items => items
  | e => [e]

/-- What there is to choose from: the branches of an alternation, or else the expression alone. -/
def alternatives : Expr → List Expr
  | alternation _ branches => branches
  | e => [e]

/-- Whether the expression lists alternatives that are rows of leaves, and nothing in it carries
`@class` or `@type`. -/
def isFlat (body : Expr) : Bool :=
  (body.alternatives.all fun e => e.row.all isLeaf) &&
    body.preorder.all fun e => !e.hasMarker .classOf && !e.hasMarker .typeOf

/-- A leaf that carries no class. -/
structure IsPlainLeaf (e : Expr) : Prop where
  isLeaf : e.isLeaf = true
  noClass : e.hasMarker .classOf = false

theorem IsPlainLeaf.row_eq {e : Expr} (h : e.IsPlainLeaf) : e.row = [e] := by
  cases e with
  | sequence info items => cases h.isLeaf
  | _ => rfl

/-- A row of leaves of which none carries a class; all markers are on the leaves. -/
structure IsRow (e : Expr) : Prop where
  leaves : ∀ item ∈ e.row, item.IsPlainLeaf
  isUnmarked : ∀ info items, e = sequence info items → info.markers = []

/-- A row is a leaf, or a sequence of leaves without markers on it. -/
theorem IsRow.cases {e : Expr} (h : e.IsRow) :
    e.IsPlainLeaf ∨ ∃ info items, e = sequence info items ∧ info.markers = [] ∧
      ∀ item ∈ items, item.IsPlainLeaf := by
  cases e with
  | sequence info items => exact .inr ⟨info, items, rfl, h.isUnmarked info items rfl, h.leaves⟩
  | _ => exact .inl (h.leaves _ (List.mem_singleton_self _))

theorem IsRow.core_eq {e : Expr} (h : e.IsRow) : e.core = e := by
  cases e with
  | group info body => cases (h.leaves _ (List.mem_singleton_self _)).isLeaf
  | _ => rfl

theorem IsRow.isAlternation_eq {e : Expr} (h : e.IsRow) : e.isAlternation = false := by
  cases e with
  | alternation info branches => cases (h.leaves _ (List.mem_singleton_self _)).isLeaf
  | _ => rfl

theorem IsRow.noClass {e : Expr} (h : e.IsRow) : e.hasMarker .classOf = false := by
  rcases h.cases with hleaf | ⟨info, items, rfl, hmarkers, -⟩
  · exact hleaf.noClass
  · simp [hasMarker, marker?, markers, Expr.info, hmarkers]

/-- If all alternatives are rows, there are several or the expression is a row itself. -/
theorem alternatives_cases {body : Expr} (h : ∀ e ∈ body.alternatives, e.IsRow) :
    (∃ info branches, body = alternation info branches ∧ ∀ e ∈ branches, e.IsRow) ∨
      body.alternatives = [body] ∧ body.IsRow := by
  cases body with
  | alternation info branches => exact .inl ⟨info, branches, rfl, h⟩
  | _ => exact .inr ⟨rfl, h _ (List.mem_singleton_self _)⟩

theorem row_subset_preorder (e : Expr) : e.row ⊆ e.preorder := by
  intro item hitem
  cases e with
  | sequence info items =>
    exact List.mem_cons_of_mem _ (mem_preorderAll.mpr ⟨item, hitem, item.self_mem_preorder⟩)
  | _ =>
    obtain rfl := List.mem_singleton.mp hitem
    exact self_mem_preorder _

theorem preorder_subset_of_mem_alternatives {body e : Expr} (h : e ∈ body.alternatives) :
    e.preorder ⊆ body.preorder := by
  cases body with
  | alternation info branches =>
    intro x hx
    exact List.mem_cons_of_mem _ (mem_preorderAll.mpr ⟨e, h, hx⟩)
  | _ =>
    obtain rfl := List.mem_singleton.mp h
    exact List.Subset.refl _

theorem hasMarker_of_mem {e : Expr} {m : Marker} {key : MarkerKey} (h : m ∈ e.markers)
    (hkey : m.key = key.word) : e.hasMarker key = true := by
  rw [hasMarker, marker?, List.find?_isSome]
  exact ⟨m, h, beq_iff_eq.mpr hkey⟩

/-- The markers on the sequences among the alternatives describe these as a whole. -/
def RowsDescribed (body : Expr) : Prop :=
  ∀ info items, sequence info items ∈ body.alternatives → ∀ m ∈ info.markers, DescribesSequence m

/-- The alternatives of a flat body are rows, if the markers on sequences describe these. -/
theorem RowsDescribed.isRow {body : Expr} (h : body.RowsDescribed) (hflat : body.isFlat = true) :
    ∀ e ∈ body.alternatives, e.IsRow := by
  simp only [isFlat, Bool.and_eq_true, List.all_eq_true, Bool.not_eq_true'] at hflat
  obtain ⟨hleaves, hplain⟩ := hflat
  intro e he
  have hinside := preorder_subset_of_mem_alternatives he
  refine ⟨fun item hitem => ⟨hleaves e he item hitem, ?_⟩, ?_⟩
  · exact (hplain item (hinside (e.row_subset_preorder hitem))).1
  · rintro info items rfl
    obtain ⟨hclass, htype⟩ := hplain _ (hinside (self_mem_preorder _))
    refine List.eq_nil_iff_forall_not_mem.mpr fun m hm => ?_
    rcases h info items he m hm with hkey | hkey
    · exact Bool.false_ne_true (hclass.symm.trans (hasMarker_of_mem hm hkey))
    · exact Bool.false_ne_true (htype.symm.trans (hasMarker_of_mem hm hkey))

/-- Numbering keeps the markers on sequences. -/
theorem RowsDescribed.numbered {body : Expr} (h : body.RowsDescribed) (next : NodeId) :
    (Expr.numbered next body).1.RowsDescribed := by
  have halternatives : ∀ e ∈ (Expr.numbered next body).1.alternatives,
      ∃ x ∈ body.alternatives, ∃ id, e = (Expr.numbered id x).1 := by
    intro e he
    cases body with
    | alternation info branches =>
      rw [Expr.numbered] at he
      exact mem_numberedAll he
    | _ =>
      refine ⟨_, List.mem_singleton_self _, next, ?_⟩
      rw [Expr.numbered] at he ⊢
      exact List.mem_singleton.mp he
  intro info items he m hm
  obtain ⟨x, hx, id, heq⟩ := halternatives _ he
  cases x with
  | sequence info' items' =>
    rw [Expr.numbered] at heq
    cases heq
    exact h info' items' hx m hm
  | _ =>
    rw [Expr.numbered] at heq
    cases heq

/-- Whether the expression can be an element of a sequence without parentheses around it. -/
def isElement : Expr → Bool
  | sequence _ _ | alternation _ _ => false
  | _ => true

theorem isElement_withInfo (e : Expr) (info : NodeInfo) :
    (e.withInfo info).isElement = e.isElement := by
  cases e <;> rfl

end Expr

/-! ## Written bodies -/

namespace Written

open AnnotatedGrammar.Expr

variable {α : Type} [Phrase α]

theorem Operator.isElement_applyAll (start : Span) {e : Expr} (h : e.isElement = true)
    (ops : List (Located Operator)) : (applyAll start e ops).isElement = true := by
  unfold applyAll
  induction ops generalizing e with
  | nil => exact h
  | cons op ops ih =>
    refine ih ?_
    obtain ⟨_ | kind, span⟩ := op <;> rfl

theorem Element.isElement_expr (e : Element α) (start : Span) :
    (e.expr start).isElement = true := by
  rw [Element.expr, withMarkersAfter, isElement_withInfo]
  refine Operator.isElement_applyAll start ?_ e.operators
  cases e.core <;> rfl

/-- A written sequence stands for its one element, or for a sequence on which no markers stand but
those that describe it. -/
theorem Sequence.expr_cases (s : Sequence α) :
    s.expr.isElement = true ∨ ∃ info items, s.expr = .sequence info items ∧
      ∀ m ∈ info.markers, DescribesSequence m := by
  obtain ⟨opening, first, others⟩ := s
  cases others with
  | nil =>
    left
    simp only [Sequence.expr, withMarkersBefore, isElement_withInfo]
    exact first.isElement_expr _
  | cons second others =>
    right
    refine ⟨_, _, rfl, fun m hm => ?_⟩
    exact of_decide_eq_true (List.mem_filter.mp hm).2

theorem Sequence.describesSequence {s : Sequence α} {info : NodeInfo} {items : List Expr}
    (h : s.expr = .sequence info items) : ∀ m ∈ info.markers, DescribesSequence m := by
  rcases s.expr_cases with helement | ⟨info', items', hsequence, hmarkers⟩
  · rw [h] at helement
    cases helement
  · cases h.symm.trans hsequence
    exact hmarkers

theorem Alternation.rowsDescribed_expr (a : Alternation α) :
    (Phrase.expr a : Expr).RowsDescribed := by
  obtain ⟨first, others⟩ := a
  intro info items he
  cases others with
  | nil =>
    have hexpr : Phrase.expr (⟨first, []⟩ : Alternation α) = first.expr := rfl
    rw [hexpr] at he
    -- a single alternative is no alternation, so it is its own only alternative
    have halone : first.expr.alternatives = [first.expr] := by
      rcases first.expr_cases with helement | ⟨info', items', hsequence, -⟩
      · revert helement
        cases first.expr <;> simp [alternatives, isElement]
      · rw [hsequence]
        rfl
    rw [halone] at he
    exact Sequence.describesSequence (List.mem_singleton.mp he).symm
  | cons other others =>
    obtain ⟨s, -, hs⟩ := List.mem_map.mp he
    exact Sequence.describesSequence hs

end Written

/-! ## Parsed bodies -/

namespace TokenStream

variable {preferences : ParsePreferences} {s : TokenStream} {grammar : Grammar} {rule : Rule}

/-- Every rule of a parsed grammar was written down; its body has got numbers. -/
theorem exists_written_of_parse (h : (s.parse preferences).result = .ok grammar)
    (hrule : rule ∈ grammar.rules.toList) : ∃ (w : Written.Rule) (next : NodeId),
      rule.body = (Expr.numbered next (Written.Phrase.expr w.body)).1 := by
  obtain ⟨herrors, -, rfl⟩ := result_eq_ok.mp h
  obtain ⟨text, t, -, -, -, hrun⟩ := ParseState.run_sound herrors
  rw [parse, hrun] at hrule
  rcases Rule.mem_numberedAll hrule with hdone | ⟨r, hr, next, hbody⟩
  · cases hdone
  · have hwritten : r ∈ text.filterMap Written.Item.rule? := by
      simpa [ParseState.behind, ParseState.initial] using hr
    obtain ⟨item, -, hitem⟩ := List.mem_filterMap.mp hwritten
    cases item with
    | directive d => cases hitem
    | rule w =>
      cases hitem
      exact ⟨w, next, hbody⟩

/-- The alternatives of a flat body of a parsed grammar are rows. -/
theorem isRow_of_parse (h : (s.parse preferences).result = .ok grammar)
    (hrule : rule ∈ grammar.rules.toList) (hflat : rule.body.isFlat = true) :
    ∀ e ∈ rule.body.alternatives, e.IsRow := by
  obtain ⟨w, next, hbody⟩ := exists_written_of_parse h hrule
  refine Expr.RowsDescribed.isRow ?_ hflat
  rw [hbody]
  exact (Written.Alternation.rowsDescribed_expr w.body).numbered next

end TokenStream
end AnnotatedGrammar
