import AnnotatedGrammar.Proofs.Syntax.Numbered
import AnnotatedGrammar.Proofs.Syntax.Written

/-!
# The markers of a written grammar

Which expression a marker belongs to depends on where it is written. None gets lost on the way and
none is doubled: taken together, the rules and expressions of a grammar carry every written marker
once, and each of them carries its own in the order in which they are written.
-/

namespace AnnotatedGrammar

namespace Expr

/-- The markers of an expression and of everything inside it, expression by expression. -/
def markerLists (e : Expr) : List (List Marker) := e.preorder.map markers

/-- The markers of everything inside an expression, itself excluded. -/
def innerLists (e : Expr) : List (List Marker) := e.children.flatMap markerLists

theorem map_markers_preorderAll (es : List Expr) :
    (preorderAll es).map markers = es.flatMap markerLists := by
  induction es with
  | nil => rfl
  | cons e es ih => simp [preorderAll, ih, markerLists]

theorem markerLists_eq (e : Expr) : e.markerLists = e.markers :: e.innerLists := by
  cases e <;>
    simp [markerLists, innerLists, preorder, children, map_markers_preorderAll, markers, info]

@[simp] theorem markers_withMarkersBefore (e : Expr) (ms : List Marker) :
    (e.withMarkersBefore ms).markers = ms ++ e.markers := by
  cases e <;> rfl

@[simp] theorem markers_withMarkersAfter (e : Expr) (ms : List Marker) :
    (e.withMarkersAfter ms).markers = e.markers ++ ms := by
  cases e <;> rfl

@[simp] theorem innerLists_withMarkersBefore (e : Expr) (ms : List Marker) :
    (e.withMarkersBefore ms).innerLists = e.innerLists := by
  cases e <;> rfl

@[simp] theorem innerLists_withMarkersAfter (e : Expr) (ms : List Marker) :
    (e.withMarkersAfter ms).innerLists = e.innerLists := by
  cases e <;> rfl

/-- Numbering leaves the markers alone. -/
theorem markerLists_numbered :
    (∀ (next : NodeId) (e : Expr), (numbered next e).1.markerLists = e.markerLists) ∧
      ∀ (next : NodeId) (es : List Expr),
        (numberedAll next es).1.flatMap markerLists = es.flatMap markerLists := by
  apply numbered.mutual_induct
  case case1 | case2 =>
    intro next info _
    rfl
  case case3 | case4 =>
    intro next info items renumbered after heq ih
    rw [heq] at ih
    rw [numbered, heq, markerLists_eq, markerLists_eq]
    exact congrArg _ ih
  case case5 | case7 =>
    intro next info body renumbered after heq ih
    rw [heq] at ih
    rw [numbered, heq, markerLists_eq, markerLists_eq]
    simp only [innerLists, children, List.flatMap_singleton]
    exact congrArg _ ih
  case case6 =>
    intro next info body kind renumbered after heq ih
    rw [heq] at ih
    rw [numbered, heq, markerLists_eq, markerLists_eq]
    simp only [innerLists, children, List.flatMap_singleton]
    exact congrArg _ ih
  case case8 =>
    intro next
    rfl
  case case9 =>
    intro next e rest renumbered between heq others after heq' ih ih'
    rw [heq] at ih
    rw [heq'] at ih'
    rw [numberedAll, heq]
    dsimp only
    rw [heq', List.flatMap_cons, List.flatMap_cons, ih, ih']

end Expr

/-- The markers of a rule and of the expressions in its body. -/
def Rule.markerLists (r : Rule) : List (List Marker) := r.markers :: r.body.markerLists

/-- The markers of the rules and expressions of a grammar. -/
def Grammar.markerLists (g : Grammar) : List (List Marker) :=
  g.rules.toList.flatMap Rule.markerLists

theorem Rule.markerLists_numberedAll (finished : List Rule) (next : NodeId) (rules : List Rule) :
    (numberedAll finished next rules).1.flatMap markerLists =
      finished.reverse.flatMap markerLists ++ rules.flatMap markerLists := by
  have hmap := map_numberedAll markerLists
    (fun rule next => congrArg (rule.markers :: ·) (Expr.markerLists_numbered.1 next rule.body))
    finished rules next
  rw [List.flatMap_def, hmap, List.flatten_append, ← List.flatMap_def, ← List.flatMap_def]

theorem Grammar.markerLists_ofParts (directives : List Directive) (rules : List Rule) :
    (ofParts directives rules).markerLists = rules.flatMap Rule.markerLists := by
  simp [ofParts, markerLists, Rule.markerLists_numberedAll]

namespace Written

/-- Several lists hold every written marker once and keep the order of the text. -/
structure Accounts (lists : List (List Marker)) (marks : List Mark) : Prop where
  perm : lists.flatten.Perm (marks.map Mark.marker)
  sublist : ∀ ms ∈ lists, ms.Sublist (marks.map Mark.marker)

namespace Accounts

variable {lists lists' : List (List Marker)} {marks marks' : List Mark} {ms : List Marker}

theorem nil : Accounts [] [] := ⟨.refl _, by simp⟩

theorem consNil (h : Accounts lists marks) : Accounts ([] :: lists) marks :=
  ⟨h.perm, List.forall_mem_cons.mpr ⟨List.nil_sublist _, h.sublist⟩⟩

theorem append (h : Accounts lists marks) (h' : Accounts lists' marks') :
    Accounts (lists ++ lists') (marks ++ marks') := by
  refine ⟨?_, fun ms hms => ?_⟩
  · rw [List.flatten_append, List.map_append]
    exact h.perm.append h'.perm
  · rw [List.map_append]
    rcases List.mem_append.mp hms with hms | hms
    · exact (h.sublist ms hms).trans (List.sublist_append_left _ _)
    · exact (h'.sublist ms hms).trans (List.sublist_append_right _ _)

theorem flatMap {β : Type} {xs : List β} {f : β → List (List Marker)} {g : β → List Mark}
    (h : ∀ x ∈ xs, Accounts (f x) (g x)) : Accounts (xs.flatMap f) (xs.flatMap g) := by
  induction xs with
  | nil => exact nil
  | cons x xs ih =>
    obtain ⟨hx, hxs⟩ := List.forall_mem_cons.mp h
    exact hx.append (ih hxs)

/-- One more list, of markers written in front of the others and behind them. -/
theorem around (h : Accounts lists marks) (front behind : List Mark) :
    Accounts ((front.map Mark.marker ++ behind.map Mark.marker) :: lists)
      (front ++ (marks ++ behind)) := by
  refine ⟨?_, List.forall_mem_cons.mpr ⟨?_, fun ms hms => ?_⟩⟩
  · simp only [List.flatten_cons, List.map_append, List.append_assoc]
    exact (List.perm_append_comm.trans (h.perm.append_right _)).append_left _
  · simp only [List.map_append]
    exact (List.sublist_append_right _ _).append_left _
  · simp only [List.map_append]
    exact ((h.sublist ms hms).trans (List.sublist_append_left _ _)).trans
      (List.sublist_append_right _ _)

/-- A first list can be shared out between two. -/
theorem share (h : Accounts ((ms ++ ms') :: lists) marks) (p : Marker → Bool) :
    Accounts (ms.filter p :: (ms.filter (fun m => !p m) ++ ms') :: lists) marks := by
  obtain ⟨hfirst, hlists⟩ := List.forall_mem_cons.mp h.sublist
  refine ⟨?_, List.forall_mem_cons.mpr ⟨?_, List.forall_mem_cons.mpr ⟨?_, hlists⟩⟩⟩
  · refine List.Perm.trans ?_ h.perm
    simp only [List.flatten_cons, ← List.append_assoc]
    exact ((List.filter_append_perm p ms).append_right _).append_right _
  · exact (List.filter_sublist.trans (List.sublist_append_left _ _)).trans hfirst
  · exact (List.filter_sublist.append_right _).trans hfirst

end Accounts

/-- The expression of a phrase carries the markers of the phrase. -/
class AccountedPhrase (α : Type) [Phrase α] : Prop where
  accounts : ∀ x : α, Accounts (Phrase.expr x).markerLists (Phrase.marks x)

variable {α : Type} [Phrase α] [AccountedPhrase α]

theorem Primary.accounts (c : Primary α) :
    c.expr.markers = [] ∧ Accounts c.expr.innerLists c.marks := by
  cases c with
  | reference name => exact ⟨rfl, .nil⟩
  | terminal t => exact ⟨rfl, .nil⟩
  | group opening body closing =>
    refine ⟨rfl, ?_⟩
    simp only [expr, Expr.innerLists, Expr.children, List.flatMap_singleton]
    exact AccountedPhrase.accounts body

theorem Operator.accounts_applyAll {start : Span} {e : Expr} {marks : List Mark}
    (ops : List (Located Operator)) (hmarkers : e.markers = []) (h : Accounts e.innerLists marks) :
    (applyAll start e ops).markers = [] ∧ Accounts (applyAll start e ops).innerLists marks := by
  induction ops generalizing e with
  | nil => exact ⟨hmarkers, h⟩
  | cons op ops ih =>
    have hlists : (op.value.apply ⟨0, [], start.merge op.span⟩ e).innerLists = e.markerLists := by
      cases op.value <;> simp [apply, Expr.innerLists, Expr.children]
    have hnone : (op.value.apply ⟨0, [], start.merge op.span⟩ e).markers = [] := by
      cases op.value <;> rfl
    rw [Expr.markerLists_eq, hmarkers] at hlists
    exact ih hnone (hlists ▸ h.consNil)

theorem Element.markers_expr (e : Element α) (start : Span) :
    (e.expr start).markers = e.behind.map Mark.marker := by
  obtain ⟨hmarkers, hinner⟩ := e.core.accounts
  rw [expr, Expr.markers_withMarkersAfter,
    (Operator.accounts_applyAll e.operators hmarkers hinner).1, List.nil_append]

theorem Element.accounts_inner (e : Element α) (start : Span) :
    Accounts (e.expr start).innerLists e.core.marks := by
  obtain ⟨hmarkers, hinner⟩ := e.core.accounts
  rw [expr, Expr.innerLists_withMarkersAfter]
  exact (Operator.accounts_applyAll e.operators hmarkers hinner).2

theorem Element.accounts (e : Element α) (start : Span) :
    Accounts (e.expr start).markerLists e.marks := by
  rw [Expr.markerLists_eq, e.markers_expr]
  exact (e.accounts_inner start).around [] e.behind

/-- An element takes the markers in front of it. -/
theorem Element.accounts_opened (opening : List Mark) (e : Element α) (start : Span) :
    Accounts ((e.expr start).withMarkersBefore (opening.map Mark.marker)).markerLists
      (opening ++ e.marks) := by
  rw [Expr.markerLists_eq, Expr.markers_withMarkersBefore, Expr.innerLists_withMarkersBefore,
    e.markers_expr]
  exact (e.accounts_inner start).around opening e.behind

theorem Sequence.accounts (s : Sequence α) : Accounts s.expr.markerLists s.marks := by
  have hfirst := s.first.accounts_opened s.opening (startOf s.tokens)
  have hmarks : s.marks = s.opening ++ s.first.marks ++ s.others.flatMap Element.marks := by
    rw [marks, elements, List.flatMap_cons, List.append_assoc]
  obtain ⟨opening, first, others⟩ := s
  rw [hmarks]
  cases others with
  | nil => simpa [expr] using hfirst
  | cons second others =>
    have hothers : Accounts
        ((second :: others).flatMap fun e => (e.expr (startOf e.tokens)).markerLists)
        ((second :: others).flatMap Element.marks) :=
      .flatMap fun e _ => e.accounts _
    rw [Expr.markerLists_eq, Expr.markers_withMarkersBefore, Expr.innerLists_withMarkersBefore]
      at hfirst
    have hshared := (hfirst.share fun m => decide (DescribesSequence m)).append hothers
    rw [expr, Expr.markerLists_eq, Expr.innerLists, Expr.children, List.flatMap_cons,
      List.flatMap_map, Expr.markerLists_eq, Expr.markers_withMarkersBefore,
      Expr.innerLists_withMarkersBefore]
    simpa [Expr.markers, Expr.info] using hshared

theorem accounts_branches (branches : List (Sequence α)) :
    Accounts ((branches.map Sequence.expr).flatMap Expr.markerLists)
      (branches.flatMap Sequence.marks) := by
  rw [List.flatMap_map]
  exact .flatMap fun s _ => s.accounts

instance Alternation.instAccountedPhrase : AccountedPhrase (Alternation α) where
  accounts a := by
    obtain ⟨first, others⟩ := a
    cases others with
    | nil => simpa [Phrase.expr, Phrase.marks, branches] using first.accounts
    | cons second others =>
      have hbranches := accounts_branches (first :: (second :: others).map Prod.snd)
      simp only [Phrase.expr, Phrase.marks]
      rw [Expr.markerLists_eq]
      exact hbranches.consNil

instance Body.instAccountedPhrase : (depth : Nat) → AccountedPhrase (Body depth)
  | 0 => ⟨fun x => x.elim⟩
  | depth + 1 =>
    have := Body.instAccountedPhrase depth
    inferInstanceAs (AccountedPhrase (Alternation (Body depth)))

theorem Rule.accounts (r : Rule) : Accounts r.rule.markerLists r.marks := by
  have hbody := (AccountedPhrase.accounts r.body).around (r.before ++ r.behind) []
  simpa [AnnotatedGrammar.Rule.markerLists, rule, marks] using hbody

/-- A grammar carries every written marker once, and in order. -/
theorem Text.accounts (text : Text) : Accounts text.grammar.markerLists text.marks := by
  rw [grammar, Grammar.markerLists_ofParts, marks]
  induction text with
  | nil => exact .nil
  | cons i text ih =>
    cases i with
    | directive d => exact ih
    | rule r => exact r.accounts.append ih

end Written

end AnnotatedGrammar
