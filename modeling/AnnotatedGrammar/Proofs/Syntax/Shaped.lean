import AnnotatedGrammar.Proofs.Syntax.Numbered
import AnnotatedGrammar.Syntax.Parse

/-!
# The shape of parsed expressions

The parser makes an alternation out of at least two sequences or elements and puts no markers on it;
those are written on the parentheses around it or on its branches. Numbering keeps this.
-/

namespace AnnotatedGrammar

namespace Expr

/-- Whether the expression is an alternation without parentheses around it. -/
def isAlternation : Expr → Bool
  | alternation _ _ => true
  | _ => false

/-- An alternation carries no markers, and it has branches, none of which is an alternation. -/
structure IsShaped (e : Expr) : Prop where
  isUnmarked : ∀ info branches, e = alternation info branches → info.markers = []
  hasBranches : ∀ info branches, e = alternation info branches → branches ≠ []
  isAlternation_eq : ∀ info branches, e = alternation info branches →
    ∀ b ∈ branches, b.isAlternation = false

/-- All alternations in the expression are as the parser makes them. -/
def Shaped (e : Expr) : Prop := e.Throughout IsShaped

/-- A branch of an alternation, or an element of a sequence. -/
structure IsBranch (e : Expr) : Prop where
  shaped : e.Shaped
  isAlternation_eq : e.isAlternation = false

theorem IsShaped.of_isAlternation {e : Expr} (h : e.isAlternation = false) : e.IsShaped := by
  have hne (info : NodeInfo) (branches : List Expr) : e ≠ alternation info branches := by
    rintro rfl
    cases h
  exact ⟨fun info branches heq => absurd heq (hne info branches),
    fun info branches heq => absurd heq (hne info branches),
    fun info branches heq => absurd heq (hne info branches)⟩

theorem IsBranch.of_children {e : Expr} (h : e.isAlternation = false)
    (hchildren : ∀ child ∈ e.children, child.Shaped) : e.IsBranch :=
  ⟨throughout_iff.mpr ⟨.of_isAlternation h, hchildren⟩, h⟩

theorem IsBranch.withInfo {e : Expr} (h : e.IsBranch) (info : NodeInfo) :
    (e.withInfo info).IsBranch := by
  have hshape : (e.withInfo info).isAlternation = e.isAlternation := by
    cases e <;> rfl
  refine .of_children (hshape.trans h.isAlternation_eq) ?_
  rw [children_withInfo]
  exact (throughout_iff.mp h.shaped).2

theorem Shaped.ofBranches {info : NodeInfo} {branches : List Expr} (hmarkers : info.markers = [])
    (hne : branches ≠ []) (h : ∀ b ∈ branches, b.IsBranch) :
    (alternation info branches).Shaped := by
  refine throughout_iff.mpr ⟨⟨?_, ?_, ?_⟩, fun b hb => (h b hb).shaped⟩
  · intro info' branches' heq
    cases heq
    exact hmarkers
  · intro info' branches' heq
    cases heq
    exact hne
  · intro info' branches' heq b hb
    cases heq
    exact (h b hb).isAlternation_eq

theorem isAlternation_numbered (next : NodeId) (e : Expr) :
    (numbered next e).1.isAlternation = e.isAlternation := by
  cases e <;> rw [numbered] <;> rfl

theorem mem_numberedAll {next : NodeId} {es : List Expr} {y : Expr}
    (h : y ∈ (numberedAll next es).1) : ∃ x ∈ es, ∃ id, y = (numbered id x).1 := by
  induction es generalizing next with
  | nil => simp [numberedAll] at h
  | cons e rest ih =>
    rw [numberedAll] at h
    rcases List.mem_cons.mp h with rfl | h
    · exact ⟨e, List.mem_cons_self, next, rfl⟩
    · obtain ⟨x, hx, hnumbered⟩ := ih h
      exact ⟨x, List.mem_cons_of_mem _ hx, hnumbered⟩

theorem IsShaped.numbered {e : Expr} (h : e.IsShaped) (next : NodeId) :
    (Expr.numbered next e).1.IsShaped := by
  cases e with
  | alternation info branches =>
    rw [Expr.numbered]
    refine ⟨?_, ?_, ?_⟩
    · intro info' branches' heq
      cases heq
      exact h.isUnmarked info branches rfl
    · intro info' branches' heq
      cases heq
      have hne := h.hasBranches info branches rfl
      cases branches with
      | nil => exact absurd rfl hne
      | cons first rest =>
        rw [numberedAll]
        exact List.cons_ne_nil _ _
    · intro info' branches' heq b hb
      cases heq
      obtain ⟨x, hx, id, rfl⟩ := mem_numberedAll hb
      rw [isAlternation_numbered]
      exact h.isAlternation_eq info branches rfl x hx
  | _ => exact .of_isAlternation (isAlternation_numbered next _)

theorem Shaped.numbered {e : Expr} (h : e.Shaped) (next : NodeId) :
    (Expr.numbered next e).1.Shaped := by
  intro y hy
  obtain ⟨x, hx, id, rfl⟩ := mem_preorder_numbered.1 next e y hy
  exact (h x hx).numbered id

end Expr

theorem Parsed.bind_eq_done {α β : Type} {r : Parsed α} {next : α → Parser β} {b : β}
    {s : TokenStream} :
    r.bind next = .done b s ↔ ∃ a between, r = .done a between ∧ next a between = .done b s := by
  cases r <;> simp [bind]

namespace Parser

/-- Whatever the parser reads has a property. -/
def Ensures {α : Type} (p : Parser α) (P : α → Prop) : Prop :=
  ∀ s a after, p s = .done a after → P a

variable {paren inner : Parser Expr} {context : ParseContext}

theorem primary_ensures (hparen : Ensures paren Expr.IsBranch) :
    Ensures (primary paren) Expr.IsBranch := by
  intro s e after h
  unfold primary at h
  split at h
  · cases h
  · rename_i token htoken
    dsimp only at h
    split at h
    · cases h
      exact .of_children rfl (by simp [Expr.children])
    · cases h
      exact .of_children rfl (by simp [Expr.children])
    · cases h
      exact .of_children rfl (by simp [Expr.children])
    · exact hparen s e after h
    all_goals cases h

theorem isBranch_quantifiers (start : Nat) {e : Expr} (h : e.IsBranch) (s : TokenStream) :
    (quantifiers start e s).1.IsBranch := by
  fun_induction quantifiers start e s with
  | case1 e s _ _ ih | case2 e s _ _ ih | case3 e s _ _ ih =>
    exact ih (.of_children rfl (by simpa [Expr.children] using h.shaped))
  | case4 => exact h

theorem element_ensures (hparen : Ensures paren Expr.IsBranch) :
    Ensures (element paren) fun item => item.1.IsBranch := by
  intro s item after h
  unfold element at h
  obtain ⟨before, s₁, -, h⟩ := Parsed.bind_eq_done.mp h
  obtain ⟨core, s₂, hcore, h⟩ := Parsed.bind_eq_done.mp h
  obtain ⟨behind, s₃, -, h⟩ := Parsed.bind_eq_done.mp h
  cases h
  exact (isBranch_quantifiers _ (primary_ensures hparen _ _ _ hcore) _).withInfo _

theorem elementsFrom_ensures (hparen : Ensures paren Expr.IsBranch)
    (read : List (Expr × List Marker)) (hread : ∀ item ∈ read, item.1.IsBranch) :
    Ensures (elementsFrom paren read) fun items => ∀ item ∈ items, item.1.IsBranch := by
  intro s items after h
  fun_induction elementsFrom paren read s with
  | case1 => cases h
  | case2 read s _ item _ heq _ ih =>
    have hitem := element_ensures hparen _ _ _ heq
    refine ih ?_ h
    intro other hother
    rcases List.mem_cons.mp hother with rfl | hother
    · exact hitem
    · exact hread other hother
  | case3 read s _ item _ heq =>
    have hitem := element_ensures hparen _ _ _ heq
    cases h
    intro other hother
    rcases List.mem_cons.mp (List.mem_reverse.mp hother) with rfl | hother
    · exact hitem
    · exact hread other hother
  | case4 =>
    cases h
    exact fun item hitem => hread item (List.mem_reverse.mp hitem)

theorem sequence_ensures (hparen : Ensures paren Expr.IsBranch) :
    Ensures (sequence paren context) Expr.IsBranch := by
  intro s e after h
  unfold sequence at h
  obtain ⟨items, s₁, hitems, h⟩ := Parsed.bind_eq_done.mp h
  have hall := elementsFrom_ensures hparen [] (by simp) _ _ _ hitems
  split at h
  · split at h <;> cases h
  · cases h
    exact (hall _ List.mem_cons_self).withInfo _
  · rename_i first second others
    cases h
    refine .of_children rfl fun child hchild => ?_
    rcases List.mem_cons.mp hchild with rfl | hchild
    · exact ((hall _ List.mem_cons_self).withInfo _).shaped
    · obtain ⟨item, hitem, rfl⟩ := List.mem_map.mp hchild
      exact ((hall item (List.mem_cons_of_mem _ hitem)).withInfo _).shaped

theorem branchesFrom_ensures (hparen : Ensures paren Expr.IsBranch) (read : List Expr)
    (hread : ∀ b ∈ read, b.IsBranch) (hne : read ≠ []) :
    Ensures (branchesFrom paren context read) fun branches =>
      branches ≠ [] ∧ ∀ b ∈ branches, b.IsBranch := by
  intro s branches after h
  fun_induction branchesFrom paren context read s with
  | case1 =>
    cases h
    exact ⟨by simpa using hne, fun b hb => hread b (List.mem_reverse.mp hb)⟩
  | case2 => cases h
  | case3 read s _ _ branch _ heq _ ih =>
    have hbranch := sequence_ensures hparen _ _ _ heq
    exact ih (List.forall_mem_cons.mpr ⟨hbranch, hread⟩) (List.cons_ne_nil _ _) h
  | case4 read s _ _ branch _ heq =>
    have hbranch := sequence_ensures hparen _ _ _ heq
    cases h
    refine ⟨by simp, fun b hb => ?_⟩
    exact List.forall_mem_cons.mpr ⟨hbranch, hread⟩ b (List.mem_reverse.mp hb)

theorem alternation_ensures (hparen : Ensures paren Expr.IsBranch) :
    Ensures (alternation paren context) Expr.Shaped := by
  intro s e after h
  unfold alternation at h
  obtain ⟨first, s₁, hfirst, h⟩ := Parsed.bind_eq_done.mp h
  obtain ⟨branches, s₂, hbranches, h⟩ := Parsed.bind_eq_done.mp h
  have hread : ∀ b ∈ [first], b.IsBranch :=
    fun b hb => List.mem_singleton.mp hb ▸ sequence_ensures hparen _ _ _ hfirst
  obtain ⟨hne, hall⟩ :=
    branchesFrom_ensures hparen [first] hread (List.cons_ne_nil _ _) _ _ _ hbranches
  split at h
  · cases h
    exact (hall _ List.mem_cons_self).shaped
  · cases h
    exact .ofBranches rfl hne hall

theorem group_ensures (hinner : Ensures inner Expr.Shaped) :
    Ensures (group inner) Expr.IsBranch := by
  intro s e after h
  unfold group at h
  obtain ⟨body, s₁, hbody, h⟩ := Parsed.bind_eq_done.mp h
  have hshaped := hinner _ _ _ hbody
  split at h
  · cases h
    exact .of_children rfl (by simpa [Expr.children] using hshaped)
  · split at h
    · cases h
    · cases h
    · cases h
    · split at h <;> cases h

theorem expression_ensures (depth : Nat) (context : ParseContext) :
    Ensures (expression depth context) Expr.Shaped := by
  induction depth generalizing context with
  | zero =>
    intro s e after h
    cases h
  | succ depth ih =>
    intro s e after h
    exact alternation_ensures (group_ensures (ih .group)) s e after h

theorem rule_ensures : Ensures rule fun r => r.body.Shaped := by
  intro s r after h
  unfold rule at h
  obtain ⟨before, s₁, -, h⟩ := Parsed.bind_eq_done.mp h
  obtain ⟨name, s₂, -, h⟩ := Parsed.bind_eq_done.mp h
  obtain ⟨behind, s₃, -, h⟩ := Parsed.bind_eq_done.mp h
  obtain ⟨_, s₄, -, h⟩ := Parsed.bind_eq_done.mp h
  obtain ⟨body, s₅, hbody, h⟩ := Parsed.bind_eq_done.mp h
  obtain ⟨_, s₆, -, h⟩ := Parsed.bind_eq_done.mp h
  cases h
  exact expression_ensures _ _ _ _ _ hbody

theorem item_ensures : Ensures item fun i => ∀ r, i = .rule r → r.body.Shaped := by
  intro s i after h r hr
  subst hr
  unfold item at h
  split at h
  · obtain ⟨d, s₁, -, h⟩ := Parsed.bind_eq_done.mp h
    cases h
  · obtain ⟨r', s₁, hrule, h⟩ := Parsed.bind_eq_done.mp h
    cases h
    exact rule_ensures _ _ _ hrule
  · obtain ⟨r', s₁, hrule, h⟩ := Parsed.bind_eq_done.mp h
    cases h
    exact rule_ensures _ _ _ hrule
  · cases h
  · cases h

end Parser

namespace ParseState

variable {state : ParseState}

theorem rules_note (state : ParseState) (error : SyntaxError) (s : TokenStream) :
    (state.note error s).rules = state.rules := by
  unfold note
  dsimp only
  split
  · rfl
  · split <;> rfl

theorem step_shaped (h : ∀ r ∈ state.rules, r.body.Shaped) :
    ∀ r ∈ state.step.rules, r.body.Shaped := by
  unfold step
  split
  · exact h
  · rename_i r s heq
    exact List.forall_mem_cons.mpr ⟨Parser.item_ensures _ _ _ heq r rfl, h⟩
  · rw [rules_note]
    exact h

theorem run_shaped (preferences : ParsePreferences) (h : ∀ r ∈ state.rules, r.body.Shaped) :
    ∀ r ∈ (run preferences state).rules, r.body.Shaped := by
  fun_induction run preferences state with
  | case1 => exact h
  | case2 => exact step_shaped h
  | case3 =>
    rename_i ih
    exact ih (step_shaped h)
  | case4 => exact step_shaped h

end ParseState

/-- What holds of the rules of a parsed grammar: their alternations are as the parser makes them,
and all expressions are numbered in the order of the text. -/
structure Grammar.IsParsed (grammar : Grammar) : Prop where
  shaped : ∀ rule ∈ grammar.rules.toList, rule.body.Shaped
  numbered : (grammar.rules.toList.flatMap fun rule => rule.body.ids) = List.range grammar.nodeCount

theorem Grammar.IsParsed.nodup {grammar : Grammar} (h : grammar.IsParsed) :
    (grammar.rules.toList.flatMap fun rule => rule.body.ids).Nodup := by
  rw [h.numbered]
  exact List.nodup_range

namespace Rule

theorem mem_numberedAll {rules finished : List Rule} {next : NodeId} {rule : Rule}
    (h : rule ∈ (numberedAll finished next rules).1) :
    rule ∈ finished ∨ ∃ r ∈ rules, ∃ id, rule.body = (r.body.numbered id).1 := by
  induction rules generalizing finished next with
  | nil => exact .inl (List.mem_reverse.mp h)
  | cons first rest ih =>
    rcases ih h with hfinished | ⟨r, hr, hbody⟩
    · rcases List.mem_cons.mp hfinished with rfl | hfinished
      · exact .inr ⟨first, List.mem_cons_self, next, rfl⟩
      · exact .inl hfinished
    · exact .inr ⟨r, List.mem_cons_of_mem _ hr, hbody⟩

theorem spans_numberedAll {rules finished : List Rule} {first next : NodeId}
    (h : Expr.Spans (finished.reverse.flatMap fun rule => rule.body.ids) first next) :
    Expr.Spans ((numberedAll finished next rules).1.flatMap fun rule => rule.body.ids) first
      (numberedAll finished next rules).2 := by
  induction rules generalizing finished next with
  | nil => exact h
  | cons rule rest ih =>
    refine ih ?_
    simpa using h.append (Expr.ids_numbered.1 next rule.body)

end Rule

/-- The expressions of a grammar are numbered in the order of the text, rule after rule. -/
theorem Grammar.ids_ofParts (directives : List Directive) (rules : List Rule) :
    ((ofParts directives rules).rules.toList.flatMap fun rule => rule.body.ids) =
      List.range (ofParts directives rules).nodeCount := by
  have hspans : Expr.Spans ((Rule.numberedAll [] 0 rules).1.flatMap fun rule => rule.body.ids) 0
      (Rule.numberedAll [] 0 rules).2 := Rule.spans_numberedAll (Expr.Spans.nil 0)
  rw [ofParts, hspans.2, Nat.sub_zero, List.range_eq_range']

theorem Grammar.isParsed_ofParts (directives : List Directive) {rules : List Rule}
    (h : ∀ rule ∈ rules, rule.body.Shaped) : (Grammar.ofParts directives rules).IsParsed where
  shaped rule hrule := by
    rcases Rule.mem_numberedAll hrule with hdone | ⟨r, hr, id, hbody⟩
    · cases hdone
    · rw [hbody]
      exact (h r hr).numbered id
  numbered := ids_ofParts directives rules

/-- What the parser accepts is parsed. -/
theorem TokenStream.isParsed_of_parse {preferences : ParsePreferences} {s : TokenStream}
    {grammar : Grammar} (h : (s.parse preferences).result = .ok grammar) : grammar.IsParsed := by
  have hrules : ∀ r ∈ (s.parse preferences).rules, r.body.Shaped :=
    ParseState.run_shaped preferences (by simp [ParseState.initial])
  unfold ParseState.result at h
  split at h
  · cases h
    exact Grammar.isParsed_ofParts _ fun r hr => hrules r (List.mem_reverse.mp hr)
  · cases h

end AnnotatedGrammar
