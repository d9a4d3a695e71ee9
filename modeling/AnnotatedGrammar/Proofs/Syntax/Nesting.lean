import AnnotatedGrammar.Proofs.Syntax.Recognition

/-!
# How deep expressions nest

The limit on nesting counts parentheses. Between two of them stand at most an alternative, a
sequence and a group, so it bounds the levels of an expression as long as quantifiers are left out.
It does not bound the quantifiers themselves, which may be stacked at will: every one of them is a
level of the tree.
-/

namespace AnnotatedGrammar

namespace Expr

mutual

/-- How many levels an expression has, with `weight` levels for each quantifier. -/
def levels (weight : Nat) : Expr → Nat
  | terminal _ _ | reference _ _ => 1
  | sequence _ items => levelsAll weight items + 1
  | alternation _ branches => levelsAll weight branches + 1
  | group _ body => levels weight body + 1
  | optional _ body | repeated _ body _ => levels weight body + weight

/-- The most levels that one of several expressions has. -/
def levelsAll (weight : Nat) : List Expr → Nat
  | [] => 0
  | e :: es => max (levels weight e) (levelsAll weight es)

end

/-- How many levels an expression has. -/
def height (e : Expr) : Nat := e.levels 1

/-- How many levels an expression has when quantifiers are not counted. -/
def nesting (e : Expr) : Nat := e.levels 0

/-- How many quantifiers stand directly on an expression. -/
def quantifiers : Expr → Nat
  | optional _ body | repeated _ body _ => quantifiers body + 1
  | _ => 0

variable {weight bound : Nat} {e : Expr} {es : List Expr}

theorem levelsAll_le : levelsAll weight es ≤ bound ↔ ∀ e ∈ es, e.levels weight ≤ bound := by
  induction es with
  | nil => simp [levelsAll]
  | cons e es ih => rw [levelsAll, Nat.max_le, ih, List.forall_mem_cons]

@[simp] theorem levels_withInfo (e : Expr) (info : NodeInfo) :
    (e.withInfo info).levels weight = e.levels weight := by
  cases e <;> simp [withInfo, levels]

/-- Numbering leaves the levels alone. -/
theorem levels_numbered (weight : Nat) :
    (∀ (next : NodeId) (e : Expr), (numbered next e).1.levels weight = e.levels weight) ∧
      ∀ (next : NodeId) (es : List Expr),
        levelsAll weight (numberedAll next es).1 = levelsAll weight es := by
  apply numbered.mutual_induct
  case case1 | case2 =>
    intro next info _
    simp [numbered, levels]
  case case3 | case4 =>
    intro next info items renumbered after heq ih
    rw [heq] at ih
    rw [numbered, heq, levels, levels, ih]
  case case5 | case7 =>
    intro next info body renumbered after heq ih
    rw [heq] at ih
    rw [numbered, heq, levels, levels, ih]
  case case6 =>
    intro next info body kind renumbered after heq ih
    rw [heq] at ih
    rw [numbered, heq, levels, levels, ih]
  case case8 =>
    intro next
    rfl
  case case9 =>
    intro next e rest renumbered between heq others after heq' ih ih'
    rw [heq] at ih
    rw [heq'] at ih'
    rw [numberedAll, heq]
    dsimp only
    rw [heq', levelsAll, ih, ih', levelsAll]

/-- Stacks of quantifiers account for all levels that the nesting does not count. -/
theorem height_add_le (k : Nat) :
    (∀ e : Expr, e.Throughout (fun x => x.quantifiers ≤ k) →
      e.height + k ≤ e.quantifiers + (k + 1) * e.nesting) ∧
    ∀ es : List Expr, (∀ e ∈ es, e.Throughout fun x => x.quantifiers ≤ k) →
      levelsAll 1 es ≤ (k + 1) * levelsAll 0 es := by
  apply levels.mutual_induct
  case case1 | case2 =>
    intro info _ _
    simp only [height, nesting, levels, quantifiers]
    omega
  case case3 =>
    intro info items ih h
    have hitems := ih h.ofSequence
    simp only [height, nesting, levels, quantifiers, Nat.mul_succ]
    omega
  case case4 =>
    intro info branches ih h
    have hbranches := ih h.ofAlternation
    simp only [height, nesting, levels, quantifiers, Nat.mul_succ]
    omega
  case case5 =>
    intro info body ih h
    have hstack := h.ofGroup.self
    have hbody := ih h.ofGroup
    simp only [height, nesting] at hbody
    simp only [height, nesting, levels, quantifiers, Nat.mul_succ]
    omega
  case case6 =>
    intro info body ih h
    have hbody := ih h.ofOptional
    simp only [height, nesting] at hbody
    simp only [height, nesting, levels, quantifiers, Nat.add_zero]
    omega
  case case7 =>
    intro info body kind ih h
    have hbody := ih h.ofRepeated
    simp only [height, nesting] at hbody
    simp only [height, nesting, levels, quantifiers, Nat.add_zero]
    omega
  case case8 =>
    intro _
    exact Nat.zero_le _
  case case9 =>
    intro e es ih ihs h
    rw [List.forall_mem_cons] at h
    have hstack := h.1.self
    have hfirst := ih h.1
    have hrest := ihs h.2
    simp only [height, nesting] at hfirst
    rw [levelsAll, levelsAll, ← Nat.mul_max_mul_left]
    omega

end Expr

/-! ## Written bodies -/

namespace Written

variable {α : Type} [Phrase α] {bound : Nat}

theorem Operator.levels_applyAll (weight : Nat) (start : Span) (e : Expr)
    (ops : List (Located Operator)) :
    (Operator.applyAll start e ops).levels weight = e.levels weight + weight * ops.length := by
  unfold Operator.applyAll
  induction ops generalizing e with
  | nil => rfl
  | cons op ops ih =>
    have hop (info : NodeInfo) :
        (op.value.apply info e).levels weight = e.levels weight + weight := by
      cases op.value <;> simp only [Operator.apply, Expr.levels]
    rw [List.foldl_cons, ih, hop, List.length_cons, Nat.mul_succ, Nat.add_assoc,
      Nat.add_comm weight]

theorem Element.levels_expr (weight : Nat) (e : Element α) (start : Span) :
    (e.expr start).levels weight = e.core.expr.levels weight + weight * e.operators.length := by
  rw [Element.expr, Expr.withMarkersAfter, Expr.levels_withInfo, Operator.levels_applyAll]

theorem Element.nesting_le (hbody : ∀ x : α, (Phrase.expr x).nesting ≤ bound) (e : Element α)
    (start : Span) : (e.expr start).nesting ≤ bound + 1 := by
  rw [Expr.nesting, e.levels_expr, Nat.zero_mul, Nat.add_zero]
  cases e.core with
  | reference | terminal => exact Nat.le_add_left 1 bound
  | group opening x closing => exact Nat.add_le_add_right (hbody x) 1

theorem Sequence.nesting_le (hbody : ∀ x : α, (Phrase.expr x).nesting ≤ bound) (s : Sequence α) :
    s.expr.nesting ≤ bound + 2 := by
  have hfirst (ms : List Marker) :
      ((s.first.expr (startOf s.tokens)).withMarkersBefore ms).nesting ≤ bound + 1 := by
    rw [Expr.withMarkersBefore, Expr.nesting, Expr.levels_withInfo]
    exact s.first.nesting_le hbody _
  unfold Sequence.expr
  dsimp only
  split
  · exact (hfirst _).trans (Nat.le_succ _)
  · apply Nat.succ_le_succ
    rw [Expr.levelsAll_le, List.forall_mem_cons]
    refine ⟨hfirst _, List.forall_mem_map.mpr fun e _ => ?_⟩
    exact e.nesting_le hbody _

theorem Alternation.nesting_le (hbody : ∀ x : α, (Phrase.expr x).nesting ≤ bound)
    (a : Alternation α) : (Phrase.expr a).nesting ≤ bound + 3 := by
  obtain ⟨first, others⟩ := a
  cases others with
  | nil => exact (first.nesting_le hbody).trans (Nat.le_succ _)
  | cons branch branches =>
    apply Nat.succ_le_succ
    apply Expr.levelsAll_le.mpr
    exact List.forall_mem_map.mpr fun s _ => s.nesting_le hbody

theorem Body.nesting_le : (depth : Nat) → (x : Body depth) → (Phrase.expr x).nesting ≤ 3 * depth
  | 0, x => x.elim
  | depth + 1, x => Alternation.nesting_le (Body.nesting_le depth) x

end Written

/-! ## Accepted rules -/

namespace TokenStream

open Written

/-- Quantifiers left out, the body of a rule that is accepted has at most three levels for each
level of parentheses that may be written. -/
theorem body_nesting_le {s : TokenStream} {preferences : ParsePreferences} {g : Grammar}
    (h : s.grammar preferences = .ok g) :
    ∀ r ∈ g.rules.toList, r.body.nesting ≤ 3 * Limits.nestingDepth := by
  obtain ⟨herrors, -, rfl⟩ := result_eq_ok.mp h
  obtain ⟨text, t, -, -, -, hrun⟩ := ParseState.run_sound herrors
  have hrules : (s.parse preferences).rules.reverse = text.filterMap Written.Item.rule? := by
    rw [parse, hrun]
    simp [ParseState.behind, ParseState.initial]
  intro r hr
  have hlevels := List.mem_map_of_mem (f := fun r : Rule => r.body.levels 0) hr
  rw [hrules] at hlevels
  have hnumbered := Rule.map_numberedAll (fun r => r.body.levels 0)
    (fun rule next => (Expr.levels_numbered 0).1 next rule.body) []
    (text.filterMap Written.Item.rule?) 0
  rw [Grammar.ofParts, List.toList_toArray, hnumbered, List.reverse_nil, List.map_nil,
    List.nil_append] at hlevels
  obtain ⟨parsed, hparsed, heq⟩ := List.mem_map.mp hlevels
  obtain ⟨i, -, hi⟩ := List.mem_filterMap.mp hparsed
  cases i with
  | directive d => cases hi
  | rule w =>
    obtain rfl := Option.some.inj hi
    rw [Expr.nesting, ← heq]
    exact Body.nesting_le _ w.body

/-- Only stacked quantifiers make the tree of an accepted rule higher: if they are stacked at most
`k` high, so many times more. -/
theorem body_height_le {s : TokenStream} {preferences : ParsePreferences} {g : Grammar} {k : Nat}
    (h : s.grammar preferences = .ok g)
    (hk : ∀ r ∈ g.rules.toList, ∀ e ∈ r.body.preorder, e.quantifiers ≤ k) :
    ∀ r ∈ g.rules.toList, r.body.height ≤ (k + 1) * (3 * Limits.nestingDepth) := by
  intro r hr
  have hself : r.body.quantifiers ≤ k := hk r hr r.body r.body.self_mem_preorder
  have hheight := (Expr.height_add_le k).1 r.body (hk r hr)
  have hnesting := Nat.mul_le_mul_left (k + 1) (body_nesting_le h r hr)
  omega

/-! ## Stacked quantifiers -/

/-- The tokens of `A = B ?…? ;` with some number of question marks, wherever they stand. -/
def stackedTokens (count : Nat) : List (Located Token) :=
  ([.identifier "A", .equals, .identifier "B"] ++ List.replicate count .question ++
    [.semicolon] : List Token).map fun token => ⟨token, Span.placeholder⟩

/-- The element `B ?…?` with some number of question marks. -/
def stackedElement (count : Nat) : Element (Body 127) :=
  ⟨.reference ⟨"B", Span.placeholder⟩, List.replicate count ⟨.optional, Span.placeholder⟩, []⟩

/-- The rule `A = B ?…? ;` with some number of question marks. -/
def stackedRule (count : Nat) : Written.Rule :=
  let here := Span.placeholder
  ⟨[], ⟨"A", here⟩, [], here, ⟨⟨[], stackedElement count, []⟩, []⟩, here⟩

theorem tokens_stackedElement (count : Nat) :
    (stackedElement count).tokens = (.identifier "B" :: List.replicate count .question :
      List Token).map fun token => ⟨token, Span.placeholder⟩ := by
  simp [stackedElement, Element.tokens, Primary.tokens, Operator.allTokens, Mark.allTokens,
    Operator.token]

theorem tokens_stackedRule (count : Nat) : (stackedRule count).tokens = stackedTokens count := by
  have hbody : Phrase.tokens (stackedRule count).body =
      ((stackedElement count).tokens ++ []) ++ [] :=
    rfl
  rw [Written.Rule.tokens, hbody, List.append_nil, List.append_nil, tokens_stackedElement]
  simp [stackedTokens, stackedRule, Mark.allTokens]

theorem isClear_stackedRule (count : Nat) : Phrase.IsClear (stackedRule count).body := by
  refine (Parser.alternation_isClear ⟨⟨[], stackedElement count, []⟩, []⟩).mpr
    ⟨⟨?_, ?_, ?_⟩, by simp⟩
  · rintro ⟨-, hgroup⟩
    exact hgroup
  · exact List.isChain_singleton _
  · exact List.forall_mem_singleton.mpr trivial

theorem spelled_stackedRule (count : Nat) :
    Text.Spelled [.rule (stackedRule count)] (stackedTokens count) := by
  constructor
  · have hsignificant : ∀ token ∈ stackedTokens count, token.value.isSignificant = true := by
      rw [stackedTokens, List.forall_mem_map]
      intro token htoken
      simp only [List.cons_append, List.nil_append, List.mem_cons, List.mem_append,
        List.mem_replicate, List.not_mem_nil, or_false] at htoken
      rcases htoken with rfl | rfl | rfl | ⟨-, rfl⟩ | rfl <;> rfl
    rw [List.filter_eq_self.mpr hsignificant, Text.tokens, List.flatMap_singleton]
    exact tokens_stackedRule count
  · exact ⟨⟨_, List.mem_singleton_self _⟩,
      List.forall_mem_singleton.mpr (isClear_stackedRule count)⟩

theorem height_stackedRule (count : Nat) : (stackedRule count).rule.body.height = count + 1 := by
  have hbody : (stackedRule count).rule.body =
      ((stackedElement count).expr
        (startOf ((stackedElement count).tokens ++ []))).withMarkersBefore
        [] := rfl
  rw [hbody, Expr.height, Expr.withMarkersBefore, Expr.levels_withInfo, Element.levels_expr,
    stackedElement, List.length_replicate, Nat.one_mul, Nat.add_comm]
  rfl

/-- No number bounds the trees of accepted rules: in `A = B ?…? ;` every question mark is a level of
its own, and there may be any number of them. -/
theorem exists_body_height_eq (preferences : ParsePreferences) (count : Nat) :
    ∃ g, (ofTokens (stackedTokens count ++ [⟨.endOfInput, Span.placeholder⟩])).grammar preferences =
        .ok g ∧ g.rules.toList.map (·.body.height) = [count + 1] := by
  refine ⟨_, grammar_complete rfl (spelled_stackedRule count), ?_⟩
  rw [← height_stackedRule count]
  exact Rule.map_numberedAll _ (fun rule next => (Expr.levels_numbered 1).1 next rule.body) []
    [(stackedRule count).rule] 0

end TokenStream

end AnnotatedGrammar
