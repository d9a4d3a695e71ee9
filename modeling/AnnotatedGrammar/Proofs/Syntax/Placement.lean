import AnnotatedGrammar.Proofs.Syntax.Recognition
import AnnotatedGrammar.Proofs.Unplaced.Generation

/-!
# Markers in front of an element and behind it

A marker that belongs to the first element of a sequence can be written in front of it or behind it.
The tree is the same, up to places, as long as both texts are grammars. They need not be: a
parenthesis behind the name of a marker is always read as the beginning of its value, so a marker
without a value cannot stand in front of a group.
-/

namespace AnnotatedGrammar

namespace Written

variable {α : Type}

/-! ## All markers behind -/

/-- The element with further markers directly behind its operators. -/
def Element.marked (e : Element α) (marks : List Mark) : Element α :=
  { e with behind := marks ++ e.behind }

/-- The primary with what it encloses replaced. -/
def Primary.map (f : α → α) : Primary α → Primary α
  | group opening body closing => group opening (f body) closing
  | reference name => reference name
  | terminal t => terminal t

/-- The element with what its parentheses enclose replaced. -/
def Element.map (f : α → α) (e : Element α) : Element α := { e with core := e.core.map f }

/-- The sequence with the markers of its first element behind this; `f` does the same inside
parentheses. -/
def Sequence.marksBehind (f : α → α) (s : Sequence α) : Sequence α :=
  match s.others with
  | [] => ⟨[], (s.first.map f).marked s.opening, []⟩
  | others =>
    ⟨s.opening.filter fun m => DescribesSequence m.marker,
      (s.first.map f).marked (s.opening.filter fun m => ¬DescribesSequence m.marker),
      others.map (Element.map f)⟩

/-- The alternation with the markers of all elements behind these. -/
def Alternation.marksBehind (f : α → α) (a : Alternation α) : Alternation α :=
  ⟨a.first.marksBehind f, a.others.map fun branch => (branch.1, branch.2.marksBehind f)⟩

/-- The body with the markers of all elements behind these. -/
def Body.marksBehind : (depth : Nat) → Body depth → Body depth
  | 0, x => x
  | depth + 1, x => Alternation.marksBehind (Body.marksBehind depth) x

/-- The item with the markers of all elements behind these. -/
def Item.marksBehind : Item → Item
  | directive d => directive d
  | rule r => rule { r with body := Body.marksBehind _ r.body }

/-- The text with the markers of all elements behind these. -/
def Text.marksBehind (text : Text) : Text := text.map Item.marksBehind

/-- It does not matter for this form on which side of its element a marker was written. -/
theorem Sequence.marksBehind_moved (f : α → α) (s : Sequence α)
    (h : ∀ m ∈ s.opening, ¬DescribesSequence m.marker) :
    Sequence.marksBehind f ⟨[], s.first.marked s.opening, s.others⟩ = s.marksBehind f := by
  obtain ⟨opening, first, others⟩ := s
  cases others with
  | nil => rfl
  | cons second others =>
    have hnone : opening.filter (fun m => DescribesSequence m.marker) = [] := by
      simpa [List.filter_eq_nil_iff] using h
    have hall : opening.filter (fun m => ¬DescribesSequence m.marker) = opening := by
      simpa [List.filter_eq_self] using h
    simp only [marksBehind, hnone, hall]
    rfl

/-! ## The tree is the same -/

variable [Phrase α]

/-- The function keeps the tree of a phrase, up to places. -/
def KeepsTree (f : α → α) : Prop := ∀ x, (Phrase.expr (f x)).unplaced = (Phrase.expr x).unplaced

variable {f : α → α}

theorem Primary.unplaced_expr_map (hf : KeepsTree f) (c : Primary α) :
    (c.map f).expr.unplaced = c.expr.unplaced := by
  cases c with
  | group opening body closing => simp only [map, expr, Expr.unplaced, hf body]
  | _ => rfl

/-- Operators wrap equal expressions into equal ones, wherever the text begins. -/
theorem Operator.unplaced_applyAll {start start' : Span} {e e' : Expr}
    (ops : List (Located Operator)) (h : e.unplaced = e'.unplaced) :
    (applyAll start e ops).unplaced = (applyAll start' e' ops).unplaced := by
  unfold applyAll
  induction ops generalizing e e' with
  | nil => exact h
  | cons op ops ih =>
    obtain ⟨_ | kind, span⟩ := op <;> refine ih ?_ <;> simp only [apply, Expr.unplaced, h] <;> rfl

theorem Element.unplaced_expr_map (hf : KeepsTree f) (e : Element α) (start start' : Span) :
    ((e.map f).expr start).unplaced = (e.expr start').unplaced := by
  rw [expr, Expr.withMarkersAfter_unplaced, expr, Expr.withMarkersAfter_unplaced]
  congr 1
  exact Operator.unplaced_applyAll e.operators (e.core.unplaced_expr_map hf)

section

variable [AccountedPhrase α]

/-- Markers directly behind the operators of an element take effect like markers in front of it. -/
theorem Element.expr_marked (e : Element α) (marks : List Mark) (start : Span) :
    (e.marked marks).expr start = (e.expr start).withMarkersBefore (marks.map Mark.marker) := by
  obtain ⟨hmarkers, hinner⟩ := e.core.accounts
  have hnone : (Operator.applyAll start e.core.expr e.operators).markers = [] :=
    (Operator.accounts_applyAll e.operators hmarkers hinner).1
  simp only [expr, marked]
  generalize Operator.applyAll start e.core.expr e.operators = wrapped at hnone ⊢
  cases wrapped <;>
    simp_all [Expr.withMarkersAfter, Expr.withMarkersBefore, Expr.withInfo, Expr.markers, Expr.info]

/-- A first element with its markers behind it is the same, up to places, as with them in front. -/
theorem Element.unplaced_expr_marked (hf : KeepsTree f) (e : Element α) (marks : List Mark)
    (start start' : Span) :
    (((e.map f).marked marks).expr start).unplaced =
      ((e.expr start').withMarkersBefore (marks.map Mark.marker)).unplaced := by
  rw [expr_marked, Expr.withMarkersBefore_unplaced, e.unplaced_expr_map hf start start',
    ← Expr.withMarkersBefore_unplaced]

theorem Sequence.unplaced_expr_marksBehind (hf : KeepsTree f) (s : Sequence α) :
    (s.marksBehind f).expr.unplaced = s.expr.unplaced := by
  have hfront (e : Expr) : e.withMarkersBefore [] = e := by cases e <;> rfl
  obtain ⟨opening, first, others⟩ := s
  cases others with
  | nil =>
    simp only [marksBehind, expr, List.map_nil, hfront]
    exact first.unplaced_expr_marked hf opening _ _
  | cons second others =>
    have hhoisted : (opening.filter fun m => DescribesSequence m.marker).map Mark.marker =
        (opening.map Mark.marker).filter fun m => DescribesSequence m := by
      rw [List.filter_map]
      rfl
    have hown : (opening.filter fun m => ¬DescribesSequence m.marker).map Mark.marker =
        (opening.map Mark.marker).filter fun m => ¬DescribesSequence m := by
      rw [List.filter_map]
      rfl
    have hnone : ((opening.map Mark.marker).filter fun m => DescribesSequence m).filter
        (fun m => ¬DescribesSequence m) = [] := by
      simp
    have hall : ((opening.map Mark.marker).filter fun m => DescribesSequence m).filter
        (fun m => DescribesSequence m) = (opening.map Mark.marker).filter
          fun m => DescribesSequence m := by
      simp
    have hfirst (start start' : Span) := first.unplaced_expr_marked hf
      (opening.filter fun m => ¬DescribesSequence m.marker) start start'
    simp only [marksBehind, expr, List.map_cons, hhoisted, hnone, hall, hfront, Expr.unplaced,
      Expr.unplacedAll_eq_map, List.map_map, Function.comp_def]
    congr 1
    refine congrArg₂ List.cons ((hfirst _ _).trans (by rw [hown])) ?_
    refine congrArg₂ List.cons (second.unplaced_expr_map hf _ _) ?_
    exact List.map_congr_left fun e _ => e.unplaced_expr_map hf _ _

theorem Alternation.keepsTree_marksBehind (hf : KeepsTree f) :
    KeepsTree (Alternation.marksBehind f) := by
  intro a
  obtain ⟨first, others⟩ := a
  cases others with
  | nil => exact first.unplaced_expr_marksBehind hf
  | cons second others =>
    simp only [marksBehind, Phrase.expr, branches, List.map_cons, List.map_map, Expr.unplaced,
      Expr.unplacedAll_eq_map, Function.comp_def, Sequence.unplaced_expr_marksBehind hf]
    rfl

end

theorem Body.keepsTree_marksBehind (depth : Nat) : KeepsTree (Body.marksBehind depth) := by
  induction depth with
  | zero => exact fun x => x.elim
  | succ depth ih => exact Alternation.keepsTree_marksBehind ih

/-- The grammar that is meant does not depend on the sides on which markers stand, up to places. -/
theorem Text.unplaced_grammar_marksBehind (text : Text) :
    text.marksBehind.grammar.unplaced = text.grammar.unplaced := by
  have hdirective (i : Item) : i.marksBehind.directive? = i.directive? := by cases i <;> rfl
  have hrule (i : Item) : i.marksBehind.rule?.map AnnotatedGrammar.Rule.unplaced =
      i.rule?.map AnnotatedGrammar.Rule.unplaced := by
    cases i with
    | directive d => rfl
    | rule r =>
      simp only [Item.marksBehind, Item.rule?, Option.map_some, Rule.rule,
        AnnotatedGrammar.Rule.unplaced, Body.keepsTree_marksBehind _ r.body]
  simp only [grammar, marksBehind, ← Grammar.ofParts_unplaced, List.filterMap_map,
    List.map_filterMap, Function.comp_def, hdirective, hrule]

end Written

/-! ## Where a marker may stand -/

namespace Written

variable {α : Type} [Phrase α] {m : Mark} {e : Element α} {others : List (Element α)}

theorem Mark.endBare_singleton : Mark.EndBare [m] ↔ m.argument = none :=
  ⟨fun ⟨_, hlast, hbare⟩ => by cases hlast; exact hbare, fun hbare => ⟨m, rfl, hbare⟩⟩

/-- A marker without a value can open a sequence that does not begin with a group. -/
theorem Sequence.isClear_opened_iff (hbare : m.argument = none) :
    (⟨[m], e, others⟩ : Sequence α).IsClear ↔
      ¬e.core.IsGroup ∧ (⟨[], e, others⟩ : Sequence α).IsClear := by
  have hclash : ¬Clashes [m] e ↔ ¬e.core.IsGroup := by
    rw [Clashes, Mark.endBare_singleton, and_iff_right hbare]
  have hnone : ¬Clashes [] e := fun hclash => nomatch hclash.1
  exact ⟨fun h => ⟨hclash.mp h.opening, hnone, h.between, h.inside⟩,
    fun ⟨hfirst, h⟩ => ⟨hclash.mpr hfirst, h.between, h.inside⟩⟩

/-- A marker without a value can stand behind the first element if no group comes next. -/
theorem Sequence.isClear_marked_iff (hbare : m.argument = none) (hnone : e.behind = []) :
    (⟨[], e.marked [m], others⟩ : Sequence α).IsClear ↔
      (∀ next ∈ others.head?, ¬next.core.IsGroup) ∧ (⟨[], e, others⟩ : Sequence α).IsClear := by
  have hopening (e : Element α) : ¬Clashes [] e := fun hclash => nomatch hclash.1
  have hclash (next : Element α) :
      ¬Clashes (e.marked [m]).behind next ↔ ¬next.core.IsGroup := by
    rw [Element.marked, hnone, List.append_nil, Clashes, Mark.endBare_singleton,
      and_iff_right hbare]
  have hbefore (next : Element α) : ¬Clashes e.behind next := hnone ▸ hopening next
  constructor
  · rintro ⟨-, hbetween, hinside⟩
    obtain ⟨hhead, htail⟩ := List.isChain_cons.mp hbetween
    obtain ⟨hfirst, hall⟩ := List.forall_mem_cons.mp hinside
    refine ⟨fun next hnext => (hclash next).mp (hhead next hnext), hopening e, ?_,
      List.forall_mem_cons.mpr ⟨hfirst, hall⟩⟩
    exact List.isChain_cons.mpr ⟨fun next _ => hbefore next, htail⟩
  · rintro ⟨hhead, -, hbetween, hinside⟩
    obtain ⟨-, htail⟩ := List.isChain_cons.mp hbetween
    obtain ⟨hfirst, hall⟩ := List.forall_mem_cons.mp hinside
    refine ⟨hopening _, ?_, List.forall_mem_cons.mpr ⟨hfirst, hall⟩⟩
    exact List.isChain_cons.mpr ⟨fun next hnext => (hclash next).mpr (hhead next hnext), htail⟩

end Written

/-! ## Both texts are read -/

namespace TokenStream

open Written

variable {preferences : ParsePreferences} {tokens tokens' : List (Located Token)}
  {stop stop' : Located Token} {text other : Text}

/-- A text is read as the grammar that is meant, up to places, wherever its tokens stand. -/
theorem grammar_of_significantTokens_eq (hstop : stop.value = .endOfInput)
    (htext : text.IsGrammar) (hwords : significantTokens tokens = text.tokens.map (·.value)) :
    ∃ g, (ofTokens (tokens ++ [stop])).grammar preferences = .ok g ∧
      g.unplaced = text.grammar.unplaced := by
  have hsignificant : ∀ token ∈ text.tokens, token.value.isSignificant = true := by
    intro token htoken
    have hmem := List.mem_map_of_mem (f := (·.value)) htoken
    rw [← hwords] at hmem
    exact (List.mem_filter.mp hmem).2
  have hspelled : text.Spelled text.tokens := ⟨(List.filter_eq_self.mpr hsignificant).symm, htext⟩
  have hread : (ofTokens (text.tokens ++ [stop])).grammar preferences = .ok text.grammar :=
    grammar_complete hstop hspelled
  have hsame : (ofTokens (tokens ++ [stop])).unplaced =
      (ofTokens (text.tokens ++ [stop])).unplaced := by
    have hwords' : significantTokens text.tokens = significantTokens tokens := by
      rw [hwords, significantTokens, List.filter_eq_self]
      simpa using hsignificant
    rw [unplaced_ofTokens, unplaced_ofTokens]
    simp only [significantTokens] at hwords'
    simp only [List.map_append, List.filter_append, hwords']
  have herased := grammar_unplaced preferences (ofTokens (tokens ++ [stop]))
  rw [hsame, grammar_unplaced, hread] at herased
  cases hresult : (ofTokens (tokens ++ [stop])).grammar preferences with
  | ok g =>
    rw [hresult] at herased
    exact ⟨g, rfl, (Except.ok.inj herased).symm⟩
  | error errors =>
    rw [hresult] at herased
    cases herased

/-- Two texts that differ in nothing but the sides on which markers stand have the same grammar, up
to places, if both are grammars. -/
theorem grammars_of_marksBehind_eq (hsame : text.marksBehind = other.marksBehind)
    (htext : text.IsGrammar) (hother : other.IsGrammar)
    (hstop : stop.value = .endOfInput) (hstop' : stop'.value = .endOfInput)
    (hwords : significantTokens tokens = text.tokens.map (·.value))
    (hwords' : significantTokens tokens' = other.tokens.map (·.value)) :
    ∃ g g', (ofTokens (tokens ++ [stop])).grammar preferences = .ok g ∧
      (ofTokens (tokens' ++ [stop'])).grammar preferences = .ok g' ∧ g.unplaced = g'.unplaced := by
  obtain ⟨g, hg, hmeant⟩ := grammar_of_significantTokens_eq hstop htext hwords
  obtain ⟨g', hg', hmeant'⟩ := grammar_of_significantTokens_eq hstop' hother hwords'
  refine ⟨g, g', hg, hg', ?_⟩
  rw [hmeant, hmeant', ← text.unplaced_grammar_marksBehind, hsame,
    other.unplaced_grammar_marksBehind]

end TokenStream

/-! ## A parenthesis behind the name of a marker -/

namespace Written

/-- The values of some tokens. -/
abbrev values (tokens : List (Located Token)) : List Token := tokens.map (·.value)

/-- Wherever a parenthesis stands behind the name of a marker of `tokens`, a word and the closing
parenthesis come next; `rest` is what stands behind the tokens. -/
def ArgumentsWhole (tokens rest : List Token) : Prop :=
  ∀ before behind key inside, tokens = before ++ .atSign :: behind →
    behind ++ rest = .identifier key :: .leftParen :: inside →
      ∃ (word : Word) (more : List Token), inside = word.token :: .rightParen :: more

namespace ArgumentsWhole

variable {a b rest : List Token}

theorem of_noSign (h : ∀ token ∈ a, token ≠ .atSign) : ArgumentsWhole a rest := by
  rintro before behind key inside rfl
  exact absurd rfl (h _ (by simp))

theorem append (ha : ArgumentsWhole a (b ++ rest)) (hb : ArgumentsWhole b rest) :
    ArgumentsWhole (a ++ b) rest := by
  intro before behind key inside htokens hnext
  rcases List.append_eq_append_iff.mp htokens with ⟨mid, rfl, hbehind⟩ | ⟨mid, rfl, hbehind⟩
  · exact hb mid behind key inside hbehind hnext
  · cases mid with
    | nil => exact hb [] behind key inside hbehind.symm hnext
    | cons sign mid =>
      obtain ⟨rfl, rfl⟩ := List.cons.inj hbehind
      exact ha before mid key inside rfl (by rwa [← List.append_assoc])

theorem cons {token : Token} (htoken : token ≠ .atSign) (h : ArgumentsWhole a rest) :
    ArgumentsWhole (token :: a) rest :=
  append (a := [token]) (of_noSign (by simpa using htoken)) h

/-- A marker has its value, or no parenthesis comes behind it. -/
theorem mark {m : Mark} (h : m.argument = none → rest.head? ≠ some .leftParen) :
    ArgumentsWhole (values m.tokens) rest := by
  intro before behind key inside htokens hnext
  cases before with
  | cons first before =>
    -- only the first token of a marker is a sign
    have htail : Token.atSign ∈ (values m.tokens).tail := by rw [htokens]; simp
    obtain ⟨sign, key, _ | ⟨opening, ⟨_ | _, span⟩, closing⟩⟩ := m <;>
      simp [values, Mark.tokens, Argument.tokens, Word.token] at htail
  | nil =>
    obtain ⟨-, rfl⟩ := List.cons.inj htokens
    obtain ⟨sign, key', _ | ⟨opening, word, closing⟩⟩ := m
    · obtain ⟨-, hrest⟩ := List.cons.inj hnext
      exact absurd (congrArg List.head? hrest) (h rfl)
    · obtain ⟨-, hvalue⟩ := List.cons.inj hnext
      obtain ⟨-, hinside⟩ := List.cons.inj hvalue
      exact ⟨word.value, rest, hinside.symm⟩

theorem marks {marks : List Mark} (h : Mark.EndBare marks → rest.head? ≠ some .leftParen) :
    ArgumentsWhole (values (Mark.allTokens marks)) rest := by
  induction marks with
  | nil => exact of_noSign (by simp [Mark.allTokens])
  | cons m marks ih =>
    rw [Mark.allTokens_cons, values, List.map_append]
    cases marks with
    | nil =>
      refine append (mark fun hbare => ?_) (of_noSign (by simp [Mark.allTokens]))
      simpa [Mark.allTokens] using h ⟨m, rfl, hbare⟩
    | cons next marks =>
      refine append (mark fun _ => by simp [Mark.allTokens, Mark.tokens]) (ih fun hbare => h ?_)
      obtain ⟨last, hlast, hnone⟩ := hbare
      exact ⟨last, by simpa using hlast, hnone⟩

end ArgumentsWhole

section

variable {α : Type} [Phrase α] {rest : List Token}

/-- No parenthesis comes where an element begins that is no group. -/
theorem Element.head?_ne_leftParen {e : Element α} (h : ¬e.core.IsGroup) (more : List Token) :
    (values e.tokens ++ more).head? ≠ some .leftParen := by
  obtain ⟨token, others, htokens, -, -, hparen⟩ := e.core.exists_tokens_eq
  simpa [tokens, htokens, values] using fun heq => h (hparen.mp heq)

theorem head?_branchTokens_ne_leftParen (branches : List (Span × Sequence α))
    (h : rest.head? ≠ some .leftParen) :
    (values (branchTokens branches) ++ rest).head? ≠ some .leftParen := by
  cases branches with
  | nil => exact h
  | cons branch branches => simp [branchTokens]

end

/-- The phrases of a kind have whole arguments when they are clear. -/
class WholePhrase (α : Type) [Phrase α] : Prop where
  argumentsWhole : ∀ (x : α) (rest : List Token), Phrase.IsClear x →
    rest.head? ≠ some .leftParen → ArgumentsWhole (values (Phrase.tokens x)) rest

section

variable {α : Type} [Phrase α] [WholePhrase α] {rest : List Token}

theorem Primary.argumentsWhole {c : Primary α} (h : c.IsClear) :
    ArgumentsWhole (values c.tokens) rest := by
  rcases c with ⟨name⟩ | ⟨⟨_ | _, span⟩⟩ | ⟨opening, x, closing⟩
  · exact .of_noSign (by simp [tokens])
  · exact .of_noSign (by simp [tokens, terminalToken])
  · exact .of_noSign (by simp [tokens, terminalToken])
  · rw [tokens, values, List.map_cons, List.map_append]
    refine .cons (by simp) (.append ?_ (.of_noSign (by simp)))
    exact WholePhrase.argumentsWhole x _ h (by simp)

theorem Operator.argumentsWhole (ops : List (Located Operator)) :
    ArgumentsWhole (values (allTokens ops)) rest := by
  refine .of_noSign fun token htoken => ?_
  obtain ⟨⟨_ | _ | _, span⟩, -, rfl⟩ : ∃ op ∈ ops, op.value.token = token := by
    simpa [values, allTokens] using htoken
  all_goals simp [Operator.token]

theorem Element.argumentsWhole {e : Element α} (hclear : e.core.IsClear)
    (h : Mark.EndBare e.behind → rest.head? ≠ some .leftParen) :
    ArgumentsWhole (values e.tokens) rest := by
  rw [tokens, values, List.map_append, List.map_append]
  exact (Primary.argumentsWhole hclear).append ((Operator.argumentsWhole _).append (.marks h))

theorem Element.argumentsWhole_all {es : List (Element α)}
    (hchain : es.IsChain fun e next => ¬Clashes e.behind next)
    (hclear : ∀ e ∈ es, e.core.IsClear) (h : rest.head? ≠ some .leftParen) :
    ArgumentsWhole (values (es.flatMap tokens)) rest := by
  induction es with
  | nil => exact .of_noSign (by simp)
  | cons e es ih =>
    obtain ⟨hnext, hothers⟩ := List.isChain_cons.mp hchain
    obtain ⟨hfirst, hall⟩ := List.forall_mem_cons.mp hclear
    rw [List.flatMap_cons, values, List.map_append]
    refine (argumentsWhole hfirst fun hbare => ?_).append (ih hothers hall)
    cases es with
    | nil => exact h
    | cons next es =>
      rw [List.flatMap_cons, List.map_append, List.append_assoc]
      exact head?_ne_leftParen (fun hgroup => hnext next rfl ⟨hbare, hgroup⟩) _

theorem Sequence.argumentsWhole {s : Sequence α} (hclear : s.IsClear)
    (h : rest.head? ≠ some .leftParen) : ArgumentsWhole (values s.tokens) rest := by
  rw [tokens, values, List.map_append]
  have helements := Element.argumentsWhole_all hclear.between hclear.inside h
  refine .append (.marks fun hbare => ?_) helements
  rw [elements, List.flatMap_cons, List.map_append, List.append_assoc]
  exact Element.head?_ne_leftParen (fun hgroup => hclear.opening ⟨hbare, hgroup⟩) _

theorem argumentsWhole_branches {branches : List (Span × Sequence α)}
    (hclear : ∀ branch ∈ branches, branch.2.IsClear) (h : rest.head? ≠ some .leftParen) :
    ArgumentsWhole (values (branchTokens branches)) rest := by
  induction branches with
  | nil => exact .of_noSign (by simp [branchTokens])
  | cons branch branches ih =>
    obtain ⟨hfirst, hall⟩ := List.forall_mem_cons.mp hclear
    rw [Parser.branchTokens_cons, values, List.map_cons, List.map_append]
    refine .cons (by simp) (.append ?_ (ih hall))
    exact Sequence.argumentsWhole hfirst (head?_branchTokens_ne_leftParen branches h)

instance Alternation.instWholePhrase : WholePhrase (Alternation α) where
  argumentsWhole a rest hclear h := by
    obtain ⟨hfirst, hall⟩ := (Parser.alternation_isClear a).mp hclear
    rw [Parser.alternation_tokens, values, List.map_append]
    exact .append (Sequence.argumentsWhole hfirst (head?_branchTokens_ne_leftParen a.others h))
      (argumentsWhole_branches hall h)

end

instance Body.instWholePhrase : (depth : Nat) → WholePhrase (Body depth)
  | 0 => ⟨fun x => x.elim⟩
  | depth + 1 =>
    have := Body.instWholePhrase depth
    inferInstanceAs (WholePhrase (Alternation (Body depth)))

theorem Rule.argumentsWhole {r : Rule} (hclear : Phrase.IsClear r.body) (rest : List Token) :
    ArgumentsWhole (values r.tokens) rest := by
  have hbody (more : List Token) :
      ArgumentsWhole (values (Phrase.tokens r.body)) (.semicolon :: more) :=
    WholePhrase.argumentsWhole r.body _ hclear (by simp)
  simp only [tokens, values, List.map_append, List.map_cons, List.map_nil]
  refine .append (.marks fun _ => by simp) (.cons (by simp) ?_)
  refine .append (.marks fun _ => by simp) (.cons (by simp) ?_)
  exact .append (hbody _) (.of_noSign (by simp))

theorem Item.argumentsWhole {i : Item} (hclear : i.IsClear) (rest : List Token) :
    ArgumentsWhole (values i.tokens) rest := by
  cases i with
  | directive d =>
    obtain ⟨percent, name, ⟨_ | _, span⟩, semicolon⟩ := d <;>
      exact .of_noSign (by simp [tokens, Directive.tokens, Word.token])
  | rule r => exact Rule.argumentsWhole hclear rest

/-- Wherever a parenthesis stands behind the name of a marker of a grammar, it is a value. -/
theorem Text.argumentsWhole {text : Text} (hclear : ∀ i ∈ text, i.IsClear) (rest : List Token) :
    ArgumentsWhole (values text.tokens) rest := by
  induction text with
  | nil => exact .of_noSign (by simp [tokens])
  | cons i text ih =>
    obtain ⟨hfirst, hall⟩ := List.forall_mem_cons.mp hclear
    rw [tokens, List.flatMap_cons, values, List.map_append]
    exact (Item.argumentsWhole hfirst _).append (ih hall)

end Written

namespace TokenStream

open Written

variable {preferences : ParsePreferences} {tokens : List (Located Token)} {stop : Located Token}

/-- In a text that is read, a parenthesis behind the name of a marker begins its value: a word comes
next, and then the closing parenthesis. So a text in which a group stands behind a marker without a
value is read only if the group looks like a value, and then it is taken for one. -/
theorem exists_word_of_grammar {g : Grammar} {before inside : List Token} {key : String}
    (hstop : stop.value = .endOfInput) (htokens : ∀ token ∈ tokens, token.value ≠ .endOfInput)
    (h : (ofTokens (tokens ++ [stop])).grammar preferences = .ok g)
    (hwords : significantTokens tokens =
      before ++ .atSign :: .identifier key :: .leftParen :: inside) :
    ∃ (word : Word) (more : List Token), inside = word.token :: .rightParen :: more := by
  obtain ⟨text, hspelled, -⟩ := grammar_sound hstop htokens h
  have htext : values text.tokens = significantTokens tokens := by
    rw [hspelled.tokens_eq, significantTokens, List.filter_map]
    rfl
  exact Text.argumentsWhole hspelled.isGrammar.clear [] before _ key inside (htext.trans hwords)
    (List.append_nil _)

end TokenStream
end AnnotatedGrammar
