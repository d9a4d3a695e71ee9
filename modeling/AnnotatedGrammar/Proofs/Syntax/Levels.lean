import AnnotatedGrammar.Syntax.Parse

/-!
# Counting the open levels of nesting

How deep groups may nest is a budget that the parser hands down: every group gets one level less.
The same can be done with one counter for the whole parser. It goes up in front of an alternation,
unless the limit is reached, and down behind it, whether the alternation was read or not. Both read
the same, and the counter stands after every construct where it stood in front of it.
-/

namespace AnnotatedGrammar

namespace Parser

open Parsed

/-! ## What follows the constructs that nest -/

/-- Reads what stands behind the core of an element that begins at the token of index `start`. -/
def behindCore (start : Nat) (before : List Marker) (core : Expr) : Parser (Expr × List Marker) :=
  fun s =>
    let (quantified, afterQuantifiers) := quantifiers start core s
    (markers afterQuantifiers).bind fun behind after =>
      done (quantified.withMarkersAfter behind, before) after

/-- Makes a sequence out of the elements that were read from the token of index `start` on. -/
def concludeSequence (context : ParseContext) (start : Nat) (items : List (Expr × List Marker)) :
    Parser Expr := fun after =>
  match items with
  | [] =>
    match after.token? with
    | some .endOfInput | none => failHere (.unexpectedEnd (.expressionIn context)) after
    | some _ => failHere (.emptyExpression context) after
  | [item] => done (ownMarkers item) after
  | first :: second :: others =>
    let (hoisted, own) := first.2.partition describesSequence
    let elements := ownMarkers (first.1, own) :: (second :: others).map ownMarkers
    done (.sequence ⟨0, hoisted, after.spanFrom start⟩ elements) after

/-- Makes an alternation out of the branches that were read from the token of index `start` on. -/
def concludeAlternation (start : Nat) (branches : List Expr) : Parser Expr := fun after =>
  match branches with
  | [branch] => done branch after
  | branches => done (.alternation ⟨0, [], after.spanFrom start⟩ branches) after

/-- Closes the group that was opened at `opening`, the token of index `start`. -/
def concludeGroup (opening : Span) (start : Nat) (body : Expr) : Parser Expr := fun afterBody =>
  match afterBody.takeIf? .rightParen with
  | some after => done (.group ⟨0, [], after.spanFrom start⟩ body) after
  | none =>
    match afterBody.token? with
    | some .semicolon | some .endOfInput | none => failAt .unmatchedOpening opening afterBody
    | some other =>
      if ruleStartsHere afterBody then failAt .unmatchedOpening opening afterBody
      else failHere (.unexpectedToken .closingParen other) afterBody

variable (paren inner : Parser Expr) (context : ParseContext) (s : TokenStream)

theorem element_eq_bind : element paren s =
    (markers s).bind fun before between =>
      (primary paren between).bind (behindCore s.position before) := rfl

theorem sequence_eq_bind : sequence paren context s =
    (elementsFrom paren [] s).bind (concludeSequence context s.position) := rfl

theorem alternation_eq_bind : alternation paren context s =
    (sequence paren context s).bind fun first between =>
      (branchesFrom paren context [first] between).bind (concludeAlternation s.position) := rfl

theorem group_eq_bind : group inner s =
    (inner s.advance).bind (concludeGroup s.currentSpan s.position) := rfl

end Parser

/-! ## Parsers with a counter -/

/-- Reads a construct and keeps count of the levels of nesting that are open. -/
abbrev CountedParser (α : Type) := Nat → TokenStream → Parsed α × Nat

namespace CountedParser

open Parsed

variable {α β : Type}

/-- Opens no level. -/
def lift (p : Parser α) : CountedParser α := fun levels s => (p s, levels)

/-- Goes on behind a construct that was read, with the count that reading it has left. -/
def bind (q : CountedParser α) (next : α → CountedParser β) : CountedParser β := fun levels s =>
  match q levels s with
  | (done value after, levels) => next value levels after
  | (failed error after, levels) => (failed error after, levels)

/-- Reads one level deeper, unless the limit is reached. -/
def nested (q : CountedParser α) : CountedParser α := fun levels s =>
  if Limits.nestingDepth ≤ levels then (failHere .nestingTooDeep s, levels)
  else
    let (outcome, levels) := q (levels + 1) s
    (outcome, levels - 1)

/-- Reads what an element consists of before its quantifiers. Only a parenthesis opens levels. -/
def primary (group : CountedParser Expr) : CountedParser Expr := fun levels s =>
  (Parser.primary (fun s => (group levels s).1) s,
    if s.token? = some .leftParen then (group levels s).2 else levels)

/-- Reads one element. -/
def element (group : CountedParser Expr) : CountedParser (Expr × List Marker) := fun levels s =>
  ((lift Parser.markers).bind fun before =>
    (primary group).bind fun core => lift (Parser.behindCore s.position before core)) levels s

/-- Reads the elements of a sequence; `read` holds those before them, latest first. -/
def elementsFrom (group : CountedParser Expr) (read : List (Expr × List Marker)) :
    CountedParser (List (Expr × List Marker)) := fun levels s =>
  if Parser.elementStartsHere s then
    match element group levels s with
    | (failed error after, levels) => (failed error after, levels)
    | (done item after, levels) =>
      if after.remaining < s.remaining then elementsFrom group (item :: read) levels after
      else (done (item :: read).reverse after, levels)
  else (done read.reverse s, levels)
termination_by _ s => s.remaining

/-- Reads a sequence. -/
def sequence (group : CountedParser Expr) (context : ParseContext) : CountedParser Expr :=
  fun levels s =>
    ((elementsFrom group []).bind fun items =>
      lift (Parser.concludeSequence context s.position items)) levels s

/-- Reads the branches behind the first one; `read` holds the branches before them, latest first. -/
def branchesFrom (group : CountedParser Expr) (context : ParseContext) (read : List Expr) :
    CountedParser (List Expr) := fun levels s =>
  match s.takeIf? .pipe with
  | none => (done read.reverse s, levels)
  | some behindBar =>
    match sequence group context levels behindBar with
    | (failed error after, levels) => (failed error after, levels)
    | (done branch after, levels) =>
      if after.remaining < s.remaining then
        branchesFrom group context (branch :: read) levels after
      else (done (branch :: read).reverse after, levels)
termination_by _ s => s.remaining

/-- Reads the branches of an alternation. -/
def alternation (group : CountedParser Expr) (context : ParseContext) : CountedParser Expr :=
  fun levels s =>
    ((sequence group context).bind fun first =>
      (branchesFrom group context [first]).bind fun branches =>
        lift (Parser.concludeAlternation s.position branches)) levels s

/-- Reads a group. -/
def group (inner : CountedParser Expr) : CountedParser Expr := fun levels s =>
  (inner.bind fun body => lift (Parser.concludeGroup s.currentSpan s.position body))
    levels s.advance

/-- Reads an alternation one level deeper. The count is what stops the recursion, at the latest when
`bound` levels have been opened. -/
def expression : Nat → ParseContext → CountedParser Expr
  | 0, _ => lift (failHere .nestingTooDeep)
  | bound + 1, context => nested (alternation (group (expression bound .group)) context)

/-- Reads a rule. -/
def rule : CountedParser Rule := fun levels s =>
  ((lift Parser.markers).bind fun before =>
    (lift Parser.ruleName).bind fun name =>
    (lift Parser.markers).bind fun behind =>
    (lift Parser.equalsSign).bind fun _ =>
    (expression Limits.nestingDepth (.rule name.value)).bind fun body =>
    (lift (Parser.terminator name.value)).bind fun _ =>
    lift fun after =>
      done ⟨name.value, name.span, before ++ behind, body, after.spanFrom s.position⟩ after)
    levels s

/-- Reads a directive or a rule. Directives do not nest. -/
def item : CountedParser Parser.Item := fun levels s =>
  match s.token? with
  | some (.identifier _) | some .atSign =>
    (rule.bind fun r => lift fun after => done (.rule r) after) levels s
  | _ => lift Parser.item levels s

/-! ## Agreement with the budget -/

/-- With some levels open, both parsers read the same, and as many levels are open afterwards. -/
def Counts (p : Parser α) (q : CountedParser α) (levels : Nat) : Prop :=
  ∀ s, q levels s = (p s, levels)

variable {p : Parser α} {q : CountedParser α} {levels : Nat} {context : ParseContext}
  {paren inner : Parser Expr} {paren' inner' : CountedParser Expr}

theorem lift_counts (p : Parser α) (levels : Nat) : Counts p (lift p) levels := fun _ => rfl

theorem Counts.bind {next : α → Parser β} {next' : α → CountedParser β} (h : Counts p q levels)
    (hnext : ∀ a, Counts (next a) (next' a) levels) :
    Counts (fun s => (p s).bind next) (q.bind next') levels := by
  intro s
  simp only [CountedParser.bind, h s]
  cases p s with
  | done a after => exact hnext a after
  | failed error after => rfl

theorem Counts.nested (h : Counts p q (levels + 1)) (hlt : levels < Limits.nestingDepth) :
    Counts p (nested q) levels := by
  intro s
  rw [CountedParser.nested, if_neg (Nat.not_le.mpr hlt), h s]
  rfl

theorem Counts.primary (h : Counts paren paren' levels) :
    Counts (Parser.primary paren) (primary paren') levels := by
  intro s
  have hparen : (fun s => (paren' levels s).1) = paren := by
    funext t
    rw [h t]
  rw [CountedParser.primary, hparen, h s, ite_self]

theorem Counts.element (h : Counts paren paren' levels) :
    Counts (Parser.element paren) (element paren') levels := fun s =>
  ((lift_counts Parser.markers levels).bind fun before =>
    h.primary.bind fun core => lift_counts (Parser.behindCore s.position before core) levels) s

theorem Counts.elementsFrom (h : Counts paren paren' levels) (read : List (Expr × List Marker)) :
    Counts (Parser.elementsFrom paren read) (elementsFrom paren' read) levels := by
  intro s
  fun_induction Parser.elementsFrom paren read s with
  | case1 read s hstarts error after heq =>
    rw [CountedParser.elementsFrom, if_pos hstarts, h.element s, heq]
  | case2 read s hstarts item after heq hlt ih =>
    rw [CountedParser.elementsFrom, if_pos hstarts, h.element s, heq]
    dsimp only
    rw [if_pos hlt, ih]
  | case3 read s hstarts item after heq hle =>
    rw [CountedParser.elementsFrom, if_pos hstarts, h.element s, heq]
    dsimp only
    rw [if_neg hle]
  | case4 read s hstarts =>
    rw [CountedParser.elementsFrom, if_neg hstarts]

theorem Counts.sequence (h : Counts paren paren' levels) :
    Counts (Parser.sequence paren context) (sequence paren' context) levels := fun s =>
  ((h.elementsFrom []).bind fun items =>
    lift_counts (Parser.concludeSequence context s.position items) levels) s

theorem Counts.branchesFrom (h : Counts paren paren' levels) (read : List Expr) :
    Counts (Parser.branchesFrom paren context read) (branchesFrom paren' context read) levels := by
  intro s
  fun_induction Parser.branchesFrom paren context read s with
  | case1 read s hbar =>
    rw [CountedParser.branchesFrom, hbar]
  | case2 read s behindBar hbar error after heq =>
    rw [CountedParser.branchesFrom, hbar]
    dsimp only
    rw [h.sequence behindBar, heq]
  | case3 read s behindBar hbar branch after heq hlt ih =>
    rw [CountedParser.branchesFrom, hbar]
    dsimp only
    rw [h.sequence behindBar, heq]
    dsimp only
    rw [if_pos hlt, ih]
  | case4 read s behindBar hbar branch after heq hle =>
    rw [CountedParser.branchesFrom, hbar]
    dsimp only
    rw [h.sequence behindBar, heq]
    dsimp only
    rw [if_neg hle]

theorem Counts.alternation (h : Counts paren paren' levels) :
    Counts (Parser.alternation paren context) (alternation paren' context) levels := fun s =>
  (h.sequence.bind fun first =>
    (h.branchesFrom [first]).bind fun branches =>
      lift_counts (Parser.concludeAlternation s.position branches) levels) s

theorem Counts.group (h : Counts inner inner' levels) :
    Counts (Parser.group inner) (group inner') levels := fun s =>
  (h.bind fun body =>
    lift_counts (Parser.concludeGroup s.currentSpan s.position body) levels) s.advance

/-- With some levels open, the budget is what is left of the limit. -/
theorem expression_counts {bound : Nat} (h : Limits.nestingDepth ≤ levels + bound)
    (context : ParseContext) :
    Counts (Parser.expression (Limits.nestingDepth - levels) context) (expression bound context)
      levels := by
  induction bound generalizing levels context with
  | zero =>
    rw [Nat.sub_eq_zero_of_le (by omega)]
    exact lift_counts _ levels
  | succ bound ih =>
    rcases Nat.lt_or_ge levels Limits.nestingDepth with hlt | hle
    · obtain ⟨budget, hbudget⟩ : ∃ budget, Limits.nestingDepth - levels = budget + 1 :=
        Nat.exists_eq_succ_of_ne_zero (by omega)
      have hbound : Limits.nestingDepth ≤ levels + 1 + bound := by omega
      have hinner := ih hbound .group
      rw [← Nat.sub_sub, hbudget, Nat.add_sub_cancel] at hinner
      rw [hbudget]
      exact Counts.nested hinner.group.alternation hlt
    · -- As many levels are open as may be; the budget is used up as well.
      intro s
      rw [Nat.sub_eq_zero_of_le hle, expression, nested, if_pos hle]
      rfl

theorem rule_counts : Counts Parser.rule rule 0 := fun s =>
  ((lift_counts Parser.markers 0).bind fun _ =>
    (lift_counts Parser.ruleName 0).bind fun name =>
    (lift_counts Parser.markers 0).bind fun _ =>
    (lift_counts Parser.equalsSign 0).bind fun _ =>
    (expression_counts (Nat.le_add_left _ 0) (.rule name.value)).bind fun _ =>
    (lift_counts (Parser.terminator name.value) 0).bind fun _ =>
    lift_counts _ 0) s

/-- Whatever comes next, the counter is back where it was, and it changes nothing in what is
read. -/
theorem item_counts : Counts Parser.item item 0 := by
  intro s
  have hrule := (rule_counts.bind fun r =>
    lift_counts (fun after => done (Parser.Item.rule r) after) 0) s
  unfold CountedParser.item
  split
  · rename_i name htoken
    rw [Parser.item, htoken]
    exact hrule
  · rename_i htoken
    rw [Parser.item, htoken]
    exact hrule
  · rfl

end CountedParser

end AnnotatedGrammar
