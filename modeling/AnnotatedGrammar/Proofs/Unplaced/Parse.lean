import AnnotatedGrammar.Proofs.Syntax.Locality
import AnnotatedGrammar.Proofs.Unplaced.Tree

/-!
# Parsing without places

Parsing looks at tokens, never at where they stand: from a stream without places comes the same tree
without places, or the same fault at the same token.
-/

namespace AnnotatedGrammar

namespace TokenStream

/-- The stream without places. -/
def unplaced (s : TokenStream) : TokenStream where
  significant := s.significant.map Located.unplaced
  lastSpan := some default
  position := s.position

variable (s : TokenStream)

@[simp] theorem position_unplaced : s.unplaced.position = s.position := rfl

@[simp] theorem remaining_unplaced : s.unplaced.remaining = s.remaining := by
  simp [remaining, unplaced]

@[simp] theorem ahead?_unplaced (n : Nat) :
    s.unplaced.ahead? n = (s.ahead? n).map Located.unplaced := by
  simp [ahead?, unplaced]

@[simp] theorem current?_unplaced : s.unplaced.current? = s.current?.map Located.unplaced :=
  s.ahead?_unplaced 0

@[simp] theorem peek?_unplaced (n : Nat) : s.unplaced.peek? n = s.peek? n := by
  rw [peek?, ahead?_unplaced, Option.map_map, peek?]
  rfl

@[simp] theorem token?_unplaced : s.unplaced.token? = s.token? := by
  rw [token?, current?_unplaced, Option.map_map, token?]
  rfl

@[simp] theorem currentSpan_unplaced : s.unplaced.currentSpan = default := by
  rw [currentSpan, current?_unplaced]
  cases s.current? <;> rfl

theorem spanAt?_unplaced (index : Nat) :
    s.unplaced.spanAt? index = (s.spanAt? index).map fun _ => default := by
  simp only [spanAt?, unplaced, Array.getElem?_map, Option.map_map]
  rfl

@[simp] theorem previousSpan_unplaced : s.unplaced.previousSpan = default := by
  rw [previousSpan, position_unplaced, currentSpan_unplaced]
  split
  · rfl
  · next before _ =>
    rw [spanAt?_unplaced]
    cases s.spanAt? before <;> rfl

@[simp] theorem spanFrom_unplaced (index : Nat) : s.unplaced.spanFrom index = default := by
  rw [spanFrom, spanAt?_unplaced, currentSpan_unplaced, previousSpan_unplaced]
  cases s.spanAt? index with
  | none => rfl
  | some start => exact ite_self _

@[simp] theorem advance_unplaced : s.unplaced.advance = s.advance.unplaced := by
  simp only [advance, unplaced, Array.size_map]
  split <;> rfl

@[simp] theorem atEnd_unplaced : s.unplaced.atEnd = s.atEnd := by
  rw [atEnd, token?_unplaced, atEnd]

@[simp] theorem check_unplaced (expected : Token) :
    s.unplaced.check expected = s.check expected := by
  rw [check, token?_unplaced, check]

@[simp] theorem takeIf?_unplaced (expected : Token) :
    s.unplaced.takeIf? expected = (s.takeIf? expected).map unplaced := by
  rw [takeIf?, takeIf?, check_unplaced, advance_unplaced]
  cases s.check expected <;> rfl

/-- Without places, a stream is made of the values of the significant tokens. -/
theorem unplaced_ofTokens (tokens : List (Located Token)) :
    (ofTokens tokens).unplaced = ⟨(((tokens.map (·.value)).filter Token.isSignificant).map
      fun token => ⟨token, default⟩).toArray, some default, 0⟩ := by
  simp only [unplaced, ofTokens, List.map_toArray, List.filter_map, List.map_map]
  rfl

end TokenStream

namespace Parsed

variable {α β : Type}

/-- The outcome without places; `erase` takes them out of the value. -/
def unplaced (erase : α → α) : Parsed α → Parsed α
  | done value s => done (erase value) s.unplaced
  | failed error s => failed error.unplaced s.unplaced

@[simp] theorem unplaced_done (erase : α → α) (value : α) (s : TokenStream) :
    (done value s).unplaced erase = done (erase value) s.unplaced := rfl

@[simp] theorem unplaced_failHere (erase : α → α) (fault : SyntaxFault) (s : TokenStream) :
    (failHere fault s : Parsed α).unplaced erase = failHere fault s.unplaced := by
  rw [failHere, failAt, failHere, failAt, unplaced, TokenStream.currentSpan_unplaced]
  rfl

theorem unplaced_bind {erase : α → α} {erase' : β → β} {r : Parsed α} {next next' : α → Parser β}
    (h : ∀ value s, next' (erase value) s.unplaced = (next value s).unplaced erase') :
    (r.unplaced erase).bind next' = (r.bind next).unplaced erase' := by
  cases r with
  | done value s => exact h value s
  | failed error s => rfl

end Parsed

/-- The parser reads the same without places as with them, apart from the places. -/
def Parser.IgnoresPlaces {α : Type} (erase : α → α) (read : Parser α) : Prop :=
  ∀ s, read s.unplaced = (read s).unplaced erase

namespace Parser

open Parsed

/-! ## Looking ahead -/

@[simp] theorem behindMarkers_unplaced (s : TokenStream) (n : Nat) :
    behindMarkers s.unplaced n = behindMarkers s n := by
  fun_induction behindMarkers s n with
  | case1 n name hkey hsign hopening text hclosing hword ih
  | case2 n name hkey hsign hopening text hclosing hword ih =>
    rw [← ih]
    exact behindMarkers_of_value (by simpa) (by simpa) (by simpa) (by simp [hword]) (by simpa)
  | case3 n name hkey hsign hopening hidentifier hliteral =>
    refine behindMarkers_of_unclosed (by simpa) (by simpa) (by simpa) ?_
    simp only [TokenStream.peek?_unplaced]
    rintro ⟨word, hword | hword, hclosing⟩
    · exact hidentifier word hword hclosing
    · exact hliteral word hword hclosing
  | case4 n name hkey hsign hopening ih =>
    rw [← ih]
    exact behindMarkers_of_name (by simpa) (by simpa) (by simpa using hopening)
  | case5 n hother =>
    refine behindMarkers_of_other ?_
    simp only [TokenStream.peek?_unplaced]
    rintro ⟨hsign, name, hkey⟩
    exact hother name hsign hkey

@[simp] theorem ruleStartsHere_unplaced (s : TokenStream) :
    ruleStartsHere s.unplaced = ruleStartsHere s := by
  simp only [ruleStartsHere, behindMarkers_unplaced, TokenStream.peek?_unplaced]

@[simp] theorem valueToken?_unplaced (s : TokenStream) :
    valueToken? s.unplaced = valueToken? s := by
  rw [valueToken?, TokenStream.token?_unplaced, valueToken?]

/-! ## Markers -/

theorem markerValue_ignoresPlaces (key : String) : (markerValue key).IgnoresPlaces id := by
  intro s
  unfold markerValue
  rw [TokenStream.takeIf?_unplaced]
  cases s.takeIf? .leftParen with
  | none => rfl
  | some s =>
    dsimp only [Option.map_some]
    rw [valueToken?_unplaced]
    cases valueToken? s with
    | none => exact (unplaced_failHere _ _ _).symm
    | some value =>
      dsimp only
      rw [TokenStream.advance_unplaced, TokenStream.takeIf?_unplaced]
      cases s.advance.takeIf? .rightParen with
      | none => exact (unplaced_failHere _ _ _).symm
      | some s => rfl

theorem marker_ignoresPlaces : marker.IgnoresPlaces Marker.unplaced := by
  intro s
  simp only [marker, TokenStream.advance_unplaced, TokenStream.token?_unplaced]
  split
  · next key _ =>
    rw [markerValue_ignoresPlaces]
    refine unplaced_bind fun value after => ?_
    rw [TokenStream.spanFrom_unplaced]
    rfl
  · exact (unplaced_failHere _ _ _).symm

theorem markersFrom_unplaced (read : List Marker) (s : TokenStream) :
    markersFrom (read.map Marker.unplaced) s.unplaced =
      (markersFrom read s).unplaced (List.map Marker.unplaced) := by
  fun_induction markersFrom read s with
  | case1 read s hsign error after hmarker =>
    rw [markersFrom, TokenStream.check_unplaced, if_pos hsign, marker_ignoresPlaces, hmarker]
    rfl
  | case2 read s hsign m after hmarker hlt ih =>
    rw [markersFrom, TokenStream.check_unplaced, if_pos hsign, marker_ignoresPlaces, hmarker]
    simp only [unplaced_done, TokenStream.remaining_unplaced, if_pos hlt]
    exact ih
  | case3 read s hsign m after hmarker hlt =>
    rw [markersFrom, TokenStream.check_unplaced, if_pos hsign, marker_ignoresPlaces, hmarker]
    simp only [unplaced_done, TokenStream.remaining_unplaced, if_neg hlt, List.map_reverse,
      List.map_cons]
  | case4 read s hsign =>
    rw [markersFrom, TokenStream.check_unplaced, if_neg hsign, unplaced_done, List.map_reverse]

theorem markers_ignoresPlaces : markers.IgnoresPlaces (List.map Marker.unplaced) :=
  markersFrom_unplaced []

/-! ## Expressions -/

variable {inner : Parser Expr}

theorem primary_ignoresPlaces (hinner : inner.IgnoresPlaces Expr.unplaced) :
    (primary inner).IgnoresPlaces Expr.unplaced := by
  intro s
  unfold primary
  rw [TokenStream.current?_unplaced, TokenStream.advance_unplaced]
  cases s.current? with
  | none => exact (unplaced_failHere _ _ _).symm
  | some token =>
    obtain ⟨value, span⟩ := token
    cases value with
    | leftParen => exact hinner s
    | _ => rfl

theorem quantifiers_unplaced (start : Nat) (e : Expr) (s : TokenStream) :
    quantifiers start e.unplaced s.unplaced =
      ((quantifiers start e s).1.unplaced, (quantifiers start e s).2.unplaced) := by
  induction hremaining : s.remaining using Nat.strong_induction_on generalizing s e with
  | _ remaining ih =>
    subst hremaining
    by_cases hop : ∃ op : Written.Operator, s.token? = some op.token
    · obtain ⟨op, hop⟩ := hop
      have hlt := TokenStream.remaining_advance_lt_of_token? hop
      rw [quantifiers_operator hop, quantifiers_operator ((s.token?_unplaced).trans hop),
        TokenStream.advance_unplaced, TokenStream.spanFrom_unplaced, ← ih _ hlt _ _ rfl]
      cases op <;> rfl
    · rw [not_exists] at hop
      rw [quantifiers_other hop, quantifiers_other (by rwa [TokenStream.token?_unplaced])]

/-- An element and the markers in front of it, without places. -/
def unplacedItem (item : Expr × List Marker) : Expr × List Marker :=
  (item.1.unplaced, item.2.map Marker.unplaced)

theorem element_ignoresPlaces (hinner : inner.IgnoresPlaces Expr.unplaced) :
    (element inner).IgnoresPlaces unplacedItem := by
  intro s
  unfold element
  rw [markers_ignoresPlaces]
  refine unplaced_bind fun before s₁ => ?_
  rw [primary_ignoresPlaces hinner]
  refine unplaced_bind fun core s₂ => ?_
  rw [TokenStream.position_unplaced, quantifiers_unplaced]
  dsimp only
  rw [markers_ignoresPlaces]
  refine unplaced_bind fun behind s₃ => ?_
  rw [unplaced_done, unplacedItem, Expr.withMarkersAfter_unplaced]

@[simp] theorem elementStartsHere_unplaced (s : TokenStream) :
    elementStartsHere s.unplaced = elementStartsHere s := by
  simp only [elementStartsHere, TokenStream.token?_unplaced, ruleStartsHere_unplaced]

theorem elementsFrom_unplaced (hinner : inner.IgnoresPlaces Expr.unplaced)
    (read : List (Expr × List Marker)) (s : TokenStream) :
    elementsFrom inner (read.map unplacedItem) s.unplaced =
      (elementsFrom inner read s).unplaced (List.map unplacedItem) := by
  fun_induction elementsFrom inner read s with
  | case1 read s hstarts error after helement =>
    rw [elementsFrom, elementStartsHere_unplaced, if_pos hstarts, element_ignoresPlaces hinner,
      helement]
    rfl
  | case2 read s hstarts item after helement hlt ih =>
    rw [elementsFrom, elementStartsHere_unplaced, if_pos hstarts, element_ignoresPlaces hinner,
      helement]
    simp only [unplaced_done, TokenStream.remaining_unplaced, if_pos hlt]
    exact ih
  | case3 read s hstarts item after helement hlt =>
    rw [elementsFrom, elementStartsHere_unplaced, if_pos hstarts, element_ignoresPlaces hinner,
      helement]
    simp only [unplaced_done, TokenStream.remaining_unplaced, if_neg hlt, List.map_reverse,
      List.map_cons]
  | case4 read s hstarts =>
    rw [elementsFrom, elementStartsHere_unplaced, if_neg hstarts, unplaced_done, List.map_reverse]

theorem ownMarkers_unplaced (item : Expr × List Marker) :
    ownMarkers (unplacedItem item) = (ownMarkers item).unplaced :=
  (Expr.withMarkersBefore_unplaced item.1 item.2).symm

theorem sequence_ignoresPlaces (hinner : inner.IgnoresPlaces Expr.unplaced)
    (context : ParseContext) : (sequence inner context).IgnoresPlaces Expr.unplaced := by
  intro s
  unfold sequence
  have helements := elementsFrom_unplaced hinner [] s
  rw [List.map_nil] at helements
  rw [helements]
  refine unplaced_bind fun items after => ?_
  rcases items with - | ⟨first, - | ⟨second, others⟩⟩
  · simp only [List.map_nil, TokenStream.token?_unplaced]
    split <;> exact (unplaced_failHere _ _ _).symm
  · simp only [List.map_cons, List.map_nil, unplaced_done, ownMarkers_unplaced]
  · have hpartition : (unplacedItem first).2.partition describesSequence =
        ((first.2.partition describesSequence).1.map Marker.unplaced,
          (first.2.partition describesSequence).2.map Marker.unplaced) := by
      rw [unplacedItem, List.partition_eq_filter_filter, List.partition_eq_filter_filter,
        List.filter_map, List.filter_map]
      rfl
    simp only [List.map_cons, hpartition, TokenStream.spanFrom_unplaced, unplaced_done,
      Expr.unplaced, Expr.unplacedAll_eq_map, List.map_map, ownMarkers_unplaced,
      Function.comp_def]
    simp only [ownMarkers, Expr.withMarkersBefore_unplaced]
    rfl

theorem branchesFrom_unplaced (hinner : inner.IgnoresPlaces Expr.unplaced)
    (context : ParseContext) (read : List Expr) (s : TokenStream) :
    branchesFrom inner context (read.map Expr.unplaced) s.unplaced =
      (branchesFrom inner context read s).unplaced (List.map Expr.unplaced) := by
  fun_induction branchesFrom inner context read s with
  | case1 read s hpipe =>
    rw [branchesFrom, TokenStream.takeIf?_unplaced, hpipe, unplaced_done, List.map_reverse]
    rfl
  | case2 read s behindBar hpipe error after hsequence =>
    rw [branchesFrom, TokenStream.takeIf?_unplaced, hpipe, Option.map_some]
    dsimp only
    rw [sequence_ignoresPlaces hinner, hsequence]
    rfl
  | case3 read s behindBar hpipe branch after hsequence hlt ih =>
    rw [branchesFrom, TokenStream.takeIf?_unplaced, hpipe, Option.map_some]
    dsimp only
    rw [sequence_ignoresPlaces hinner, hsequence]
    simp only [unplaced_done, TokenStream.remaining_unplaced, if_pos hlt]
    exact ih
  | case4 read s behindBar hpipe branch after hsequence hlt =>
    rw [branchesFrom, TokenStream.takeIf?_unplaced, hpipe, Option.map_some]
    dsimp only
    rw [sequence_ignoresPlaces hinner, hsequence]
    simp only [unplaced_done, TokenStream.remaining_unplaced, if_neg hlt, List.map_reverse,
      List.map_cons]

theorem alternation_ignoresPlaces (hinner : inner.IgnoresPlaces Expr.unplaced)
    (context : ParseContext) : (alternation inner context).IgnoresPlaces Expr.unplaced := by
  intro s
  unfold alternation
  rw [sequence_ignoresPlaces hinner]
  refine unplaced_bind fun first afterFirst => ?_
  have hbranches := branchesFrom_unplaced hinner context [first] afterFirst
  rw [List.map_cons, List.map_nil] at hbranches
  rw [hbranches]
  refine unplaced_bind fun branches after => ?_
  rw [TokenStream.spanFrom_unplaced]
  rcases branches with - | ⟨first, - | ⟨second, others⟩⟩
  · rfl
  · rfl
  · simp only [List.map_cons, unplaced_done, Expr.unplaced, Expr.unplacedAll_eq_map]
    rfl

theorem group_ignoresPlaces (hinner : inner.IgnoresPlaces Expr.unplaced) :
    (group inner).IgnoresPlaces Expr.unplaced := by
  intro s
  unfold group
  rw [TokenStream.advance_unplaced, hinner]
  refine unplaced_bind fun body after => ?_
  rw [TokenStream.takeIf?_unplaced]
  cases after.takeIf? .rightParen with
  | some closed =>
    simp only [Option.map_some, TokenStream.spanFrom_unplaced, unplaced_done, Expr.unplaced]
    rfl
  | none =>
    simp only [Option.map_none, TokenStream.token?_unplaced, TokenStream.currentSpan_unplaced,
      ruleStartsHere_unplaced]
    split
    · rfl
    · rfl
    · rfl
    · split
      · rfl
      · exact (unplaced_failHere _ _ _).symm

theorem expression_ignoresPlaces (depth : Nat) (context : ParseContext) :
    (expression depth context).IgnoresPlaces Expr.unplaced := by
  induction depth generalizing context with
  | zero => exact fun s => (unplaced_failHere _ _ s).symm
  | succ depth ih => exact alternation_ignoresPlaces (group_ignoresPlaces (ih .group)) context

/-! ## Directives and rules -/

theorem equalsSign_ignoresPlaces : equalsSign.IgnoresPlaces id := by
  intro s
  unfold equalsSign
  rw [TokenStream.takeIf?_unplaced]
  cases s.takeIf? .equals with
  | some after => rfl
  | none =>
    simp only [Option.map_none, TokenStream.token?_unplaced]
    split <;> exact (unplaced_failHere _ _ _).symm

theorem ruleName_ignoresPlaces : ruleName.IgnoresPlaces Located.unplaced := by
  intro s
  unfold ruleName
  rw [TokenStream.current?_unplaced, TokenStream.advance_unplaced]
  cases s.current? with
  | none => exact (unplaced_failHere _ _ _).symm
  | some token =>
    obtain ⟨value, span⟩ := token
    cases value <;> rfl

theorem terminator_ignoresPlaces (name : String) : (terminator name).IgnoresPlaces id := by
  intro s
  unfold terminator
  simp only [TokenStream.token?_unplaced, TokenStream.previousSpan_unplaced,
    TokenStream.advance_unplaced, ruleStartsHere_unplaced]
  split
  · rfl
  · exact (unplaced_failHere _ _ _).symm
  · rfl
  · rfl
  · split
    · rfl
    · exact (unplaced_failHere _ _ _).symm

theorem rule_ignoresPlaces : rule.IgnoresPlaces Rule.unplaced := by
  intro s
  unfold rule
  rw [markers_ignoresPlaces]
  refine unplaced_bind fun before s₁ => ?_
  rw [ruleName_ignoresPlaces]
  refine unplaced_bind fun name s₂ => ?_
  rw [markers_ignoresPlaces]
  refine unplaced_bind fun behind s₃ => ?_
  rw [equalsSign_ignoresPlaces]
  refine unplaced_bind fun _ s₄ => ?_
  rw [expression_ignoresPlaces]
  refine unplaced_bind fun body s₅ => ?_
  rw [terminator_ignoresPlaces]
  refine unplaced_bind fun _ after => ?_
  rw [TokenStream.spanFrom_unplaced, ← List.map_append]
  rfl

theorem directive_ignoresPlaces : directive.IgnoresPlaces Directive.unplaced := by
  intro s
  unfold directive
  simp only [TokenStream.advance_unplaced, TokenStream.token?_unplaced, valueToken?_unplaced,
    TokenStream.takeIf?_unplaced]
  split
  · next name _ =>
    cases valueToken? s.advance.advance with
    | none => exact (unplaced_failHere _ _ _).symm
    | some value =>
      cases s.advance.advance.advance.takeIf? .semicolon with
      | none => exact (unplaced_failHere _ _ _).symm
      | some after =>
        simp only [Option.map_some, TokenStream.spanFrom_unplaced, unplaced_done]
        rfl
  · exact (unplaced_failHere _ _ _).symm

@[simp] theorem skipPastSemicolon_unplaced (s : TokenStream) :
    skipPastSemicolon s.unplaced = (skipPastSemicolon s).unplaced := by
  fun_induction skipPastSemicolon s with
  | case1 s hnone =>
    rw [skipPastSemicolon.eq_def]
    split <;> simp_all
  | case2 s hend =>
    rw [skipPastSemicolon.eq_def]
    split <;> simp_all
  | case3 s hsemicolon =>
    rw [skipPastSemicolon_of_semicolon (by simpa), TokenStream.advance_unplaced]
  | case4 s token hend hsemicolon htoken ih =>
    rw [skipPastSemicolon_of_other ((s.token?_unplaced).trans htoken)
      hsemicolon hend, TokenStream.advance_unplaced, ih]

/-- The directive or rule without places. -/
def Item.unplaced : Item → Item
  | directive d => directive d.unplaced
  | rule r => rule r.unplaced

theorem item_ignoresPlaces : item.IgnoresPlaces Item.unplaced := by
  intro s
  unfold item
  rw [TokenStream.token?_unplaced]
  split
  · rw [directive_ignoresPlaces]
    exact unplaced_bind fun _ _ => rfl
  · rw [rule_ignoresPlaces]
    exact unplaced_bind fun _ _ => rfl
  · rw [rule_ignoresPlaces]
    exact unplaced_bind fun _ _ => rfl
  · exact (unplaced_failHere _ _ _).symm
  · exact (unplaced_failHere _ _ _).symm

end Parser

namespace ParseState

/-- What was found, without places. -/
def unplaced (state : ParseState) : ParseState where
  stream := state.stream.unplaced
  directives := state.directives.map Directive.unplaced
  rules := state.rules.map Rule.unplaced
  errors := state.errors.map Located.unplaced

theorem note_unplaced (state : ParseState) (error : SyntaxError) (s : TokenStream) :
    state.unplaced.note error.unplaced s.unplaced = (state.note error s).unplaced := by
  unfold note
  simp only [unplaced, List.length_cons, List.length_map]
  split
  · rw [TokenStream.currentSpan_unplaced]
    rfl
  · rw [Parser.skipPastSemicolon_unplaced]
    obtain ⟨fault, span⟩ := error
    cases fault <;> rfl

theorem step_unplaced (state : ParseState) : state.unplaced.step = state.step.unplaced := by
  have hitem := Parser.item_ignoresPlaces state.stream
  unfold step
  rw [show state.unplaced.stream = state.stream.unplaced from rfl, hitem]
  cases Parser.item state.stream with
  | done item s => cases item <;> rfl
  | failed error s => exact note_unplaced state error s

theorem isFinal_unplaced (preferences : ParsePreferences) (before after : ParseState) :
    isFinal preferences before.unplaced after.unplaced = isFinal preferences before after := by
  simp only [isFinal, unplaced, List.length_map, List.any_map]
  rfl

theorem run_unplaced (preferences : ParsePreferences) (state : ParseState) :
    run preferences state.unplaced = (run preferences state).unplaced := by
  have hstream (state : ParseState) : state.unplaced.stream = state.stream.unplaced := rfl
  fun_induction run preferences state with
  | case1 state hend => rw [run, hstream, TokenStream.atEnd_unplaced, if_pos hend]
  | case2 state hend next hfinal =>
    rw [run, hstream, TokenStream.atEnd_unplaced, if_neg hend]
    simp only [step_unplaced, isFinal_unplaced]
    exact if_pos hfinal
  | case3 state hend next hfinal hlt ih =>
    rw [run, hstream, TokenStream.atEnd_unplaced, if_neg hend]
    simp only [step_unplaced, isFinal_unplaced, hstream, TokenStream.remaining_unplaced]
    exact (if_neg hfinal).trans ((if_pos hlt).trans ih)
  | case4 state hend next hfinal hlt =>
    rw [run, hstream, TokenStream.atEnd_unplaced, if_neg hend]
    simp only [step_unplaced, isFinal_unplaced, hstream, TokenStream.remaining_unplaced]
    exact (if_neg hfinal).trans (if_neg hlt)

theorem allErrors_unplaced (state : ParseState) :
    state.unplaced.allErrors = state.allErrors.map Located.unplaced := by
  obtain ⟨s, directives, rules, errors⟩ := state
  cases errors with
  | nil =>
    cases rules with
    | nil =>
      exact congrArg (fun span => [(⟨.emptyGrammar, span⟩ : SyntaxError)]) s.currentSpan_unplaced
    | cons rule rest => rfl
  | cons error rest => exact List.map_reverse.symm

theorem result_unplaced (state : ParseState) : state.unplaced.result =
    (state.result.map Grammar.unplaced).mapError (List.map Located.unplaced) := by
  rw [result, allErrors_unplaced, result]
  cases state.allErrors with
  | nil =>
    simp only [List.map_nil, unplaced, ← List.map_reverse, Grammar.ofParts_unplaced]
    rfl
  | cons error rest => rfl

end ParseState

/-- Which grammar a stream holds, and what is wrong with it, does not depend on places. -/
theorem TokenStream.grammar_unplaced (preferences : ParsePreferences) (s : TokenStream) :
    s.unplaced.grammar preferences =
      ((s.grammar preferences).map Grammar.unplaced).mapError (List.map Located.unplaced) := by
  rw [grammar, parse, grammar, parse, ← ParseState.result_unplaced, ← ParseState.run_unplaced]
  rfl

end AnnotatedGrammar
