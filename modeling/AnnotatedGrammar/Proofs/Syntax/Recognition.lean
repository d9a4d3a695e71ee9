import AnnotatedGrammar.Proofs.Syntax.Markers
import AnnotatedGrammar.Proofs.Syntax.Phrases

/-!
# The language of the notation

The parser reads exactly the token lists that some written grammar stands for, and what it returns
is the grammar that is meant.
-/

namespace AnnotatedGrammar

open Written

variable {s t : TokenStream}

namespace Parser

/-! ## Rules -/

theorem ruleName_eq_done {name : Located String} :
    ruleName s = .done name t ↔ s.Passes [⟨.identifier name.value, name.span⟩] t := by
  rw [TokenStream.passes_singleton]
  unfold ruleName
  constructor
  · intro h
    split at h
    · cases h
    · rename_i token hcurrent
      obtain ⟨value, span⟩ := token
      dsimp only at h
      split at h
      · cases h
        exact ⟨hcurrent, rfl⟩
      · cases h
  · rintro ⟨hcurrent, rfl⟩
    rw [hcurrent]

theorem equalsSign_eq_done :
    equalsSign s = .done () t ↔ ∃ span, s.Passes [⟨.equals, span⟩] t := by
  rw [← TokenStream.takeIf?_eq_some rfl]
  unfold equalsSign
  constructor
  · intro h
    split at h
    · cases h
      assumption
    · split at h <;> cases h
  · intro h
    rw [h]

theorem terminator_eq_done {name : String} :
    terminator name s = .done () t ↔ ∃ span, s.Passes [⟨.semicolon, span⟩] t := by
  unfold terminator
  constructor
  · intro h
    dsimp only at h
    split at h
    · rename_i hsemicolon
      cases h
      obtain ⟨span, hcurrent⟩ := TokenStream.exists_current?_of_token? hsemicolon
      exact ⟨span, TokenStream.passes_advance hcurrent⟩
    · cases h
    · cases h
    · cases h
    · split at h <;> cases h
  · rintro ⟨span, h⟩
    obtain ⟨hcurrent, rfl⟩ := TokenStream.passes_singleton.mp h
    simp [h.token?]

theorem rule_sound {r : Rule} (h : rule s = .done r t) :
    ∃ w : Written.Rule, s.Passes w.tokens t ∧ Phrase.IsClear w.body ∧ w.rule = r := by
  unfold rule at h
  obtain ⟨before, s₁, hbefore, h⟩ := Parsed.bind_eq_done.mp h
  obtain ⟨name, s₂, hname, h⟩ := Parsed.bind_eq_done.mp h
  obtain ⟨behind, s₃, hbehind, h⟩ := Parsed.bind_eq_done.mp h
  obtain ⟨_, s₄, hequals, h⟩ := Parsed.bind_eq_done.mp h
  obtain ⟨body, s₅, hbody, h⟩ := Parsed.bind_eq_done.mp h
  obtain ⟨_, s₆, hend, h⟩ := Parsed.bind_eq_done.mp h
  cases h
  obtain ⟨front, hfront, rfl, -⟩ := markers_eq_done.mp hbefore
  obtain ⟨back, hback, rfl, -⟩ := markers_eq_done.mp hbehind
  obtain ⟨equals, hequals⟩ := equalsSign_eq_done.mp hequals
  obtain ⟨x, hx, hclear, rfl⟩ := (reads_expression _ _).sound hbody
  obtain ⟨semicolon, hsemicolon⟩ := terminator_eq_done.mp hend
  let w : Written.Rule := ⟨front, name, back, equals, x, semicolon⟩
  have hpasses : s.Passes w.tokens t :=
    hfront.append ((ruleName_eq_done.mp hname).append (hback.append (hequals.append
      (hx.append hsemicolon))))
  refine ⟨w, hpasses, hclear, ?_⟩
  rw [hpasses.spanFrom (List.append_ne_nil_of_right_ne_nil _ (List.cons_ne_nil _ _)),
    Written.Rule.rule,
    List.map_append]

theorem passes_rule {w : Written.Rule} :
    s.Passes w.tokens t ↔
      ∃ u, s.Passes w.openTokens u ∧ u.Passes [⟨.semicolon, w.semicolon⟩] t := by
  rw [w.tokens_eq, TokenStream.passes_append]

/-- What a rule makes of its tokens is settled by its terminator. -/
theorem rule_of_open {w : Written.Rule} (h : s.Passes w.openTokens t)
    (hclear : Phrase.IsClear w.body) (hend : EndsBody t) :
    rule s = (terminator w.name.value t).bind fun _ after =>
      .done ⟨w.name.value, w.name.span, (w.before ++ w.behind).map Mark.marker, Phrase.expr w.body,
        after.spanFrom s.position⟩ after := by
  obtain ⟨s₁, hbefore, hrest⟩ := TokenStream.passes_append.mp h
  obtain ⟨hname, hrest⟩ := TokenStream.passes_cons.mp hrest
  obtain ⟨s₃, hbehind, hrest⟩ := TokenStream.passes_append.mp hrest
  obtain ⟨hequals, hbody⟩ := TokenStream.passes_cons.mp hrest
  have hnamed := TokenStream.passes_advance hname
  have hequaled := TokenStream.passes_advance hequals
  have hfront : markers s = .done (w.before.map Mark.marker) s₁ :=
    markers_eq_done.mpr ⟨w.before, hbefore, rfl,
      isBehindMarks_of_token? hnamed.token? (by simp) (by simp)⟩
  have hback : markers s₁.advance = .done (w.behind.map Mark.marker) s₃ :=
    markers_eq_done.mpr ⟨w.behind, hbehind, rfl,
      isBehindMarks_of_token? hequaled.token? (by simp) (by simp)⟩
  have hread : expression Limits.nestingDepth (.rule w.name.value) s₃.advance =
      .done (Phrase.expr w.body) t :=
    (reads_expression _ _).complete hbody hclear hend
  have hsign : equalsSign s₃ = .done () s₃.advance := equalsSign_eq_done.mpr ⟨_, hequaled⟩
  simp only [rule, hfront, ruleName_eq_done.mpr hnamed, hback, hsign, hread, Parsed.bind,
    List.map_append]

theorem rule_complete {w : Written.Rule} (h : s.Passes w.tokens t)
    (hclear : Phrase.IsClear w.body) :
    rule s = .done w.rule t := by
  have hspan := h.spanFrom (List.append_ne_nil_of_right_ne_nil _ (List.cons_ne_nil _ _))
  obtain ⟨u, hopen, hend⟩ := passes_rule.mp h
  have hclosed : terminator w.name.value u = .done () t := terminator_eq_done.mpr ⟨_, hend⟩
  rw [rule_of_open hopen hclear (endsBody_of_token? hend.token? (by simp)), hclosed]
  simp only [Parsed.bind, hspan, Written.Rule.rule]

/-! ## Directives and items -/

theorem directive_sound {d : Directive} {percent : Span}
    (hpercent : s.current? = some ⟨.percent, percent⟩) (h : directive s = .done d t) :
    ∃ w : Written.Directive, s.Passes w.tokens t ∧ w.directive = d := by
  unfold directive at h
  split at h
  · rename_i name hname
    obtain ⟨span, hname⟩ := TokenStream.exists_current?_of_token? hname
    dsimp only at h
    split at h
    · cases h
    · rename_i text hvalue
      obtain ⟨word, hword, rfl⟩ := valueToken?_eq_some.mp hvalue
      split at h
      · cases h
      · rename_i u hclosed
        obtain ⟨semicolon, hsemicolon⟩ := (TokenStream.takeIf?_eq_some rfl).mp hclosed
        let w : Written.Directive := ⟨percent, ⟨name, span⟩, word, semicolon⟩
        have hpasses : s.Passes w.tokens u :=
          (TokenStream.passes_advance hpercent).append ((TokenStream.passes_advance hname).append
            ((TokenStream.passes_advance hword).append hsemicolon))
        cases h
        refine ⟨w, hpasses, ?_⟩
        rw [hpasses.spanFrom (List.cons_ne_nil _ _)]
        rfl
  · cases h

theorem directive_complete {w : Written.Directive} (h : s.Passes w.tokens t) :
    directive s = .done w.directive t := by
  have hspan := h.spanFrom (List.cons_ne_nil _ _)
  obtain ⟨-, hrest⟩ := TokenStream.passes_cons.mp h
  obtain ⟨hname, hrest⟩ := TokenStream.passes_cons.mp hrest
  obtain ⟨hword, hsemicolon⟩ := TokenStream.passes_cons.mp hrest
  have hvalue : valueToken? s.advance.advance = some w.value.value.text :=
    valueToken?_eq_some.mpr ⟨w.value, hword, rfl⟩
  have hclosed : s.advance.advance.advance.takeIf? .semicolon = some t :=
    (TokenStream.takeIf?_eq_some rfl).mpr ⟨_, hsemicolon⟩
  simp only [directive, TokenStream.token?, hname, Option.map_some, hvalue, hclosed, hspan,
    Written.Directive.directive]

/-- What the parser calls a written item. -/
def itemOf : Written.Item → Item
  | .directive d => .directive d.directive
  | .rule r => .rule r.rule

theorem item_sound {i : Item} (h : item s = .done i t) :
    ∃ w : Written.Item, s.Passes w.tokens t ∧ w.IsClear ∧ itemOf w = i := by
  unfold item at h
  split at h
  · rename_i hpercent
    obtain ⟨d, u, hd, h⟩ := Parsed.bind_eq_done.mp h
    cases h
    obtain ⟨span, hcurrent⟩ := TokenStream.exists_current?_of_token? hpercent
    obtain ⟨w, hpasses, rfl⟩ := directive_sound hcurrent hd
    exact ⟨.directive w, hpasses, trivial, rfl⟩
  · obtain ⟨r, u, hr, h⟩ := Parsed.bind_eq_done.mp h
    cases h
    obtain ⟨w, hpasses, hclear, rfl⟩ := rule_sound hr
    exact ⟨.rule w, hpasses, hclear, rfl⟩
  · obtain ⟨r, u, hr, h⟩ := Parsed.bind_eq_done.mp h
    cases h
    obtain ⟨w, hpasses, hclear, rfl⟩ := rule_sound hr
    exact ⟨.rule w, hpasses, hclear, rfl⟩
  · cases h
  · cases h

/-- A rule begins with a marker or with its name. -/
theorem token?_rule {w : Written.Rule} (h : s.Passes w.openTokens t) :
    s.token? = some .atSign ∨ s.token? = some (.identifier w.name.value) := by
  obtain ⟨u, hbefore, hrest⟩ := TokenStream.passes_append.mp h
  rcases eq_nil_or_token?_of_allTokens hbefore with ⟨-, rfl⟩ | ⟨-, hsign⟩
  · exact .inr hrest.token?
  · exact .inl hsign

theorem item_complete {w : Written.Item} (h : s.Passes w.tokens t) (hclear : w.IsClear) :
    item s = .done (itemOf w) t := by
  cases w with
  | directive d =>
    have htoken : s.token? = some .percent := h.token?
    simp only [item, htoken, directive_complete h, Parsed.bind, itemOf]
  | rule r =>
    have hread := rule_complete h hclear
    obtain ⟨u, hopen, -⟩ := passes_rule.mp h
    rcases token?_rule hopen with htoken | htoken <;>
      simp only [item, htoken, hread, Parsed.bind, itemOf]

theorem item_atEnd {w : Written.Item} (h : s.Passes w.tokens t) : s.atEnd = false := by
  cases w with
  | directive d =>
    have htoken : s.token? = some .percent := h.token?
    simp [TokenStream.atEnd, htoken]
  | rule r =>
    obtain ⟨u, hopen, -⟩ := passes_rule.mp h
    rcases token?_rule hopen with htoken | htoken <;> simp [TokenStream.atEnd, htoken]

theorem item_remaining_lt {w : Written.Item} (h : s.Passes w.tokens t) :
    t.remaining < s.remaining := by
  have hremaining := h.remaining
  have hlength : 0 < w.tokens.length := by
    cases w with
    | directive d => exact Nat.succ_pos _
    | rule r =>
      simp only [Written.Item.tokens, Written.Rule.tokens, List.length_append, List.length_cons]
      omega
  omega

end Parser

/-! ## Whole grammars -/

namespace ParseState

variable {state : ParseState}

/-- The state behind some written items: they are noted, and no error is. -/
def behind (state : ParseState) (text : Text) (s : TokenStream) : ParseState where
  stream := s
  directives := (text.filterMap Written.Item.directive?).reverse ++ state.directives
  rules := (text.filterMap Written.Item.rule?).reverse ++ state.rules
  errors := state.errors

theorem behind_cons (i : Written.Item) (text : Text) (u : TokenStream) :
    (state.behind [i] u).behind text s = state.behind (i :: text) s := by
  cases i <;> simp [behind, List.filterMap_cons, Written.Item.directive?, Written.Item.rule?]

theorem step_done {i : Written.Item} (h : Parser.item state.stream = .done (Parser.itemOf i) s) :
    state.step = state.behind [i] s := by
  cases i <;> simp [step, h, behind, Parser.itemOf, Written.Item.directive?, Written.Item.rule?]

theorem errors_note_ne_nil (state : ParseState) (error : SyntaxError) (s : TokenStream) :
    (state.note error s).errors ≠ [] := by
  unfold note
  dsimp only
  split
  · simp
  · split <;> simp

theorem eq_nil_of_step (h : state.step.errors = []) : state.errors = [] := by
  unfold step at h
  split at h
  · exact h
  · exact h
  · exact absurd h (errors_note_ne_nil _ _ _)

theorem eq_nil_of_run {preferences : ParsePreferences} (h : (run preferences state).errors = []) :
    state.errors = [] := by
  fun_induction run preferences state with
  | case1 => exact h
  | case2 => exact eq_nil_of_step h
  | case3 _ _ _ _ _ ih => exact eq_nil_of_step (ih h)
  | case4 => exact eq_nil_of_step h

/-- A step without an error reads a written item. -/
theorem step_sound (h : state.step.errors = []) :
    ∃ i : Written.Item, state.stream.Passes i.tokens state.step.stream ∧ i.IsClear ∧
      state.step = state.behind [i] state.step.stream := by
  cases hitem : Parser.item state.stream with
  | done i s =>
    obtain ⟨w, hpasses, hclear, rfl⟩ := Parser.item_sound hitem
    have hstep := step_done hitem
    have hstream : state.step.stream = s := by
      rw [hstep]
      rfl
    rw [hstream]
    exact ⟨w, hpasses, hclear, hstep⟩
  | failed error s =>
    simp only [step, hitem] at h
    exact absurd h (errors_note_ne_nil _ _ _)

/-- A run without an error reads a written grammar, up to the end. -/
theorem run_sound {preferences : ParsePreferences} (h : (run preferences state).errors = []) :
    ∃ (text : Text) (s : TokenStream), state.stream.Passes text.tokens s ∧ s.atEnd = true ∧
      (∀ i ∈ text, i.IsClear) ∧ run preferences state = state.behind text s := by
  fun_induction run preferences state with
  | case1 state hend => exact ⟨[], state.stream, .nil _, hend, by simp, rfl⟩
  | case2 state _ next hfinal =>
    have herrors : next.errors = [] := h
    simp [isFinal, herrors] at hfinal
  | case3 state _ next _ _ ih =>
    obtain ⟨i, hi, hclear, hstep⟩ := step_sound (eq_nil_of_run h)
    obtain ⟨text, s, htext, hend, hall, hrun⟩ := ih h
    refine ⟨i :: text, s, hi.append htext, hend, List.forall_mem_cons.mpr ⟨hclear, hall⟩, ?_⟩
    rw [hrun, ← behind_cons i text next.stream, ← hstep]
  | case4 state _ next _ hshort =>
    obtain ⟨i, hi, -⟩ := step_sound h
    exact absurd (Parser.item_remaining_lt hi) hshort

theorem run_complete {preferences : ParsePreferences} {text : Text}
    (h : state.stream.Passes text.tokens s) (hend : s.atEnd = true)
    (hclear : ∀ i ∈ text, i.IsClear) : run preferences state = state.behind text s := by
  induction text generalizing state with
  | nil =>
    obtain rfl := TokenStream.Passes.nil_iff.mp h
    rw [run, if_pos hend]
    rfl
  | cons i text ih =>
    obtain ⟨hi, hall⟩ := List.forall_mem_cons.mp hclear
    obtain ⟨u, hitem, hrest⟩ := TokenStream.passes_append.mp h
    have hstep := step_done (Parser.item_complete hitem hi)
    have hnot : ¬state.stream.atEnd = true := by simp [Parser.item_atEnd hitem]
    have hgoes : ¬isFinal preferences state state.step = true := by
      rw [hstep]
      simp [isFinal, behind]
    have hshorter : state.step.stream.remaining < state.stream.remaining := by
      rw [hstep]
      exact Parser.item_remaining_lt hitem
    rw [run, if_neg hnot]
    dsimp only
    rw [if_neg hgoes, if_pos hshorter, hstep, ih hrest hall, behind_cons]

end ParseState

namespace Written

/-- Every token of a written grammar comes before the end of the text. -/
theorem Item.ne_endOfInput (i : Item) : ∀ token ∈ i.tokens, token.value ≠ .endOfInput := by
  cases i with
  | directive d =>
    obtain ⟨percent, name, ⟨_ | _, span⟩, semicolon⟩ := d <;>
      simp [Item.tokens, Directive.tokens, Word.token]
  | rule r =>
    intro token htoken
    rw [Item.tokens, r.tokens_eq, List.mem_append, List.mem_singleton] at htoken
    rcases htoken with hmem | rfl
    · exact (r.isInner token hmem).2
    · simp

/-- A written grammar is spelled by some tokens: layout apart, they are its text. -/
structure Text.Spelled (text : Text) (tokens : List (Located Token)) : Prop where
  tokens_eq : text.tokens = tokens.filter fun token => token.value.isSignificant
  isGrammar : text.IsGrammar

end Written

namespace TokenStream

/-- Tokens up to the end of the text, taken apart in two ways. -/
theorem eq_of_append_end {a b rest : List (Located Token)} {stop : Located Token}
    (h : a ++ [stop] = b ++ rest) (hstop : stop.value = .endOfInput)
    (ha : ∀ token ∈ a, token.value ≠ .endOfInput) (hb : ∀ token ∈ b, token.value ≠ .endOfInput)
    (hend : ∀ token ∈ rest.head?, token.value = .endOfInput) : b = a := by
  have htake := congrArg (List.takeWhile fun token => token.value != .endOfInput) h
  have hrest : rest.takeWhile (fun token => token.value != .endOfInput) = [] := by
    cases rest with
    | nil => rfl
    | cons first more => simp [hend first rfl]
  rw [List.takeWhile_append_of_pos (by simpa using ha),
    List.takeWhile_append_of_pos (by simpa using hb), hrest] at htake
  simpa [hstop] using htake.symm

theorem atEnd_iff {s : TokenStream} :
    s.atEnd = true ↔ ∀ token ∈ s.rest.head?, token.value = .endOfInput := by
  rw [atEnd, token?_eq]
  cases s.rest.head? with
  | none => simp
  | some token => cases hvalue : token.value <;> simp [hvalue]

/-- A grammar is returned just if no errors were found and there are rules. -/
theorem result_eq_ok {state : ParseState} {g : Grammar} :
    state.result = .ok g ↔ state.errors = [] ∧ state.rules ≠ [] ∧
      Grammar.ofParts state.directives.reverse state.rules.reverse = g := by
  obtain ⟨s, directives, rules, errors⟩ := state
  cases errors with
  | nil => cases rules <;> simp [ParseState.result, ParseState.allErrors]
  | cons error errors => simp [ParseState.result, ParseState.allErrors]

theorem hasRule_iff {text : Text} :
    (∃ r, Written.Item.rule r ∈ text) ↔ text.filterMap Written.Item.rule? ≠ [] := by
  rw [Ne, List.filterMap_eq_nil_iff]
  push Not
  constructor
  · rintro ⟨r, hr⟩
    exact ⟨.rule r, hr, by simp [Written.Item.rule?]⟩
  · rintro ⟨i, hi, hrule⟩
    cases i with
    | directive d => exact absurd rfl hrule
    | rule r => exact ⟨r, hi⟩

variable {tokens : List (Located Token)} {stop : Located Token} {preferences : ParsePreferences}

theorem grammar_sound (hstop : stop.value = .endOfInput)
    (htokens : ∀ token ∈ tokens, token.value ≠ .endOfInput) {g : Grammar}
    (h : (ofTokens (tokens ++ [stop])).grammar preferences = .ok g) :
    ∃ text : Text, text.Spelled tokens ∧ text.grammar = g := by
  obtain ⟨herrors, hrules, rfl⟩ := result_eq_ok.mp h
  obtain ⟨text, t, hpasses, hend, hclear, hrun⟩ := ParseState.run_sound herrors
  have hsplit : (tokens.filter fun token => token.value.isSignificant) ++ [stop] =
      text.tokens ++ t.rest := by
    rw [← hpasses.rest_eq, ParseState.initial, rest_ofTokens, List.filter_append]
    simp [hstop, Token.isSignificant, Token.isLayout]
  have hspelled : text.tokens = tokens.filter fun token => token.value.isSignificant := by
    refine eq_of_append_end hsplit hstop (fun token htoken => ?_) (fun token htoken => ?_)
      (atEnd_iff.mp hend)
    · exact htokens token (List.mem_filter.mp htoken).1
    · obtain ⟨i, -, hi⟩ := List.mem_flatMap.mp htoken
      exact i.ne_endOfInput token hi
  rw [parse, hrun] at hrules ⊢
  simp only [ParseState.behind, ParseState.initial, List.append_nil, ne_eq,
    List.reverse_eq_nil_iff] at hrules
  refine ⟨text, ⟨hspelled, hasRule_iff.mpr hrules, hclear⟩, ?_⟩
  simp [ParseState.behind, ParseState.initial, Text.grammar]

theorem grammar_complete (hstop : stop.value = .endOfInput) {text : Text}
    (h : text.Spelled tokens) :
    (ofTokens (tokens ++ [stop])).grammar preferences = .ok text.grammar := by
  have hrest : (ofTokens (tokens ++ [stop])).rest = text.tokens ++ [stop] := by
    rw [rest_ofTokens, List.filter_append, h.tokens_eq]
    simp [hstop, Token.isSignificant, Token.isLayout]
  obtain ⟨t, hpasses, ht⟩ := exists_passes hrest
  have hend : t.atEnd = true := atEnd_iff.mpr (by simp [ht, hstop])
  have hrun : ParseState.run preferences (ParseState.initial (ofTokens (tokens ++ [stop]))) = _ :=
    ParseState.run_complete hpasses hend h.isGrammar.clear
  refine result_eq_ok.mpr ?_
  rw [parse, hrun]
  refine ⟨rfl, ?_, ?_⟩
  · simpa [ParseState.behind, ParseState.initial] using hasRule_iff.mp h.isGrammar.hasRule
  · simp [ParseState.behind, ParseState.initial, Text.grammar]

/-- The parser accepts exactly the texts of written grammars and returns the grammar that is meant.
There is only one: all written grammars of one text mean the same. Its rules and expressions carry
every written marker once and in order. -/
theorem grammar_iff_spelled (preferences : ParsePreferences) (tokens : List (Located Token))
    (stop : Located Token) (hstop : stop.value = .endOfInput)
    (htokens : ∀ token ∈ tokens, token.value ≠ .endOfInput) :
    (∀ g, (ofTokens (tokens ++ [stop])).grammar preferences = .ok g ↔
      ∃ text : Text, text.Spelled tokens ∧ text.grammar = g) ∧
    (∀ text other : Text, text.Spelled tokens → other.Spelled tokens →
      text.grammar = other.grammar) ∧
    ∀ text : Text, text.Spelled tokens → Accounts text.grammar.markerLists text.marks := by
  have hcomplete (text : Text) (h : text.Spelled tokens) :
      (ofTokens (tokens ++ [stop])).grammar preferences = .ok text.grammar :=
    grammar_complete hstop h
  refine ⟨fun g => ⟨grammar_sound hstop htokens, ?_⟩, fun text other h h' => ?_,
    fun text _ => text.accounts⟩
  · rintro ⟨text, hspelled, rfl⟩
    exact hcomplete text hspelled
  · exact Except.ok.inj ((hcomplete text h).symm.trans (hcomplete other h'))

/-- The rule `A = @class(B) C "d"* @skip ;`, with a marker on the sequence and one on its second
element. -/
theorem grammar_of_marked_rule :
    let place (token : Token) : Located Token := ⟨token, Span.placeholder⟩
    let tokens := [.identifier "A", .blank, .equals, .atSign, .identifier "class", .leftParen,
      .identifier "B", .rightParen, .identifier "C", .literal "d", .star, .atSign,
      .identifier "skip", .semicolon].map place
    ∃ g, (ofTokens (tokens ++ [place .endOfInput])).grammar ⟨true, false⟩ = .ok g ∧
      g.rules.toList.map (fun r => r.body.markerLists.map (·.map Marker.display)) =
        [[["@class(B)"], [], ["@skip"], []]] := by
  intro place tokens
  let here := Span.placeholder
  let body : Written.Alternation (Body 127) :=
    ⟨⟨[⟨here, ⟨"class", here⟩, some ⟨here, ⟨.name "B", here⟩, here⟩⟩],
      ⟨.reference ⟨"C", here⟩, [], []⟩,
      [⟨.terminal ⟨.literal "d", here⟩, [⟨.repeated .zeroOrMore, here⟩],
        [⟨here, ⟨"skip", here⟩, none⟩]⟩]⟩, []⟩
  let text : Text := [.rule ⟨[], ⟨"A", here⟩, [], here, body, here⟩]
  have hclear : Phrase.IsClear body := by
    refine (Parser.alternation_isClear body).mpr ⟨⟨?_, ?_, ?_⟩, by simp [body]⟩
    · rintro ⟨-, hgroup⟩
      exact hgroup
    · exact List.isChain_pair.mpr fun hclash => hclash.2
    · simp [body, Sequence.elements, Primary.IsClear]
  have hspelled : text.Spelled tokens :=
    ⟨rfl, ⟨_, List.mem_singleton.mpr rfl⟩, List.forall_mem_singleton.mpr hclear⟩
  have hread := (grammar_iff_spelled ⟨true, false⟩ tokens (place .endOfInput) rfl (by decide)).1
  exact ⟨text.grammar, (hread _).mpr ⟨text, hspelled, rfl⟩, by decide⟩

end TokenStream

end AnnotatedGrammar
