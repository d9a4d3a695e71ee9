import Mathlib
import AnnotatedGrammar.Proofs.Syntax.Locality

/-!
# Parsing segment by segment

A segment is a stretch of tokens closed by its only semicolon. Parsing several segments one behind
the other finds what parsing each of them alone finds: faults stay in their segment, since reading
stops in front of the semicolon and goes on behind it. Only the limit on the number of errors is one
for the whole text.
-/

namespace AnnotatedGrammar

/-- Significant tokens closed by one semicolon. -/
structure Segment where
  body : List (Located Token)
  /-- Where the semicolon stands. -/
  stop : Span
  inner : ∀ token ∈ body, token.value.isSignificant = true ∧
    token.value ≠ .semicolon ∧ token.value ≠ .endOfInput

namespace Segment

/-- The tokens of a segment, its semicolon included. -/
def tokens (segment : Segment) : List (Located Token) :=
  segment.body ++ [⟨.semicolon, segment.stop⟩]

@[simp] theorem length_tokens (segment : Segment) :
    segment.tokens.length = segment.body.length + 1 := by
  simp [tokens]

theorem filter_tokens (segment : Segment) :
    segment.tokens.filter (fun token => token.value.isSignificant) = segment.tokens := by
  refine List.filter_eq_self.mpr fun token hmem => ?_
  rcases List.mem_append.mp hmem with hbody | hstop
  · exact (segment.inner token hbody).1
  · rw [List.mem_singleton.mp hstop]
    rfl

theorem filter_flatMap_tokens (segments : List Segment) :
    (segments.flatMap tokens).filter (fun token => token.value.isSignificant) =
      segments.flatMap tokens := by
  induction segments with
  | nil => rfl
  | cons segment segments ih =>
    rw [List.flatMap_cons, List.filter_append, filter_tokens, ih]

/-- A stream that goes on with a segment shares it with any other list that begins with it. -/
theorem shared (segment : Segment) {s : TokenStream} {more more' : List (Located Token)}
    (h : s.rest = segment.tokens ++ more) :
    SharedSegment (segment.tokens ++ more').toArray s.significant s.position
      segment.tokens.length := by
  refine ⟨fun i hi => ?_, fun i hi token htoken => ?_, fun _ => ⟨segment.stop, ?_⟩⟩
  · have hrest : s.rest[i]? = s.significant[i + s.position]? := by
      simp [TokenStream.rest, Nat.add_comm]
    rw [← hrest, h, List.getElem?_append_left hi, List.getElem?_toArray,
      List.getElem?_append_left hi]
  · rw [length_tokens] at hi
    rw [List.getElem?_toArray, List.getElem?_append_left (by rw [length_tokens]; omega), tokens,
      List.getElem?_append_left (by omega)] at htoken
    exact (segment.inner token (List.mem_of_getElem? htoken)).2
  · rw [length_tokens, List.getElem?_toArray, List.getElem?_append_left (by simp), tokens]
    simp

/-- What parsing finds in a segment that stands alone in front of the `ending` of a text. -/
def parse (preferences : ParsePreferences) (ending : List (Located Token)) (segment : Segment) :
    ParseState :=
  (TokenStream.ofTokens (segment.tokens ++ ending)).parse preferences

end Segment

namespace TokenStream

theorem atEnd_congr {s t : TokenStream} (h : s.rest = t.rest) : s.atEnd = t.atEnd := by
  rw [atEnd, atEnd, token?_eq, token?_eq, h]

end TokenStream

namespace ParseState

/-- What is wrong, in the order of the errors. -/
def faults (state : ParseState) : List SyntaxFault :=
  state.errors.reverse.map (·.value)

/-- Parsing is not yet over: no error has ended it. -/
structure IsOpen (state : ParseState) : Prop where
  few : state.errors.length < Limits.syntaxErrors
  going : ∀ error ∈ state.errors, error.value.endsParsing = false

/-- `whole` has found what `alone` has found, behind all that `before` holds. -/
structure FoundBehind (before alone whole : ParseState) : Prop where
  directives : whole.directives = alone.directives ++ before.directives
  rules : whole.rules = alone.rules ++ before.rules
  faults : whole.faults = before.faults ++ alone.faults

variable {before alone whole : ParseState}

theorem isOpen_initial (s : TokenStream) : (initial s).IsOpen :=
  ⟨Nat.zero_lt_succ _, by simp [initial]⟩

theorem length_faults (state : ParseState) : state.faults.length = state.errors.length := by
  simp [faults]

theorem isOpen_iff {state : ParseState} :
    state.IsOpen ↔ state.faults.length < Limits.syntaxErrors ∧
      ∀ fault ∈ state.faults, fault.endsParsing = false := by
  rw [length_faults]
  simp only [faults, List.mem_map, List.mem_reverse, forall_exists_index, and_imp,
    forall_apply_eq_imp_iff₂]
  exact ⟨fun h => ⟨h.few, h.going⟩, fun h => ⟨h.1, h.2⟩⟩

theorem FoundBehind.isOpen_alone (h : FoundBehind before alone whole) (hopen : whole.IsOpen) :
    alone.IsOpen := by
  rw [isOpen_iff, h.faults] at hopen
  rw [isOpen_iff]
  refine ⟨?_, fun fault hmem => hopen.2 fault (List.mem_append_right _ hmem)⟩
  have := hopen.1
  rw [List.length_append] at this
  omega

/-! ## One step -/

theorem note_eq_of_full {state : ParseState} {error : SyntaxError} {s : TokenStream}
    (h : Limits.syntaxErrors ≤ state.errors.length + 1) :
    state.note error s =
      { state with
        stream := s
        errors := ⟨.tooManyErrors, s.currentSpan⟩ :: error :: state.errors } := by
  rw [note]
  exact if_pos h

theorem note_eq_of_missing {state : ParseState} {error : SyntaxError} {s : TokenStream}
    (h : state.errors.length + 1 < Limits.syntaxErrors) {name : String}
    (herror : error.value = .missingTerminator name) :
    state.note error s = { state with stream := s, errors := error :: state.errors } := by
  rw [note]
  simp only [List.length_cons, if_neg (Nat.not_le.mpr h), herror]

theorem note_eq_of_ordinary {state : ParseState} {error : SyntaxError} {s : TokenStream}
    (h : state.errors.length + 1 < Limits.syntaxErrors)
    (herror : error.value.isOrdinary = true) :
    state.note error s =
      { state with stream := Parser.skipPastSemicolon s, errors := error :: state.errors } := by
  rw [note]
  simp only [List.length_cons, if_neg (Nat.not_le.mpr h)]
  split
  · simp_all [SyntaxFault.isOrdinary]
  · rfl

theorem errors_suffix_note (state : ParseState) (error : SyntaxError) (s : TokenStream) :
    error :: state.errors <:+ (state.note error s).errors := by
  unfold note
  dsimp only
  split
  · exact List.suffix_cons _ _
  · split <;> exact List.suffix_rfl

theorem errors_suffix_step (state : ParseState) : state.errors <:+ state.step.errors := by
  unfold step
  split
  · exact List.suffix_rfl
  · exact List.suffix_rfl
  · exact (List.suffix_cons _ _).trans (errors_suffix_note _ _ _)

/-- Reading on never takes an error back. -/
theorem errors_suffix_run (preferences : ParsePreferences) (state : ParseState) :
    state.errors <:+ (run preferences state).errors := by
  fun_induction run preferences state with
  | case1 => exact List.suffix_rfl
  | case2 state hend next hfinal => exact errors_suffix_step state
  | case3 state hend next hfinal hlt ih => exact (errors_suffix_step state).trans ih
  | case4 state hend next hfinal hlt => exact errors_suffix_step state

theorem errors_step_suffix_run (preferences : ParsePreferences) {state : ParseState}
    (hend : state.stream.atEnd = false) :
    state.step.errors <:+ (run preferences state).errors := by
  rw [run.eq_def]
  simp only [hend, Bool.false_eq_true, if_false]
  split
  · exact List.suffix_rfl
  · split
    · exact errors_suffix_run preferences state.step
    · exact List.suffix_rfl

theorem faults_cons (state : ParseState) (s : TokenStream) (error : SyntaxError) :
    faults { state with stream := s, errors := error :: state.errors } =
      state.faults ++ [error.value] := by
  simp [faults]

theorem IsOpen.cons {state : ParseState} (h : state.IsOpen) (s : TokenStream) {error : SyntaxError}
    (hfew : state.errors.length + 1 < Limits.syntaxErrors)
    (herror : error.value.endsParsing = false) :
    IsOpen { state with stream := s, errors := error :: state.errors } :=
  ⟨hfew, List.forall_mem_cons.mpr ⟨herror, h.going⟩⟩

theorem FoundBehind.cons (h : FoundBehind before alone whole) (s t : TokenStream)
    {error error' : SyntaxError} (hvalue : error'.value = error.value) :
    FoundBehind before { alone with stream := s, errors := error :: alone.errors }
      { whole with stream := t, errors := error' :: whole.errors } := by
  refine ⟨h.directives, h.rules, ?_⟩
  rw [faults_cons, faults_cons, h.faults, hvalue, List.append_assoc]

theorem FoundBehind.length_le (h : FoundBehind before alone whole) :
    alone.errors.length ≤ whole.errors.length := by
  rw [← length_faults, ← length_faults, h.faults, List.length_append]
  omega

/-- Errors only grow, so faults are only found behind those found before. -/
theorem faults_of_suffix {state after : ParseState} (h : state.errors <:+ after.errors) :
    state.faults <+: after.faults :=
  (List.reverse_prefix.mpr h).map _

section

variable {a b : Array (Located Token)} {k n : Nat} (g : SharedSegment a b k n)
include g

/-- Where two states stand after the same step: behind the segment, or further on in it. -/
def Proceeds (a b : Array (Located Token)) (k n position : Nat) (s t : TokenStream) : Prop :=
  s.Behind a b k n t ∨ s.Alike a b k n (position + 1) t

/-- One step in the middle of a segment finds the same in the segment alone as in the whole text,
unless it is the step that finds one error too many. -/
theorem step_alike (h : alone.stream.Alike a b k n alone.stream.position whole.stream)
    (found : FoundBehind before alone whole) (hopen : whole.IsOpen) :
    (FoundBehind before alone.step whole.step ∧ whole.step.IsOpen ∧
      Proceeds a b k n alone.stream.position alone.step.stream whole.step.stream) ∨
    (whole.errors.length + 1 = Limits.syntaxErrors ∧
      ∃ fault, whole.step.faults = whole.faults ++ [fault, .tooManyErrors] ∧
        alone.faults ++ [fault] <+: alone.step.faults) := by
  have hitem := Parser.item_concludes g h
  unfold step
  generalize Parser.item alone.stream = r at hitem ⊢
  generalize Parser.item whole.stream = r' at hitem ⊢
  cases r <;> cases r'
  case done.done v s w t =>
    obtain ⟨rfl, hbehind⟩ := hitem
    refine .inl ?_
    cases w with
    | directive d =>
      exact ⟨⟨congrArg (d :: ·) found.directives, found.rules, found.faults⟩,
        ⟨hopen.few, hopen.going⟩, .inl hbehind⟩
    | rule r =>
      exact ⟨⟨found.directives, congrArg (r :: ·) found.rules, found.faults⟩,
        ⟨hopen.few, hopen.going⟩, .inl hbehind⟩
  case failed.failed e s f t =>
    obtain ⟨hvalue, hkind, halike⟩ := hitem
    dsimp only
    by_cases hfull : Limits.syntaxErrors ≤ whole.errors.length + 1
    · refine .inr ⟨Nat.le_antisymm hopen.few hfull, f.value, ?_, ?_⟩
      · rw [note_eq_of_full hfull]
        simp [faults]
      · rw [hvalue, ← faults_cons alone s e]
        exact faults_of_suffix (errors_suffix_note alone e s)
    · have hfew : whole.errors.length + 1 < Limits.syntaxErrors := Nat.lt_of_not_le hfull
      have hfew' : alone.errors.length + 1 < Limits.syntaxErrors :=
        Nat.lt_of_le_of_lt (Nat.succ_le_succ found.length_le) hfew
      refine .inl ?_
      rcases hkind with hordinary | ⟨⟨name, hname⟩, hlt⟩
      · have hends : f.value.endsParsing = false := by
          rw [hvalue]
          cases he : e.value <;> simp_all [SyntaxFault.isOrdinary, SyntaxFault.endsParsing]
        rw [note_eq_of_ordinary hfew' hordinary, note_eq_of_ordinary hfew (hvalue ▸ hordinary)]
        exact ⟨found.cons _ _ hvalue, hopen.cons _ hfew hends,
          .inl (Parser.skipPastSemicolon_behind g halike)⟩
      · have hends : f.value.endsParsing = false := by rw [hvalue, hname]; rfl
        rw [note_eq_of_missing hfew' hname, note_eq_of_missing hfew (hvalue.trans hname)]
        exact ⟨found.cons _ _ hvalue, hopen.cons _ hfew hends,
          .inr { halike with low_le := hlt }⟩
  all_goals exact hitem.elim

/-! ## A whole segment -/

omit g in
theorem run_of_open {preferences : ParsePreferences} {state : ParseState}
    (hend : state.stream.atEnd = false) (hopen : state.step.IsOpen)
    (hrecover : preferences.recover = true)
    (hlt : state.step.stream.remaining < state.stream.remaining) :
    run preferences state = run preferences state.step := by
  have hfinal : isFinal preferences state state.step = false := by
    have hgoing : state.step.errors.any (fun error => error.value.endsParsing) = false := by
      simpa using hopen.going
    simp [isFinal, hrecover, hgoing]
  rw [run.eq_def preferences state]
  simp [hend, hfinal, hlt]

omit g in
theorem run_of_full {preferences : ParsePreferences} {state : ParseState} {fault : SyntaxFault}
    (hend : state.stream.atEnd = false)
    (hfull : state.step.faults = state.faults ++ [fault, .tooManyErrors]) :
    run preferences state = state.step := by
  have hfinal : isFinal preferences state state.step = true := by
    have hmore : state.errors.length < state.step.errors.length := by
      rw [← length_faults, ← length_faults, hfull]
      simp
    have hends : state.step.errors.any (fun error => error.value.endsParsing) = true := by
      have hmem : SyntaxFault.tooManyErrors ∈ state.step.faults := by simp [hfull]
      obtain ⟨error, herror, hvalue⟩ := List.mem_map.mp hmem
      exact List.any_eq_true.mpr ⟨error, List.mem_reverse.mp herror, by rw [hvalue]; rfl⟩
    simp [isFinal, hmore, hends]
  rw [run.eq_def preferences state]
  simp [hend, hfinal]

omit g in
theorem run_of_atEnd {preferences : ParsePreferences} {state : ParseState}
    (hend : state.stream.atEnd = true) : run preferences state = state := by
  rw [run, if_pos hend]

theorem atEnd_of_alike {low : Nat} {s t : TokenStream} (h : s.Alike a b k n low t) :
    s.atEnd = false ∧ t.atEnd = false := by
  obtain ⟨value, hvalue, hne⟩ := h.exists_token? g
  have hgoing (u : TokenStream) (hu : u.token? = some value) : u.atEnd = false := by
    rw [TokenStream.atEnd, hu]
    cases value <;> first | rfl | exact (hne rfl).elim
  exact ⟨hgoing s hvalue, hgoing t ((h.token? g).trans hvalue)⟩

theorem Proceeds.remaining_lt {low : Nat} {s t s' t' : TokenStream} (h : s.Alike a b k n low t)
    (hnext : Proceeds a b k n s.position s' t') :
    s'.remaining < s.remaining ∧ t'.remaining < t.remaining := by
  have hlt := h.lt
  have hsize := g.le_size (by omega)
  have hposition := h.position
  simp only [TokenStream.remaining, h.left, h.right]
  rcases hnext with hbehind | halike
  · rw [hbehind.left, hbehind.right, hbehind.here, hbehind.there]
    omega
  · have hlow := halike.low_le
    rw [halike.left, halike.right, halike.position]
    omega

/-- Reading the rest of a segment in the whole text finds what it finds alone. Then it goes on
behind the segment, or it has already ended with one error too many. -/
theorem run_alike {preferences : ParsePreferences} (hrecover : preferences.recover = true)
    (hend : ∀ s : TokenStream, s.significant = a → s.position = n → s.atEnd = true)
    (h : alone.stream.Alike a b k n alone.stream.position whole.stream)
    (found : FoundBehind before alone whole) (hopen : whole.IsOpen) :
    (∃ next, run preferences whole = run preferences next ∧
      FoundBehind before (run preferences alone) next ∧ next.IsOpen ∧
      next.stream.significant = b ∧ next.stream.position = n + k) ∨
    (Limits.syntaxErrors ≤ (before.faults ++ (run preferences alone).faults).length ∧
      (run preferences whole).faults =
        (before.faults ++ (run preferences alone).faults).take Limits.syntaxErrors ++
          [.tooManyErrors]) := by
  induction hleft : n - alone.stream.position using Nat.strong_induction_on
    generalizing alone whole with
  | _ left ih =>
    subst hleft
    obtain ⟨hgoing, hgoing'⟩ := atEnd_of_alike g h
    rcases step_alike g h found hopen with ⟨found', hopen', hnext⟩ | ⟨hlast, fault, hfull, hprefix⟩
    · obtain ⟨hlt, hlt'⟩ := hnext.remaining_lt g h
      rw [run_of_open hgoing (found'.isOpen_alone hopen') hrecover hlt,
        run_of_open hgoing' hopen' hrecover hlt']
      rcases hnext with hbehind | halike
      · rw [run_of_atEnd (hend _ hbehind.left hbehind.here)]
        exact .inl ⟨_, rfl, found', hopen', hbehind.right, hbehind.there⟩
      · have hlow := halike.low_le
        have hlt := h.lt
        exact ih _ (by omega) halike.here found' hopen' rfl
    · refine .inr ?_
      rw [run_of_full hgoing' hfull, hfull, found.faults]
      -- the errors up to the one too many are errors of the segment alone as well
      obtain ⟨more, hmore⟩ := hprefix.trans
        (faults_of_suffix (errors_step_suffix_run preferences hgoing))
      have hfirst : (before.faults ++ alone.faults ++ [fault]).length = Limits.syntaxErrors := by
        rw [← found.faults, List.length_append, length_faults, ← hlast]
        rfl
      have hall : before.faults ++ (run preferences alone).faults =
          before.faults ++ alone.faults ++ [fault] ++ more := by
        rw [← hmore]
        simp
      rw [hall, List.length_append, hfirst, ← hfirst, List.take_left]
      exact ⟨Nat.le_add_right _ _, by simp⟩

end

/-! ## Segments one behind the other -/

section

variable {preferences : ParsePreferences} (hrecover : preferences.recover = true)
  {ending : List (Located Token)} (hending : (TokenStream.ofTokens ending).atEnd = true)
include hrecover hending

/-- Reading a segment in the middle of a text. -/
theorem run_segment (segment : Segment) {more : List (Located Token)} {state : ParseState}
    (hrest : state.stream.rest = segment.tokens ++ more) (hopen : state.IsOpen) :
    (∃ next, run preferences state = run preferences next ∧
      FoundBehind state (segment.parse preferences ending) next ∧ next.IsOpen ∧
      next.stream.rest = more) ∨
    (Limits.syntaxErrors ≤
        (state.faults ++ (segment.parse preferences ending).faults).length ∧
      (run preferences state).faults =
        (state.faults ++ (segment.parse preferences ending).faults).take Limits.syntaxErrors ++
          [.tooManyErrors]) := by
  have hleft : (TokenStream.ofTokens (segment.tokens ++ ending)).significant =
      (segment.tokens ++ (TokenStream.ofTokens ending).rest).toArray := by
    rw [TokenStream.rest_ofTokens, TokenStream.ofTokens, List.filter_append, segment.filter_tokens]
  have hend (s : TokenStream)
      (hs : s.significant = (segment.tokens ++ (TokenStream.ofTokens ending).rest).toArray)
      (hposition : s.position = segment.tokens.length) : s.atEnd = true := by
    rw [← hending]
    refine TokenStream.atEnd_congr ?_
    rw [TokenStream.rest, hs, hposition, List.drop_left]
  have hlt : 0 < segment.tokens.length := by simp
  have halike : TokenStream.Alike _ state.stream.significant state.stream.position
      segment.tokens.length 0 (.ofTokens (segment.tokens ++ ending)) state.stream :=
    ⟨hleft, rfl, (Nat.zero_add _).symm, Nat.le_refl _, hlt⟩
  have hfound : FoundBehind state (initial (.ofTokens (segment.tokens ++ ending))) state :=
    ⟨rfl, rfl, by simp [faults, initial]⟩
  rcases run_alike (segment.shared hrest) hrecover hend halike hfound hopen with
    ⟨next, hrun, found, hopen', hsignificant, hposition⟩ | hfull
  · refine .inl ⟨next, hrun, found, hopen', ?_⟩
    have hdrop : next.stream.rest = state.stream.rest.drop segment.tokens.length := by
      rw [TokenStream.rest, TokenStream.rest, hsignificant, hposition, List.drop_drop]
      rw [Nat.add_comm]
    rw [hdrop, hrest, List.drop_left]
  · exact .inr hfull

/-- Reading all segments of a text, from any open state on. -/
theorem run_segments (segments : List Segment) {state : ParseState} (hopen : state.IsOpen)
    (hrest : state.stream.rest =
      segments.flatMap Segment.tokens ++ (TokenStream.ofTokens ending).rest) :
    let alone := segments.map (Segment.parse preferences ending)
    let all := state.faults ++ alone.flatMap faults
    (all.length < Limits.syntaxErrors →
      (run preferences state).faults = all ∧
      (run preferences state).directives.reverse =
        state.directives.reverse ++ alone.flatMap (·.directives.reverse) ∧
      (run preferences state).rules.reverse =
        state.rules.reverse ++ alone.flatMap (·.rules.reverse)) ∧
    (Limits.syntaxErrors ≤ all.length →
      (run preferences state).faults = all.take Limits.syntaxErrors ++ [.tooManyErrors]) := by
  induction segments generalizing state with
  | nil =>
    have hend : state.stream.atEnd = true := by
      rw [← hending]
      exact TokenStream.atEnd_congr hrest
    have hfew := (isOpen_iff.mp hopen).1
    simp [run_of_atEnd hend]
    omega
  | cons segment segments ih =>
    rw [List.flatMap_cons, List.append_assoc] at hrest
    dsimp only
    rw [List.map_cons, List.flatMap_cons, ← List.append_assoc]
    rcases run_segment hrecover hending segment hrest hopen with
      ⟨next, hrun, found, hopen', hmore⟩ | ⟨hfull, hrun⟩
    · have hnext := ih hopen' hmore
      dsimp only at hnext
      rw [found.faults, found.directives, found.rules] at hnext
      rw [hrun]
      simpa using hnext
    · constructor
      · intro hfew
        rw [List.length_append] at hfew
        omega
      · intro _
        rw [hrun, List.take_append_of_le_length hfull]

end

end ParseState

/-- Syntax errors do not escape their segments. With recovery on, parsing segments one behind the
other finds, segment by segment, the faults, directives and rules that parsing each of them alone
finds. From the limit on the number of errors on, the first faults are kept and one fault says that
there are too many. -/
theorem TokenStream.parse_segments {preferences : ParsePreferences}
    (hrecover : preferences.recover = true) (segments : List Segment)
    {ending : List (Located Token)} (hending : (TokenStream.ofTokens ending).atEnd = true) :
    let alone := segments.map (Segment.parse preferences ending)
    let whole := (TokenStream.ofTokens (segments.flatMap Segment.tokens ++ ending)).parse
      preferences
    let all := alone.flatMap ParseState.faults
    (all.length < Limits.syntaxErrors →
      whole.faults = all ∧
      whole.directives.reverse = alone.flatMap (·.directives.reverse) ∧
      whole.rules.reverse = alone.flatMap (·.rules.reverse)) ∧
    (Limits.syntaxErrors ≤ all.length →
      whole.faults = all.take Limits.syntaxErrors ++ [.tooManyErrors]) := by
  have hrest : (TokenStream.ofTokens (segments.flatMap Segment.tokens ++ ending)).rest =
      segments.flatMap Segment.tokens ++ (TokenStream.ofTokens ending).rest := by
    rw [rest_ofTokens, rest_ofTokens, List.filter_append, Segment.filter_flatMap_tokens]
  exact ParseState.run_segments hrecover hending segments (ParseState.isOpen_initial _) hrest

/-- A rule without its semicolon and one without a body share a segment; the rule behind them is
read as if it stood alone. -/
theorem TokenStream.parse_segments_unterminated_rule :
    ∃ first second : Segment,
      first.body.map (·.value) =
        [.identifier "a", .equals, .identifier "b", .identifier "c", .equals] ∧
      second.body.map (·.value) = [.identifier "d", .equals, .identifier "a"] ∧
      let whole := (TokenStream.ofTokens ([first, second].flatMap Segment.tokens ++
        [⟨.endOfInput, .placeholder⟩])).parse ⟨true, false⟩
      whole.faults = [.missingTerminator "a", .emptyExpression (.rule "c")] ∧
        whole.rules.reverse = (second.parse ⟨true, false⟩ [⟨.endOfInput, .placeholder⟩]).rules := by
  let placed (token : Token) : Located Token := ⟨token, .placeholder⟩
  let first : Segment :=
    ⟨[.identifier "a", .equals, .identifier "b", .identifier "c", .equals].map placed,
      .placeholder, by decide⟩
  let second : Segment :=
    ⟨[.identifier "d", .equals, .identifier "a"].map placed, .placeholder, by decide⟩
  have hfaults : ([first, second].map
      (Segment.parse ⟨true, false⟩ [⟨.endOfInput, .placeholder⟩])).flatMap ParseState.faults =
        [.missingTerminator "a", .emptyExpression (.rule "c")] := by
    cbv
  obtain ⟨hwhole, -, hrules⟩ :=
    (@parse_segments ⟨true, false⟩ rfl [first, second] [⟨.endOfInput, .placeholder⟩] rfl).1
      (by rw [hfaults]; decide)
  refine ⟨first, second, rfl, rfl, hwhole.trans hfaults, hrules.trans ?_⟩
  cbv

end AnnotatedGrammar
