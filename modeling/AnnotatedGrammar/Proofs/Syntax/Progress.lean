import AnnotatedGrammar.Proofs.Syntax.Moves
import AnnotatedGrammar.Proofs.Syntax.Segments

/-!
# Every pass of the parser makes progress

A pass reads one directive or rule. After an error parsing goes on behind the next semicolon, which
need not exist, or in place, where only a semicolon was missing. Either way the pass has taken a
token, or it is the last one. The parser keeps one counter for the levels of nesting; it is zero
again after every pass.
-/

namespace AnnotatedGrammar

namespace ParseState

variable {preferences : ParsePreferences} {state : ParseState}

/-- What has been found once an attempt at a directive or a rule has come to its end. -/
def after (state : ParseState) (outcome : Parsed Parser.Item) : ParseState :=
  match outcome with
  | .done (.directive d) s => { state with stream := s, directives := d :: state.directives }
  | .done (.rule r) s => { state with stream := s, rules := r :: state.rules }
  | .failed error s => state.note error s

theorem step_eq (state : ParseState) : state.step = state.after (Parser.item state.stream) := rfl

/-! ## Errors -/

theorem note_moves (error : SyntaxError) (s : TokenStream) :
    s.Leads (state.note error s).stream := by
  unfold note
  dsimp only
  split
  · exact .refl s
  · split
    · exact .refl s
    · exact Parser.skipPastSemicolon_moves s

theorem after_moves (outcome : Parsed Parser.Item) :
    outcome.stream.Leads (state.after outcome).stream := by
  match outcome with
  | .done (.directive d) s => exact .refl s
  | .done (.rule r) s => exact .refl s
  | .failed error s => exact note_moves error s

/-- Where the limit on errors is reached, the pass is the last one. -/
theorem isFinal_note_of_full (h : Limits.syntaxErrors ≤ state.errors.length + 1)
    (error : SyntaxError) (s : TokenStream) :
    isFinal preferences state (state.note error s) = true := by
  rw [note_eq_of_full h, isFinal, Bool.and_eq_true]
  constructor
  · simp only [List.length_cons, decide_eq_true_eq]
    omega
  · rw [List.any_cons]
    simp [SyntaxFault.endsParsing]

/-! ## One pass -/

theorem step_moves (state : ParseState) : state.stream.Leads state.step.stream := by
  rw [step_eq]
  refine TokenStream.Leads.trans ?_ (after_moves _)
  rcases Parser.item_leads state.stream with h | ⟨fault, -, hitem⟩
  · exact h.of_advance
  · rw [hitem]
    exact .refl _

/-- A pass takes the current token, or it is the last one. -/
theorem step_leads (preferences : ParsePreferences) (hend : state.stream.atEnd = false) :
    isFinal preferences state state.step = true ∨
      state.stream.advance.Leads state.step.stream := by
  rw [step_eq]
  rcases Parser.item_leads state.stream with h | ⟨fault, hordinary, hitem⟩
  · exact .inr (h.trans (after_moves _))
  · rw [hitem]
    -- Nothing was taken, so skipping has to take something.
    rcases Nat.lt_or_ge (state.errors.length + 1) Limits.syntaxErrors with hfew | hfull
    · right
      rw [Parsed.failHere, Parsed.failAt, after, note_eq_of_ordinary hfew hordinary]
      exact Parser.skipPastSemicolon_leads hend
    · exact .inl (isFinal_note_of_full hfull _ _)

theorem position_lt_step (hend : state.stream.atEnd = false)
    (hfinal : isFinal preferences state state.step = false) :
    state.stream.position < state.step.stream.position := by
  obtain ⟨token, htoken⟩ := TokenStream.exists_token?_of_atEnd hend
  rcases step_leads preferences hend with h | h
  · rw [hfinal] at h
    cases h
  · exact h.position_lt htoken

/-- Parsing goes on after every pass that is not the last one. -/
theorem run_of_not_atEnd (hend : state.stream.atEnd = false) :
    run preferences state =
      if isFinal preferences state state.step then state.step else run preferences state.step := by
  rw [run, if_neg (by simp [hend])]
  dsimp only
  split
  · rfl
  · rename_i hfinal
    obtain ⟨token, htoken⟩ := TokenStream.exists_token?_of_atEnd hend
    have hleads := (step_leads preferences hend).resolve_left hfinal
    exact if_pos (hleads.remaining_lt htoken)

end ParseState

/-! ## The loop with its counter -/

/-- The parser in front of a pass: what it has found, and how many levels of nesting it takes to be
open. -/
structure CountedState where
  state : ParseState
  levels : Nat

namespace CountedState

open ParseState

variable {preferences : ParsePreferences} {s : TokenStream} {c : CountedState}

/-- The next pass. -/
def step (c : CountedState) : CountedState :=
  let (outcome, levels) := CountedParser.item c.levels c.state.stream
  ⟨c.state.after outcome, levels⟩

/-- The states in front of a pass, while a stream is parsed. -/
inductive Reached (preferences : ParsePreferences) (s : TokenStream) : CountedState → Prop
  | start : Reached preferences s ⟨initial s, 0⟩
  | step {c : CountedState} (h : Reached preferences s c) (hend : c.state.stream.atEnd = false)
      (hfinal : isFinal preferences c.state c.step.state = false) : Reached preferences s c.step

theorem step_eq_of_levels (h : c.levels = 0) : c.step = ⟨c.state.step, 0⟩ := by
  obtain ⟨state, levels⟩ := c
  obtain rfl : levels = 0 := h
  rw [step, CountedParser.item_counts state.stream, ParseState.step_eq]

namespace Reached

theorem levels_eq (h : Reached preferences s c) : c.levels = 0 := by
  induction h with
  | start => rfl
  | step _ _ _ ih => rw [step_eq_of_levels ih]

theorem leads (h : Reached preferences s c) : s.Leads c.state.stream := by
  induction h with
  | start => exact .refl s
  | @step c h _ _ ih =>
    rw [step_eq_of_levels h.levels_eq]
    exact ih.trans (step_moves c.state)

/-- Parsing ends in front of the end of the text, or with a pass that is the last one. -/
theorem run_ends (h : Reached preferences s c) :
    ∃ d, Reached preferences s d ∧
      (d.state.stream.atEnd = true ∧ run preferences c.state = d.state ∨
        d.state.stream.atEnd = false ∧ isFinal preferences d.state d.step.state = true ∧
          run preferences c.state = d.step.state) := by
  induction hremaining : c.state.stream.remaining using Nat.strong_induction_on generalizing c with
  | _ n ih =>
    subst hremaining
    cases hend : c.state.stream.atEnd with
    | true =>
      refine ⟨c, h, .inl ⟨hend, ?_⟩⟩
      rw [run, if_pos hend]
    | false =>
      have hstep : c.step.state = c.state.step := by rw [step_eq_of_levels h.levels_eq]
      have hrun : run preferences c.state = _ := run_of_not_atEnd hend
      rw [← hstep] at hrun
      cases hfinal : isFinal preferences c.state c.step.state with
      | true => exact ⟨c, h, .inr ⟨hend, hfinal, by rw [hrun, if_pos hfinal]⟩⟩
      | false =>
        obtain ⟨token, htoken⟩ := TokenStream.exists_token?_of_atEnd hend
        have hleads := (step_leads preferences hend).resolve_left (by simp [← hstep, hfinal])
        obtain ⟨d, hd, hends⟩ :=
          ih _ (hstep ▸ hleads.remaining_lt htoken) (h.step hend hfinal) rfl
        rw [hrun, if_neg (by simp [hfinal])]
        exact ⟨d, hd, hends⟩

/-- Whatever the tokens are: in front of every pass no level is open and the place is among the
tokens. The pass ends the loop or takes a token, stays among the tokens and leaves no level open;
the counter has no influence on what is read, and the loop goes on unless the pass ends it. -/
theorem pass_progresses (hs : s.position ≤ s.size) (h : Reached preferences s c) :
    c.levels = 0 ∧ c.state.stream.position ≤ s.size ∧
      (c.state.stream.atEnd = false →
        (isFinal preferences c.state c.step.state = true ∨
          c.state.stream.position < c.step.state.stream.position) ∧
        c.step.state.stream.position ≤ s.size ∧
        c.step.levels = 0 ∧
        c.step.state = c.state.step ∧
        run preferences c.state =
          if isFinal preferences c.state c.step.state then c.step.state
          else run preferences c.step.state) := by
  refine ⟨h.levels_eq, h.leads.position_le_size hs, fun hend => ?_⟩
  rw [step_eq_of_levels h.levels_eq]
  refine ⟨?_, ?_, rfl, rfl, run_of_not_atEnd hend⟩
  · cases hfinal : isFinal preferences c.state c.state.step with
    | true => exact .inl rfl
    | false => exact .inr (position_lt_step hend hfinal)
  · exact (h.leads.trans (step_moves c.state)).position_le_size hs

/-- `A = B C = D ;` with a token behind the end of the input. The first pass ends in front of `C`,
where a semicolon is missing; the second one starts there. -/
theorem pass_progresses_missing_semicolon :
    let tokens : List Token := [.identifier "A", .equals, .identifier "B", .identifier "C",
      .equals, .identifier "D", .semicolon, .endOfInput, .semicolon]
    let s := TokenStream.ofTokens (tokens.map fun token => ⟨token, Span.placeholder⟩)
    let c := CountedState.step ⟨initial s, 0⟩
    s.position ≤ s.size ∧ Reached ⟨true, false⟩ s c ∧ c.state.stream.position = 3 ∧
      c.state.stream.atEnd = false ∧ c.levels = 0 ∧
      (isFinal ⟨true, false⟩ c.state c.step.state = true ∨
        c.state.stream.position < c.step.state.stream.position) ∧
      c.step.state.stream.position ≤ s.size ∧ c.step.levels = 0 := by
  intro tokens s c
  have hs : s.position ≤ s.size := Nat.zero_le _
  have hreached : Reached ⟨true, false⟩ s c :=
    .step .start (by decide +kernel) (by decide +kernel)
  have hend : c.state.stream.atEnd = false := by decide +kernel
  obtain ⟨hlevels, -, hpass⟩ := pass_progresses hs hreached
  obtain ⟨hprogress, hle, hclosed, -⟩ := hpass hend
  exact ⟨hs, hreached, by decide +kernel, hend, hlevels, hprogress, hle, hclosed⟩

end Reached

end CountedState

end AnnotatedGrammar
