import Mathlib
import AnnotatedGrammar.Proofs.Syntax.Recognition
import AnnotatedGrammar.Proofs.Syntax.Segments

/-!
# Missing semicolons

A rule without its semicolon runs into the next one. The markers in front of the next name are read
as markers of the last element; then the name with its equals sign shows that a rule begins. There
the semicolon is missed and parsing goes on, so nothing else is found wrong with the text.
-/

namespace AnnotatedGrammar

namespace Written

/-! ## Markers behind a body -/

section

variable {α : Type} [Phrase α]

theorem Element.tokens_append_behind (e : Element α) (marks : List Mark) :
    Element.tokens { e with behind := e.behind ++ marks } = e.tokens ++ Mark.allTokens marks := by
  simp [Element.tokens, Mark.allTokens]

/-- Markers behind a sequence are markers of its last element. -/
theorem Sequence.exists_append_marks (q : Sequence α) (marks : List Mark) (hclear : q.IsClear) :
    ∃ q' : Sequence α, q'.tokens = q.tokens ++ Mark.allTokens marks ∧ q'.IsClear := by
  obtain ⟨opening, first, others⟩ := q
  rcases List.eq_nil_or_concat' others with rfl | ⟨front, last, rfl⟩
  · refine ⟨⟨opening, { first with behind := first.behind ++ marks }, []⟩, ?_,
      hclear.opening, .singleton _, ?_⟩
    · simp [Sequence.tokens, Sequence.elements, Element.tokens_append_behind]
    · exact List.forall_mem_singleton.mpr (hclear.inside first List.mem_cons_self)
  · have hbetween : ((first :: front) ++ [last]).IsChain _ := hclear.between
    have hinside : ∀ e ∈ (first :: front) ++ [last], e.core.IsClear := hclear.inside
    obtain ⟨hchain, -, hmeet⟩ := List.isChain_append.mp hbetween
    obtain ⟨hfront, hlast⟩ := List.forall_mem_append.mp hinside
    let marked : Element α := { last with behind := last.behind ++ marks }
    have hmarked : ∀ e ∈ (first :: front).getLast?, ∀ next ∈ [marked].head?,
        ¬Clashes e.behind next := by
      rintro e he _ ⟨⟩
      exact hmeet e he last rfl
    have hinner : ∀ e ∈ [marked], e.core.IsClear :=
      List.forall_mem_singleton.mpr (hlast last (by simp))
    refine ⟨⟨opening, first, front ++ [marked]⟩, ?_, hclear.opening,
      List.isChain_append.mpr ⟨hchain, .singleton _, hmarked⟩,
      List.forall_mem_append.mpr ⟨hfront, hinner⟩⟩
    simp [marked, Sequence.tokens, Sequence.elements, Element.tokens_append_behind]

/-- Markers behind an alternation are markers of its last branch. -/
theorem Alternation.exists_append_marks (a : Alternation α) (marks : List Mark)
    (hclear : Phrase.IsClear a) :
    ∃ a' : Alternation α, Phrase.tokens a' = Phrase.tokens a ++ Mark.allTokens marks ∧
      Phrase.IsClear a' := by
  obtain ⟨first, others⟩ := a
  obtain ⟨hfirst, hothers⟩ := (Parser.alternation_isClear _).mp hclear
  rcases List.eq_nil_or_concat' others with rfl | ⟨front, ⟨bar, last⟩, rfl⟩
  · obtain ⟨q, htokens, hq⟩ := first.exists_append_marks marks hfirst
    refine ⟨⟨q, []⟩, ?_, (Parser.alternation_isClear _).mpr ⟨hq, hothers⟩⟩
    simp [Parser.alternation_tokens, branchTokens, htokens]
  · obtain ⟨hfront, hlast⟩ := List.forall_mem_append.mp hothers
    obtain ⟨q, htokens, hq⟩ := last.exists_append_marks marks (hlast (bar, last) (by simp))
    refine ⟨⟨first, front ++ [(bar, q)]⟩, ?_, (Parser.alternation_isClear _).mpr ⟨hfirst, ?_⟩⟩
    · simp [Parser.alternation_tokens, branchTokens, htokens]
    · exact List.forall_mem_append.mpr ⟨hfront, List.forall_mem_singleton.mpr hq⟩

end

/-- Markers behind a body can be read as a part of it. -/
theorem Body.exists_append_marks :
    {depth : Nat} → (x : Body depth) → (marks : List Mark) → Phrase.IsClear x →
      ∃ x' : Body depth, Phrase.tokens x' = Phrase.tokens x ++ Mark.allTokens marks ∧
        Phrase.IsClear x'
  | 0, x, _, _ => x.elim
  | _ + 1, x, marks, hclear => Alternation.exists_append_marks x marks hclear

/-! ## Grammars with semicolons left out -/

/-- The name of a rule. -/
def Item.name? : Item → Option String
  | directive _ => none
  | rule r => some r.name.value

/-- Every item has one semicolon, at its end. -/
theorem Item.exists_tokens_eq (i : Item) :
    ∃ front span, i.tokens = front ++ [⟨.semicolon, span⟩] ∧
      ∀ token ∈ front, token.value ≠ .semicolon := by
  cases i with
  | directive d =>
    obtain ⟨percent, name, ⟨word, span⟩, semicolon⟩ := d
    refine ⟨[⟨.percent, percent⟩, ⟨.identifier name.value, name.span⟩, ⟨word.token, span⟩],
      semicolon, rfl, ?_⟩
    cases word <;> simp [Word.token]
  | rule r => exact ⟨r.openTokens, r.semicolon, r.tokens_eq, fun token h => (r.isInner token h).1⟩

/-- A written grammar, and of every item whether its semicolon is left out. -/
abbrev Clipped := List (Item × Bool)

namespace Clipped

/-- The grammar with all its semicolons. -/
def text (c : Clipped) : Text := c.map Prod.fst

/-- What is left of the text. -/
def tokens (c : Clipped) : List (Located Token) :=
  c.flatMap fun i => if i.2 then i.1.tokens.dropLast else i.1.tokens

/-- The names of the rules without a semicolon. -/
def names (c : Clipped) : List String := c.filterMap fun i => if i.2 then i.1.name? else none

/-- Only rules lose their semicolons, each of them in front of a rule or at the end. -/
structure InFrontOfRules (c : Clipped) : Prop where
  rules : ∀ i ∈ c, i.2 = true → ∃ r, i.1 = .rule r
  followed : c.IsChain fun i next => i.2 = true → ∃ r, next.1 = .rule r

end Clipped

/-- Leaves out semicolons: the first flag decides about the first semicolon, and so on. -/
def dropSemicolons : List Bool → List (Located Token) → List (Located Token)
  | _, [] => []
  | flags, token :: rest =>
    if token.value = .semicolon then
      if flags.headD false then dropSemicolons flags.tail rest
      else token :: dropSemicolons flags.tail rest
    else token :: dropSemicolons flags rest

theorem dropSemicolons_append {front : List (Located Token)}
    (h : ∀ token ∈ front, token.value ≠ .semicolon) (flags : List Bool)
    (rest : List (Located Token)) :
    dropSemicolons flags (front ++ rest) = front ++ dropSemicolons flags rest := by
  induction front with
  | nil => rfl
  | cons token front ih =>
    obtain ⟨htoken, hfront⟩ := List.forall_mem_cons.mp h
    rw [List.cons_append, dropSemicolons, if_neg htoken, ih hfront, List.cons_append]

/-- The semicolons of a written grammar are left out where its flags say so. -/
theorem Clipped.dropSemicolons_text (c : Clipped) :
    dropSemicolons (c.map Prod.snd) c.text.tokens = c.tokens := by
  induction c with
  | nil => rfl
  | cons i c ih =>
    obtain ⟨i, clipped⟩ := i
    obtain ⟨front, span, htokens, hfront⟩ := i.exists_tokens_eq
    have htext : Text.tokens (text ((i, clipped) :: c)) = i.tokens ++ Text.tokens (text c) :=
      List.flatMap_cons
    rw [htext, htokens, List.append_assoc, dropSemicolons_append hfront, List.map_cons,
      List.singleton_append, dropSemicolons, if_pos rfl, List.headD_cons, List.tail_cons, ih]
    cases clipped <;> simp [Clipped.tokens, htokens]

/-- Layout has no part in leaving out semicolons. -/
theorem filter_dropSemicolons (flags : List Bool) (tokens : List (Located Token)) :
    (dropSemicolons flags tokens).filter (fun token => token.value.isSignificant) =
      dropSemicolons flags (tokens.filter fun token => token.value.isSignificant) := by
  have hkept {token : Located Token} (h : token.value.isSignificant = true)
      (rest : List (Located Token)) :
      (token :: rest).filter (fun token => token.value.isSignificant) =
        token :: rest.filter fun token => token.value.isSignificant := List.filter_cons_of_pos h
  fun_induction dropSemicolons flags tokens with
  | case1 => rfl
  | case2 flags token rest hsemicolon hflag ih =>
    rw [hkept (by rw [hsemicolon]; rfl), dropSemicolons, if_pos hsemicolon, if_pos hflag, ih]
  | case3 flags token rest hsemicolon hflag ih =>
    have hsignificant : token.value.isSignificant = true := by rw [hsemicolon]; rfl
    rw [hkept hsignificant, hkept hsignificant, dropSemicolons, if_pos hsemicolon, if_neg hflag, ih]
  | case4 flags token rest hother ih =>
    by_cases hsignificant : token.value.isSignificant = true
    · rw [hkept hsignificant, hkept hsignificant, dropSemicolons, if_neg hother, ih]
    · simpa [hsignificant] using ih

end Written

open Written

variable {s t u : TokenStream}

namespace Parser

/-! ## Where a semicolon is missed -/

/-- Where a rule ends without its semicolon: at the end of the text, or at the name of the next
rule. -/
def EndsUnclosed (s : TokenStream) : Prop :=
  s.token? = some .endOfInput ∨ ∃ name, s.token? = some (.identifier name) ∧ ruleStartsHere s = true

theorem EndsUnclosed.endsBody (h : EndsUnclosed s) : EndsBody s := by
  rcases h with h | ⟨name, h, hrule⟩
  · exact endsBody_of_token? h (by simp)
  · exact endsBody_of_ruleStartsHere h hrule

theorem EndsUnclosed.terminator (h : EndsUnclosed s) (name : String) :
    terminator name s = .failed ⟨.missingTerminator name, .point s.previousSpan.stop⟩ s := by
  rcases h with h | ⟨next, h, hrule⟩
  · simp only [Parser.terminator, h]
    rfl
  · simp only [Parser.terminator, h, if_pos hrule]
    rfl

/-- A rule without its semicolon is read up to the name of the next one. -/
theorem item_unclosed {r : Written.Rule} {marks : List Mark} (h : s.Passes r.openTokens u)
    (hmarks : u.Passes (Mark.allTokens marks) t) (hclear : Phrase.IsClear r.body)
    (hend : EndsUnclosed t) :
    item s = .failed ⟨.missingTerminator r.name.value, .point t.previousSpan.stop⟩ t := by
  obtain ⟨body, hbody, hclear⟩ := r.body.exists_append_marks marks hclear
  have hopen : s.Passes (Written.Rule.openTokens { r with body }) t := by
    have htokens : Written.Rule.openTokens { r with body } =
        r.openTokens ++ Mark.allTokens marks := by simp [Written.Rule.openTokens, hbody]
    rw [htokens]
    exact h.append hmarks
  have hread : rule s =
      .failed ⟨.missingTerminator r.name.value, .point t.previousSpan.stop⟩ t := by
    rw [rule_of_open hopen hclear hend.endsBody, hend.terminator]
    rfl
  rcases token?_rule h with htoken | htoken <;> simp only [item, htoken, hread, Parsed.bind]

/-- A rule with no markers in front of its name is taken to begin at the name. -/
theorem endsUnclosed_of_rule {r : Written.Rule} (hbefore : r.before = [])
    (h : s.Passes r.openTokens t) : EndsUnclosed s := by
  have hopen : s.Passes (⟨.identifier r.name.value, r.name.span⟩ ::
      (Mark.allTokens r.behind ++ ⟨.equals, r.equals⟩ :: Phrase.tokens r.body)) t := by
    simpa [Written.Rule.openTokens, hbefore, Mark.allTokens] using h
  obtain ⟨hname, hrest⟩ := TokenStream.passes_cons.mp hopen
  obtain ⟨u, hbehind, hequals⟩ := TokenStream.passes_append.mp hrest
  have hnone : s.Passes (Mark.allTokens []) s := .nil s
  refine .inr ⟨r.name.value, hopen.token?, ?_⟩
  rw [ruleStartsHere_of_name hnone hname hbehind
    (isBehindMarks_of_token? hequals.token? (by simp) (by simp)), hequals.token?]
  rfl

end Parser

namespace Written.Clipped

variable {c : Clipped} {i : Written.Item × Bool} {stop : Located Token}

theorem tokens_cons_kept (i : Written.Item) (c : Clipped) :
    tokens ((i, false) :: c) = i.tokens ++ tokens c := List.flatMap_cons

theorem tokens_cons_rule (r : Written.Rule) (clipped : Bool) (c : Clipped) :
    tokens ((.rule r, clipped) :: c) =
      r.openTokens ++ ((if clipped then [] else [⟨.semicolon, r.semicolon⟩]) ++ tokens c) := by
  cases clipped <;> simp [tokens, Item.tokens, r.tokens_eq]

theorem tokens_eq_of_names_eq_nil (h : c.InFrontOfRules) (hnames : c.names = []) :
    c.tokens = c.text.tokens := by
  have hkept : ∀ i ∈ c, i.2 = false := by
    intro i hi
    by_contra hclipped
    have htrue : i.2 = true := by simpa using hclipped
    obtain ⟨r, hr⟩ := h.rules i hi htrue
    have hnone := List.filterMap_eq_nil_iff.mp hnames i hi
    simp [htrue, hr, Item.name?] at hnone
  rw [text, Text.tokens, List.flatMap_map]
  exact List.flatMap_congr fun i hi => by simp [hkept i hi]

/-- What can be read as it stands: the semicolons are left out in front of rules and bodies are
clear. -/
structure IsReadable (c : Clipped) : Prop extends InFrontOfRules c where
  clear : ∀ i ∈ c, i.1.IsClear

theorem IsReadable.head (h : IsReadable (i :: c)) : i.1.IsClear := h.clear i List.mem_cons_self

theorem IsReadable.tail (h : IsReadable (i :: c)) : IsReadable c where
  rules j hj := h.rules j (List.mem_cons_of_mem _ hj)
  followed := h.followed.tail
  clear j hj := h.clear j (List.mem_cons_of_mem _ hj)

/-- Parsing goes on behind a rule without its semicolon: it has passed the markers in front of the
next rule, which is read without them. -/
theorem IsReadable.resumes (h : IsReadable c) (hrules : ∀ next ∈ c.head?, ∃ r, next.1 = .rule r)
    (hstop : stop.value = .endOfInput) (hrest : u.rest = c.tokens ++ [stop]) :
    ∃ (marks : List Mark) (t : TokenStream) (c' : Clipped), u.Passes (Mark.allTokens marks) t ∧
      Parser.EndsUnclosed t ∧ t.rest = c'.tokens ++ [stop] ∧ c'.IsReadable ∧
      c'.names = c.names ∧ c'.length = c.length := by
  cases c with
  | nil =>
    have htoken : u.token? = some .endOfInput := by
      simp [TokenStream.token?_eq, hrest, hstop, tokens]
    exact ⟨[], u, [], .nil u, .inl htoken, hrest, h, rfl, rfl⟩
  | cons next c =>
    obtain ⟨i, clipped⟩ := next
    obtain ⟨r, rfl⟩ := hrules (i, clipped) rfl
    let bare : Written.Rule := { r with before := [] }
    have hopen : r.openTokens = Mark.allTokens r.before ++ bare.openTokens := by
      simp [bare, Written.Rule.openTokens, Mark.allTokens]
    have htokens : tokens ((.rule r, clipped) :: c) =
        Mark.allTokens r.before ++ tokens ((.rule bare, clipped) :: c) := by
      rw [tokens_cons_rule, tokens_cons_rule, hopen, List.append_assoc]
    rw [htokens, List.append_assoc] at hrest
    obtain ⟨t, hmarks, ht⟩ := TokenStream.exists_passes hrest
    have hbare := ht
    rw [tokens_cons_rule, List.append_assoc] at hbare
    obtain ⟨v, hname, -⟩ := TokenStream.exists_passes hbare
    refine ⟨r.before, t, (.rule bare, clipped) :: c, hmarks, Parser.endsUnclosed_of_rule rfl hname,
      ht, ⟨⟨?_, ?_⟩, ?_⟩, rfl, rfl⟩
    · exact List.forall_mem_cons.mpr ⟨fun _ => ⟨bare, rfl⟩, h.tail.rules⟩
    · exact List.isChain_cons.mpr ⟨(List.isChain_cons.mp h.followed).1, h.tail.followed⟩
    · exact List.forall_mem_cons.mpr ⟨h.head, h.tail.clear⟩

end Written.Clipped

namespace ParseState

variable {preferences : ParsePreferences} {c : Clipped} {state : ParseState} {stop : Located Token}

/-- In one step over a rule without its semicolon, the semicolon is missed and nothing else
happens. -/
theorem step_unclosed {r : Written.Rule} {marks : List Mark}
    (h : state.stream.Passes r.openTokens u) (hmarks : u.Passes (Mark.allTokens marks) t)
    (hclear : Phrase.IsClear r.body) (hend : Parser.EndsUnclosed t)
    (hfew : state.errors.length + 1 < Limits.syntaxErrors) :
    state.step =
      { state with
        stream := t
        errors :=
          ⟨.missingTerminator r.name.value, .point t.previousSpan.stop⟩ :: state.errors } := by
  rw [step, Parser.item_unclosed h hmarks hclear hend]
  exact note_eq_of_missing hfew rfl

/-- Reading a grammar finds every semicolon that is left out, and no other fault. -/
theorem run_clipped (hrecover : preferences.recover = true) (hstop : stop.value = .endOfInput)
    (h : c.IsReadable) (hrest : state.stream.rest = c.tokens ++ [stop]) (hopen : state.IsOpen)
    (hfew : state.errors.length + c.names.length < Limits.syntaxErrors) :
    (run preferences state).faults = state.faults ++ c.names.map .missingTerminator := by
  -- the list gets shorter by one item with every step, but the next item may lose its markers
  induction hlength : c.length generalizing c state with
  | zero =>
    obtain rfl := List.eq_nil_of_length_eq_zero hlength
    have hend : state.stream.atEnd = true :=
      TokenStream.atEnd_iff.mpr (by simp [hrest, hstop, Clipped.tokens])
    simp [run_of_atEnd hend, Clipped.names]
  | succ n ih =>
    obtain ⟨⟨i, clipped⟩, c, rfl⟩ := List.exists_cons_of_length_eq_add_one hlength
    rw [List.length_cons, Nat.succ_inj] at hlength
    cases clipped with
    | false =>
      rw [Clipped.tokens_cons_kept, List.append_assoc] at hrest
      obtain ⟨u, hitem, hu⟩ := TokenStream.exists_passes hrest
      have hstep := step_done (Parser.item_complete hitem h.head)
      have hopen' : state.step.IsOpen := by rw [hstep]; exact ⟨hopen.few, hopen.going⟩
      have hlt : state.step.stream.remaining < state.stream.remaining := by
        rw [hstep]
        exact Parser.item_remaining_lt hitem
      rw [run_of_open (Parser.item_atEnd hitem) hopen' hrecover hlt]
      rw [hstep] at hopen' ⊢
      have hnext := ih h.tail hu hopen' hfew hlength
      exact hnext
    | true =>
      obtain ⟨r, rfl⟩ := h.rules (i, true) List.mem_cons_self rfl
      rw [Clipped.tokens_cons_rule, List.append_assoc, if_pos rfl, List.nil_append] at hrest
      obtain ⟨u, hpasses, hu⟩ := TokenStream.exists_passes hrest
      have hnames : Clipped.names ((.rule r, true) :: c) = r.name.value :: Clipped.names c := rfl
      rw [hnames, List.length_cons] at hfew
      have hrules : ∀ next ∈ c.head?, ∃ r, next.1 = .rule r := fun next hnext =>
        (List.isChain_cons.mp h.followed).1 next hnext rfl
      obtain ⟨marks, t, c', hmarks, hend, ht, hreadable, hsame, hlength'⟩ :=
        h.tail.resumes hrules hstop hu
      have hstep := step_unclosed hpasses hmarks h.head hend (by omega)
      have hopen' : state.step.IsOpen := by
        rw [hstep]
        exact hopen.cons t (by omega) rfl
      have hlt : state.step.stream.remaining < state.stream.remaining := by
        rw [hstep]
        have hremaining := (hpasses.append hmarks).remaining
        simp only [Written.Rule.openTokens, List.length_append, List.length_cons] at hremaining
        dsimp only
        omega
      have hgoing : state.stream.atEnd = false := by
        rcases Parser.token?_rule hpasses with htoken | htoken <;> simp [TokenStream.atEnd, htoken]
      rw [run_of_open hgoing hopen' hrecover hlt]
      rw [hstep] at hopen' ⊢
      rw [ih hreadable ht hopen' (by rw [hsame, List.length_cons]; omega) (hlength'.trans hlength),
        faults_cons, hsame, hnames, List.map_cons, List.append_assoc, List.singleton_append]

end ParseState

namespace TokenStream

/-- The syntax errors that parsing reports. -/
def syntaxErrors (preferences : ParsePreferences) (s : TokenStream) : List SyntaxError :=
  match s.grammar preferences with
  | .ok _ => []
  | .error errors => errors

/-- Errors that were found are all reported, in order. -/
theorem syntaxErrors_of_errors_ne_nil {preferences : ParsePreferences} {s : TokenStream}
    (h : (s.parse preferences).errors ≠ []) :
    s.syntaxErrors preferences = (s.parse preferences).errors.reverse := by
  have hall : (s.parse preferences).allErrors = (s.parse preferences).errors.reverse := by
    unfold ParseState.allErrors
    split
    · exact absurd ‹_› h
    · rfl
  have hresult : s.grammar preferences = .error (s.parse preferences).errors.reverse := by
    rw [grammar, ParseState.result, hall]
    split
    · exact absurd (List.reverse_eq_nil_iff.mp ‹_›) h
    · rfl
  rw [syntaxErrors, hresult]

variable {preferences : ParsePreferences} {tokens : List (Located Token)} {stop : Located Token}

/-- Missing semicolons are reported exactly. A text that can be parsed spells a written grammar. Let
some of its rules lose their semicolons, each in front of another rule or at the end, and fewer of
them than the limit on the number of errors. Then parsing with recovery reports for each of these
rules that its semicolon is missing, in their order, and nothing else. -/
theorem syntaxErrors_dropSemicolons (hrecover : preferences.recover = true)
    (hstop : stop.value = .endOfInput) (htokens : ∀ token ∈ tokens, token.value ≠ .endOfInput)
    {g : Grammar} (hread : (ofTokens (tokens ++ [stop])).grammar preferences = .ok g) :
    (∃ text : Text, text.Spelled tokens) ∧
    ∀ c : Clipped, c.text.Spelled tokens → c.InFrontOfRules →
      c.names.length < Limits.syntaxErrors →
      ((ofTokens (dropSemicolons (c.map Prod.snd) tokens ++ [stop])).syntaxErrors preferences).map
        (·.value) = c.names.map .missingTerminator := by
  refine ⟨(grammar_sound hstop htokens hread).imp fun text h => h.1, fun c hspelled hc hfew => ?_⟩
  have hdropped : (dropSemicolons (c.map Prod.snd) tokens).filter
      (fun token => token.value.isSignificant) = c.tokens := by
    rw [filter_dropSemicolons, ← hspelled.tokens_eq, c.dropSemicolons_text]
  by_cases hnames : c.names = []
  · have hwhole : c.text.Spelled (dropSemicolons (c.map Prod.snd) tokens) :=
      ⟨by rw [hdropped, Clipped.tokens_eq_of_names_eq_nil hc hnames], hspelled.isGrammar⟩
    rw [syntaxErrors, grammar_complete hstop hwhole, hnames]
    rfl
  · have hrest : (ofTokens (dropSemicolons (c.map Prod.snd) tokens ++ [stop])).rest =
        c.tokens ++ [stop] := by
      rw [rest_ofTokens, List.filter_append, hdropped]
      simp [hstop, Token.isSignificant, Token.isLayout]
    have hreadable : c.IsReadable :=
      ⟨hc, fun i hi => hspelled.isGrammar.clear i.1 (List.mem_map_of_mem hi)⟩
    have hfaults : ((ofTokens (dropSemicolons (c.map Prod.snd) tokens ++ [stop])).parse
        preferences).faults = c.names.map .missingTerminator :=
      ParseState.run_clipped hrecover hstop hreadable hrest (ParseState.isOpen_initial _)
        (by simpa [ParseState.initial] using hfew)
    rw [syntaxErrors_of_errors_ne_nil, ← hfaults]
    · rfl
    · intro hnone
      rw [ParseState.faults, hnone] at hfaults
      exact hnames (List.map_eq_nil_iff.mp hfaults.symm)

/-- `A = 'x' @skip ; @class(C) B = A ; %start A ; D = B ;` without its first and its last semicolon:
the marker of `B` comes behind `@skip`. -/
theorem syntaxErrors_two_dropSemicolons :
    let place (token : Token) : Located Token := ⟨token, Span.placeholder⟩
    let tokens := [.identifier "A", .equals, .literal "x", .atSign, .identifier "skip", .blank,
      .semicolon, .lineBreak, .atSign, .identifier "class", .leftParen, .identifier "C",
      .rightParen, .identifier "B", .equals, .identifier "A", .semicolon, .percent,
      .identifier "start", .identifier "A", .semicolon, .identifier "D", .equals, .identifier "B",
      .semicolon].map place
    let stop := place .endOfInput
    (∃ g, (ofTokens (tokens ++ [stop])).grammar ⟨true, false⟩ = .ok g) ∧
    ((ofTokens (dropSemicolons [true, false, false, true] tokens ++ [stop])).syntaxErrors
      ⟨true, false⟩).map (·.value) = [.missingTerminator "A", .missingTerminator "D"] := by
  intro place tokens stop
  let here := Span.placeholder
  let body (core : Primary (Body 127)) (behind : List Mark) : Written.Alternation (Body 127) :=
    ⟨⟨[], ⟨core, [], behind⟩, []⟩, []⟩
  let reference (name : String) := body (.reference ⟨name, here⟩) []
  let marked := body (.terminal ⟨.literal "x", here⟩) [⟨here, ⟨"skip", here⟩, none⟩]
  let c : Clipped :=
    [(.rule ⟨[], ⟨"A", here⟩, [], here, marked, here⟩, true),
      (.rule ⟨[⟨here, ⟨"class", here⟩, some ⟨here, ⟨.name "C", here⟩, here⟩⟩], ⟨"B", here⟩, [],
        here, reference "A", here⟩, false),
      (.directive ⟨here, ⟨"start", here⟩, ⟨.name "A", here⟩, here⟩, false),
      (.rule ⟨[], ⟨"D", here⟩, [], here, reference "B", here⟩, true)]
  have hclear (core : Primary (Body 127)) (behind : List Mark) (hnot : ¬core.IsGroup)
      (hinside : core.IsClear) : Phrase.IsClear (body core behind) := by
    refine (Parser.alternation_isClear _).mpr ⟨⟨fun hclash => hnot hclash.2, .singleton _, ?_⟩, ?_⟩
    · exact List.forall_mem_singleton.mpr hinside
    · simp [body]
  have hreference (name : String) : Phrase.IsClear (reference name) := hclear _ _ id trivial
  have hspelled : c.text.Spelled tokens := by
    refine ⟨rfl, ⟨_, List.mem_cons_self⟩, List.forall_mem_cons.mpr ⟨hclear _ _ id trivial, ?_⟩⟩
    refine List.forall_mem_cons.mpr ⟨hreference "A", List.forall_mem_cons.mpr ⟨trivial, ?_⟩⟩
    exact List.forall_mem_singleton.mpr (hreference "B")
  have hc : c.InFrontOfRules := ⟨by simp [c], by simp [c]⟩
  have hread : (ofTokens (tokens ++ [stop])).grammar ⟨true, false⟩ = .ok c.text.grammar :=
    grammar_complete rfl hspelled
  refine ⟨⟨_, hread⟩, ?_⟩
  exact (syntaxErrors_dropSemicolons rfl rfl (by decide) hread).2 c hspelled hc (by decide)

end TokenStream
end AnnotatedGrammar
