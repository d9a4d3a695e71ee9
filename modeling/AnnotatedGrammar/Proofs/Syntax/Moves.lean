import AnnotatedGrammar.Proofs.Syntax.Levels
import AnnotatedGrammar.Proofs.Syntax.Locality

/-!
# Parsing moves forward

Every parser stops at the token where it began or behind it, whether it reads something or fails,
and never behind the last token. A marker, a directive and a rule take at least one token, so the
loops over them cannot stand still.
-/

namespace AnnotatedGrammar

namespace TokenStream

variable {s t u : TokenStream}

/-- Passing over some tokens of the stream `s`, possibly none, leads to the stream `t`. -/
def Leads (s t : TokenStream) : Prop := ∃ ts, s.Passes ts t

namespace Leads

theorem refl (s : TokenStream) : s.Leads s := ⟨[], .nil s⟩

theorem trans : s.Leads t → t.Leads u → s.Leads u
  | ⟨ts, hts⟩, ⟨us, hus⟩ => ⟨ts ++ us, hts.append hus⟩

theorem significant_eq (h : s.Leads t) : t.significant = s.significant := by
  obtain ⟨ts, hts⟩ := h
  rw [hts.eq]

theorem position_le : s.Leads t → s.position ≤ t.position
  | ⟨_, h⟩ => (Nat.le_add_right _ _).trans_eq (congrArg position h.eq).symm

theorem remaining_le : s.Leads t → t.remaining ≤ s.remaining
  | ⟨_, h⟩ => (Nat.le_add_right _ _).trans_eq h.remaining

/-- The place stays among the tokens. -/
theorem position_le_size (h : s.Leads t) (hs : s.position ≤ s.size) : t.position ≤ s.size := by
  have hsignificant := h.significant_eq
  obtain ⟨ts, hts⟩ := h
  have hposition : t.position = s.position + ts.length := congrArg position hts.eq
  have hremaining := hts.remaining
  simp only [remaining, hsignificant] at hremaining
  simp only [size] at hs ⊢
  omega

end Leads

theorem leads_advance (s : TokenStream) : s.Leads s.advance := by
  cases h : s.current? with
  | some token => exact ⟨[token], passes_advance h⟩
  | none =>
    have hend : ¬s.position < s.significant.size := by
      simpa [current?, ahead?] using h
    rw [advance, if_neg hend]
    exact .refl s

/-- From behind the current token on, the way back is closed. -/
theorem Leads.position_lt {token : Token} (htoken : s.token? = some token)
    (h : s.advance.Leads t) : s.position < t.position := by
  obtain ⟨span, hcurrent⟩ := exists_current?_of_token? htoken
  have hadvance : s.advance.position = s.position + 1 :=
    congrArg position (passes_advance hcurrent).eq
  have := h.position_le
  omega

theorem Leads.remaining_lt {token : Token} (htoken : s.token? = some token)
    (h : s.advance.Leads t) : t.remaining < s.remaining :=
  h.remaining_le.trans_lt (remaining_advance_lt_of_token? htoken)

theorem Leads.of_advance (h : s.advance.Leads t) : s.Leads t := (leads_advance s).trans h

theorem exists_token?_of_check {expected : Token} (h : s.check expected = true) :
    ∃ token, s.token? = some token := by
  unfold check at h
  split at h
  · exact ⟨_, ‹_›⟩
  · cases h

theorem exists_token?_of_atEnd (hend : s.atEnd = false) : ∃ token, s.token? = some token := by
  cases htoken : s.token? with
  | none => simp [atEnd, htoken] at hend
  | some token => exact ⟨token, rfl⟩

theorem of_takeIf? {expected : Token} (h : s.takeIf? expected = some t) :
    s.check expected = true ∧ t = s.advance := by
  unfold takeIf? at h
  split at h
  · rename_i hcheck
    exact ⟨hcheck, (Option.some.inj h).symm⟩
  · cases h

theorem leads_of_takeIf? {expected : Token} (h : s.takeIf? expected = some t) : s.Leads t :=
  (of_takeIf? h).2 ▸ leads_advance s

end TokenStream

namespace Parser

open Parsed TokenStream

variable {α β : Type} {s t : TokenStream} {paren inner : Parser Expr} {context : ParseContext}

/-- However reading ends, it ends at the current token or behind it. -/
def Moves (p : Parser α) : Prop := ∀ s : TokenStream, s.Leads (p s).stream

theorem Moves.of_eq {p : Parser α} (hp : Moves p) {r : Parsed α} (h : p s = r) :
    s.Leads r.stream := h ▸ hp s

theorem leads_bind {r : Parsed α} {next : α → Parser β} (h : s.Leads r.stream)
    (hnext : ∀ a, Moves (next a)) : s.Leads (r.bind next).stream := by
  cases r with
  | done a after => exact h.trans (hnext a after)
  | failed error after => exact h

/-! ## Markers -/

theorem markerValue_moves (key : String) : Moves (markerValue key) := by
  intro s
  unfold markerValue
  split
  · exact .refl s
  · rename_i behindParen hparen
    have hstart := leads_of_takeIf? hparen
    split
    · exact hstart
    · have hvalue := hstart.trans (leads_advance behindParen)
      split
      · rename_i after hclosing
        exact hvalue.trans (leads_of_takeIf? hclosing)
      · exact hvalue

theorem marker_leads (s : TokenStream) : s.advance.Leads (marker s).stream := by
  unfold marker
  split
  · rename_i key hkey
    refine leads_bind ((leads_advance _).trans (markerValue_moves key _)) fun value after => ?_
    exact .refl after
  · exact .refl _

theorem marker_moves : Moves marker := fun s => (marker_leads s).of_advance

theorem marker_remaining_lt (hsign : s.check .atSign = true) :
    (marker s).stream.remaining < s.remaining := by
  obtain ⟨token, htoken⟩ := exists_token?_of_check hsign
  exact (marker_leads s).remaining_lt htoken

theorem markersFrom_of_sign (hsign : s.check .atSign = true) (read : List Marker) :
    markersFrom read s = (marker s).bind fun m => markersFrom (m :: read) := by
  have hlt := marker_remaining_lt hsign
  rw [markersFrom, if_pos hsign]
  cases hm : marker s with
  | failed error after => rfl
  | done m after =>
    rw [hm] at hlt
    exact if_pos hlt

theorem markersFrom_moves (read : List Marker) : Moves (markersFrom read) := by
  intro s
  fun_induction markersFrom read s with
  | case1 read s hsign error after hm => exact marker_moves.of_eq hm
  | case2 read s hsign m after hm hlt ih => exact (marker_moves.of_eq hm).trans ih
  | case3 read s hsign m after hm hle => exact marker_moves.of_eq hm
  | case4 read s hsign => exact .refl s

theorem markers_moves : Moves markers := markersFrom_moves []

theorem markers_leads (hsign : s.check .atSign = true) : s.advance.Leads (markers s).stream := by
  rw [markers, markersFrom_of_sign hsign]
  exact leads_bind (marker_leads s) fun m => markersFrom_moves [m]

theorem markers_of_no_sign (hsign : s.check .atSign = false) : markers s = done [] s := by
  rw [markers, markersFrom, if_neg (by simp [hsign])]
  rfl

/-! ## Elements and sequences -/

theorem quantifiers_leads (start : Nat) (e : Expr) (s : TokenStream) :
    s.Leads (quantifiers start e s).2 := by
  fun_induction quantifiers start e s with
  | case1 _ s _ _ ih | case2 _ s _ _ ih | case3 _ s _ _ ih => exact (leads_advance s).trans ih
  | case4 => exact .refl _

theorem behindCore_moves (start : Nat) (before : List Marker) (core : Expr) :
    Moves (behindCore start before core) := fun s =>
  (quantifiers_leads start core s).trans <|
    leads_bind (markers_moves _) fun _ after => .refl after

theorem primary_moves (hparen : Moves paren) : Moves (primary paren) := by
  intro s
  unfold primary
  split
  · exact .refl s
  · dsimp only
    split
    · exact leads_advance s
    · exact leads_advance s
    · exact leads_advance s
    · exact hparen s
    all_goals exact .refl s

theorem element_moves (hparen : Moves paren) : Moves (element paren) := by
  intro s
  rw [element_eq_bind]
  refine leads_bind (markers_moves s) fun before between => ?_
  exact leads_bind (primary_moves hparen between) (behindCore_moves s.position before)

theorem elementsFrom_moves (hparen : Moves paren) (read : List (Expr × List Marker)) :
    Moves (elementsFrom paren read) := by
  intro s
  have helement := element_moves hparen
  fun_induction elementsFrom paren read s with
  | case1 read s hstarts error after he => exact helement.of_eq he
  | case2 read s hstarts item after he hlt ih => exact (helement.of_eq he).trans ih
  | case3 read s hstarts item after he hle => exact helement.of_eq he
  | case4 read s hstarts => exact .refl s

theorem concludeSequence_moves (start : Nat) (items : List (Expr × List Marker)) :
    Moves (concludeSequence context start items) := by
  intro s
  unfold concludeSequence
  split
  · split <;> exact .refl s
  · exact .refl s
  · exact .refl s

theorem sequence_moves (hparen : Moves paren) : Moves (sequence paren context) := by
  intro s
  rw [sequence_eq_bind]
  exact leads_bind (elementsFrom_moves hparen [] s) (concludeSequence_moves s.position)

/-! ## Alternations and groups -/

theorem branchesFrom_moves (hparen : Moves paren) (read : List Expr) :
    Moves (branchesFrom paren context read) := by
  intro s
  have hsequence : Moves (sequence paren context) := sequence_moves hparen
  fun_induction branchesFrom paren context read s with
  | case1 read s hbar => exact .refl s
  | case2 read s behindBar hbar error after hq =>
    exact (leads_of_takeIf? hbar).trans (hsequence.of_eq hq)
  | case3 read s behindBar hbar branch after hq hlt ih =>
    exact ((leads_of_takeIf? hbar).trans (hsequence.of_eq hq)).trans ih
  | case4 read s behindBar hbar branch after hq hle =>
    exact (leads_of_takeIf? hbar).trans (hsequence.of_eq hq)

theorem concludeAlternation_moves (start : Nat) (branches : List Expr) :
    Moves (concludeAlternation start branches) := by
  intro s
  unfold concludeAlternation
  split <;> exact .refl s

theorem alternation_moves (hparen : Moves paren) : Moves (alternation paren context) := by
  intro s
  rw [alternation_eq_bind]
  refine leads_bind (sequence_moves hparen s) fun first between => ?_
  exact leads_bind (branchesFrom_moves hparen [first] between)
    (concludeAlternation_moves s.position)

theorem concludeGroup_moves (opening : Span) (start : Nat) (body : Expr) :
    Moves (concludeGroup opening start body) := by
  intro s
  unfold concludeGroup
  split
  · rename_i after hclosing
    exact leads_of_takeIf? hclosing
  · split
    · exact .refl s
    · exact .refl s
    · exact .refl s
    · split <;> exact .refl s

theorem group_leads (hinner : Moves inner) (s : TokenStream) :
    s.advance.Leads (group inner s).stream := by
  rw [group_eq_bind]
  exact leads_bind (hinner s.advance) (concludeGroup_moves s.currentSpan s.position)

theorem expression_moves (depth : Nat) (context : ParseContext) :
    Moves (expression depth context) := by
  induction depth generalizing context with
  | zero => exact fun s => .refl s
  | succ depth ih => exact alternation_moves fun s => (group_leads (ih .group) s).of_advance

/-! ## Rules and directives -/

theorem check_atSign_of_ne {token : Token} (htoken : s.token? = some token)
    (hsign : token ≠ .atSign) : s.check .atSign = false := by
  refine eq_false_of_ne_true fun h => hsign ?_
  exact Option.some.inj (htoken.symm.trans ((check_eq rfl s).mp h))

theorem equalsSign_moves : Moves equalsSign := by
  intro s
  unfold equalsSign
  split
  · rename_i after hsign
    exact leads_of_takeIf? hsign
  · split <;> exact .refl s

theorem ruleName_moves : Moves ruleName := by
  intro s
  unfold ruleName
  split
  · exact .refl s
  · split
    · exact leads_advance s
    · exact .refl s

theorem terminator_moves (name : String) : Moves (terminator name) := by
  intro s
  unfold terminator
  dsimp only
  split
  · exact leads_advance s
  · exact .refl s
  · exact .refl s
  · exact .refl s
  · split <;> exact .refl s

/-- Reads a rule behind its name. -/
def behindName (start : Nat) (before : List Marker) (name : Located String) : Parser Rule :=
  fun s =>
    (markers s).bind fun behind s₁ =>
    (equalsSign s₁).bind fun _ s₂ =>
    (expression Limits.nestingDepth (.rule name.value) s₂).bind fun body s₃ =>
    (terminator name.value s₃).bind fun _ after =>
      done ⟨name.value, name.span, before ++ behind, body, after.spanFrom start⟩ after

theorem rule_eq_bind (s : TokenStream) : rule s =
    (markers s).bind fun before between =>
      (ruleName between).bind (behindName s.position before) := rfl

theorem behindName_moves (start : Nat) (before : List Marker) (name : Located String) :
    Moves (behindName start before name) := fun s =>
  leads_bind (markers_moves s) fun _ s₁ =>
  leads_bind (equalsSign_moves s₁) fun _ s₂ =>
  leads_bind (expression_moves Limits.nestingDepth (.rule name.value) s₂) fun _ s₃ =>
  leads_bind (terminator_moves name.value s₃) fun _ after => .refl after

theorem ruleName_leads {name : String} (htoken : s.token? = some (.identifier name)) :
    s.advance.Leads (ruleName s).stream := by
  obtain ⟨span, hcurrent⟩ := exists_current?_of_token? htoken
  unfold ruleName
  simp only [hcurrent]
  exact .refl _

/-- A rule that begins with a name or a marker takes at least this token. -/
theorem rule_leads (htoken : (∃ name, s.token? = some (.identifier name)) ∨
    s.token? = some .atSign) : s.advance.Leads (rule s).stream := by
  rw [rule_eq_bind]
  rcases htoken with ⟨name, hname⟩ | hsign
  · rw [markers_of_no_sign (check_atSign_of_ne hname Token.noConfusion)]
    have hrest := leads_bind (ruleName_leads hname) (behindName_moves s.position [])
    exact hrest
  · refine leads_bind (markers_leads ((check_eq rfl s).mpr hsign)) fun before between => ?_
    exact leads_bind (ruleName_moves between) (behindName_moves s.position before)

theorem directive_leads (s : TokenStream) : s.advance.Leads (directive s).stream := by
  unfold directive
  split
  · have hname := leads_advance s.advance
    dsimp only
    split
    · exact hname
    · have hvalue := hname.trans (leads_advance s.advance.advance)
      split
      · exact hvalue
      · rename_i after hsemicolon
        exact hvalue.trans (leads_of_takeIf? hsemicolon)
  · exact .refl _

/-- A directive or a rule takes at least one token, unless the current token can begin neither; then
none is taken. -/
theorem item_leads (s : TokenStream) :
    s.advance.Leads (item s).stream ∨
      ∃ fault, fault.isOrdinary = true ∧ item s = failHere fault s := by
  unfold item
  split
  · exact .inl (leads_bind (directive_leads s) fun d after => .refl after)
  · rename_i name hname
    exact .inl (leads_bind (rule_leads (.inl ⟨name, hname⟩)) fun r after => .refl after)
  · rename_i hsign
    exact .inl (leads_bind (rule_leads (.inr hsign)) fun r after => .refl after)
  · exact .inr ⟨_, rfl, rfl⟩
  · exact .inr ⟨_, rfl, rfl⟩

theorem skipPastSemicolon_of_atEnd (hend : s.atEnd = true) : skipPastSemicolon s = s := by
  rw [skipPastSemicolon.eq_def]
  split <;> simp_all [atEnd]

theorem skipPastSemicolon_of_not_atEnd (hend : s.atEnd = false) :
    skipPastSemicolon s = s.advance ∨ skipPastSemicolon s = skipPastSemicolon s.advance := by
  obtain ⟨token, htoken⟩ := exists_token?_of_atEnd hend
  by_cases hsemicolon : token = .semicolon
  · exact .inl (skipPastSemicolon_of_semicolon (hsemicolon ▸ htoken))
  · have hother : token ≠ .endOfInput := by
      rintro rfl
      simp [atEnd, htoken] at hend
    exact .inr (skipPastSemicolon_of_other htoken hsemicolon hother)

theorem skipPastSemicolon_moves (s : TokenStream) : s.Leads (skipPastSemicolon s) := by
  induction hremaining : s.remaining using Nat.strong_induction_on generalizing s with
  | _ n ih =>
    subst hremaining
    cases hend : s.atEnd with
    | true =>
      rw [skipPastSemicolon_of_atEnd hend]
      exact .refl s
    | false =>
      obtain ⟨token, htoken⟩ := exists_token?_of_atEnd hend
      have hlt := remaining_advance_lt_of_token? htoken
      rcases skipPastSemicolon_of_not_atEnd hend with h | h
      · exact h ▸ leads_advance s
      · exact h ▸ (ih _ hlt s.advance rfl).of_advance

/-- Skipping takes at least one token, unless the text ends here. -/
theorem skipPastSemicolon_leads (hend : s.atEnd = false) :
    s.advance.Leads (skipPastSemicolon s) := by
  rcases skipPastSemicolon_of_not_atEnd hend with h | h
  · exact h ▸ .refl s.advance
  · exact h ▸ skipPastSemicolon_moves s.advance

end Parser

end AnnotatedGrammar
