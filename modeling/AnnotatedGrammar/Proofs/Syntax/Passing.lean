import AnnotatedGrammar.Proofs.Syntax.Written
import AnnotatedGrammar.Syntax.Parse

/-!
# Passing over tokens

Reading a construct leads from one stream to another one of the same text. The tokens in between are
what was read; they settle how far the place has moved and which stretch of the text was passed.
-/

namespace AnnotatedGrammar

/-- Tokens that stand for themselves, without a text of their own. -/
def Token.isSymbol (token : Token) : Bool :=
  token.isSignificant && token != .endOfInput &&
    !(token.tokenClass == .identifier || token.tokenClass == .terminal)

theorem Token.sameKind_eq {symbol : Token} (h : symbol.isSymbol = true) (other : Token) :
    other.sameKind symbol = (other == symbol) := by
  cases symbol with
  | identifier | literal | pattern | blank | lineBreak | comment | endOfInput => cases h
  | _ => cases other <;> rfl

namespace TokenStream

variable {s t u : TokenStream} {token : Located Token} {a b ts : List (Located Token)}

/-- The tokens `ts` come next in the stream `s`, and behind them it is the stream `t`. -/
structure Passes (s : TokenStream) (ts : List (Located Token)) (t : TokenStream) : Prop where
  rest_eq : s.rest = ts ++ t.rest
  eq : t = { s with position := s.position + ts.length }

theorem rest_ofTokens (tokens : List (Located Token)) :
    (ofTokens tokens).rest = tokens.filter fun token => token.value.isSignificant := by
  simp [rest, ofTokens]

theorem current?_eq (s : TokenStream) : s.current? = s.rest.head? := by
  simp [current?, ahead?, rest]

theorem token?_eq (s : TokenStream) : s.token? = s.rest.head?.map (·.value) := by
  rw [token?, current?_eq]

theorem peek?_eq (s : TokenStream) (n : Nat) : s.peek? n = s.rest[n]?.map (·.value) := by
  simp [peek?, ahead?, rest]

theorem spanAt?_add (s : TokenStream) (n : Nat) :
    s.spanAt? (s.position + n) = s.rest[n]?.map (·.span) := by
  simp [spanAt?, rest]

theorem rest_moved (s : TokenStream) (n : Nat) :
    { s with position := s.position + n : TokenStream }.rest = s.rest.drop n := by
  simp [rest]

theorem exists_current?_of_token? {value : Token} (h : s.token? = some value) :
    ∃ span, s.current? = some ⟨value, span⟩ := by
  obtain ⟨token, hcurrent, rfl⟩ := Option.map_eq_some_iff.mp h
  exact ⟨token.span, hcurrent⟩

theorem Passes.nil (s : TokenStream) : s.Passes [] s := ⟨rfl, rfl⟩

theorem Passes.append (h : s.Passes a t) (h' : t.Passes b u) : s.Passes (a ++ b) u := by
  refine ⟨?_, ?_⟩
  · rw [h.rest_eq, h'.rest_eq, List.append_assoc]
  · rw [h'.eq, h.eq, List.length_append, Nat.add_assoc]

theorem exists_passes {more : List (Located Token)} (h : s.rest = ts ++ more) :
    ∃ t, s.Passes ts t ∧ t.rest = more := by
  have hrest : { s with position := s.position + ts.length : TokenStream }.rest = more := by
    rw [rest_moved, h, List.drop_left]
  exact ⟨_, ⟨by rw [hrest, h], rfl⟩, hrest⟩

theorem passes_append : s.Passes (a ++ b) u ↔ ∃ t, s.Passes a t ∧ t.Passes b u := by
  constructor
  · intro h
    obtain ⟨t, ht, hrest⟩ := exists_passes (h.rest_eq.trans (List.append_assoc _ _ _))
    refine ⟨t, ht, hrest, ?_⟩
    rw [h.eq, ht.eq, List.length_append, Nat.add_assoc]
  · rintro ⟨t, h, h'⟩
    exact h.append h'

theorem Passes.nil_iff : s.Passes [] t ↔ t = s :=
  ⟨fun h => h.eq, fun h => h ▸ .nil s⟩

theorem Passes.current? (h : s.Passes (token :: ts) t) : s.current? = some token := by
  rw [current?_eq, h.rest_eq]
  rfl

theorem Passes.token? (h : s.Passes (token :: ts) t) : s.token? = some token.value := by
  rw [TokenStream.token?, h.current?]
  rfl

/-- Looking ahead over tokens sees what stands behind them. -/
theorem Passes.peek?_add (h : s.Passes ts t) (n : Nat) : s.peek? (ts.length + n) = t.peek? n := by
  rw [peek?_eq, peek?_eq, h.rest_eq, List.getElem?_append_right (Nat.le_add_right _ _),
    Nat.add_sub_cancel_left]

theorem peek?_zero (s : TokenStream) : s.peek? 0 = s.token? := by
  rw [peek?_eq, token?_eq, List.head?_eq_getElem?]

theorem passes_advance (h : s.current? = some token) : s.Passes [token] s.advance := by
  have hlt : s.position < s.significant.size := by
    simp only [TokenStream.current?, ahead?, Nat.add_zero] at h
    exact (Array.getElem?_eq_some_iff.mp h).1
  exact ⟨rest_eq_cons h, if_pos hlt⟩

theorem passes_singleton : s.Passes [token] t ↔ s.current? = some token ∧ t = s.advance := by
  constructor
  · intro h
    exact ⟨h.current?, h.eq.trans (passes_advance h.current?).eq.symm⟩
  · rintro ⟨h, rfl⟩
    exact passes_advance h

theorem passes_cons :
    s.Passes (token :: ts) t ↔ s.current? = some token ∧ s.advance.Passes ts t := by
  have happend : s.Passes (token :: ts) t ↔ ∃ u, s.Passes [token] u ∧ u.Passes ts t :=
    passes_append (a := [token])
  rw [happend]
  constructor
  · rintro ⟨u, hu, ht⟩
    obtain ⟨hcurrent, rfl⟩ := passes_singleton.mp hu
    exact ⟨hcurrent, ht⟩
  · rintro ⟨hcurrent, ht⟩
    exact ⟨s.advance, passes_advance hcurrent, ht⟩

theorem Passes.remaining (h : s.Passes ts t) : t.remaining + ts.length = s.remaining := by
  have hlength := congrArg List.length h.rest_eq
  simp only [rest, List.length_append, List.length_drop, Array.length_toList] at hlength
  simp only [TokenStream.remaining]
  omega

/-- Between two places lies the stretch of the tokens passed. -/
theorem Passes.spanFrom (h : s.Passes ts t) (hne : ts ≠ []) :
    t.spanFrom s.position = Written.stretch ts := by
  obtain ⟨first, more, rfl⟩ := List.exists_cons_of_ne_nil hne
  have hsame (index : Nat) : t.spanAt? index = s.spanAt? index := by
    rw [h.eq]
    rfl
  have hfirst : t.spanAt? s.position = some first.span := by
    have := s.spanAt?_add 0
    rwa [Nat.add_zero, h.rest_eq, ← hsame] at this
  have hposition : t.position = s.position + more.length + 1 := by
    rw [h.eq]
    rfl
  have hlast : t.previousSpan = ((first :: more).getLast hne).span := by
    have hspan := s.spanAt?_add more.length
    have hget : s.rest[more.length]? = some ((first :: more).getLast hne) := by
      rw [h.rest_eq, List.getElem?_append_left (by simp), List.getLast_eq_getElem]
      simp
    rw [hget, ← hsame] at hspan
    simp only [previousSpan, hposition, hspan]
    rfl
  have hlt : s.position < t.position := by omega
  simp only [TokenStream.spanFrom, hfirst, if_pos hlt, hlast, Written.stretch, List.head?_cons,
    List.getLast?_eq_some_getLast hne]

theorem check_eq {symbol : Token} (hsymbol : symbol.isSymbol = true) (s : TokenStream) :
    s.check symbol = true ↔ s.token? = some symbol := by
  unfold check
  split
  · rename_i value hvalue
    rw [Token.sameKind_eq hsymbol, beq_iff_eq, hvalue, Option.some_inj]
  · rename_i hnone
    rw [hnone]
    simp

theorem takeIf?_eq_some {symbol : Token} (hsymbol : symbol.isSymbol = true) :
    s.takeIf? symbol = some t ↔ ∃ span, s.Passes [⟨symbol, span⟩] t := by
  have htakes : s.takeIf? symbol = some t ↔ s.token? = some symbol ∧ t = s.advance := by
    simp [takeIf?, check_eq hsymbol, eq_comm]
  rw [htakes]
  constructor
  · rintro ⟨htoken, rfl⟩
    obtain ⟨span, hcurrent⟩ := exists_current?_of_token? htoken
    exact ⟨span, passes_advance hcurrent⟩
  · rintro ⟨span, h⟩
    obtain ⟨hcurrent, hadvance⟩ := passes_singleton.mp h
    exact ⟨by rw [TokenStream.token?, hcurrent]; rfl, hadvance⟩

theorem takeIf?_eq_none {symbol : Token} (hsymbol : symbol.isSymbol = true) :
    s.takeIf? symbol = none ↔ s.token? ≠ some symbol := by
  rw [Ne, ← check_eq hsymbol]
  simp [takeIf?]

end TokenStream

end AnnotatedGrammar
