import AnnotatedGrammar.Token.Basic

/-!
# Token streams

A stream steps over the significant tokens of a text. Layout is left out, but the span of the last
token of the text is kept: it stands for the place behind the last significant token.
-/

namespace AnnotatedGrammar

/-- The significant tokens of a text and a place among them. -/
structure TokenStream where
  significant : Array (Located Token)
  /-- Span of the last token of the text, layout included. -/
  lastSpan : Option Span
  /-- How many significant tokens lie before the current one. -/
  position : Nat
deriving Inhabited

namespace TokenStream

/-- The stream of a token list, at its beginning. -/
def ofTokens (tokens : List (Located Token)) : TokenStream where
  significant := (tokens.filter fun token => token.value.isSignificant).toArray
  lastSpan := tokens.getLast?.map (·.span)
  position := 0

/-- The tokens from the current one on. -/
def rest (s : TokenStream) : List (Located Token) := s.significant.toList.drop s.position

/-- The number of significant tokens. -/
def size (s : TokenStream) : Nat := s.significant.size

/-- How many tokens are left. -/
def remaining (s : TokenStream) : Nat := s.significant.size - s.position

/-- The token `n` places ahead of the current one. -/
def ahead? (s : TokenStream) (n : Nat) : Option (Located Token) :=
  s.significant[s.position + n]?

/-- The current token. -/
def current? (s : TokenStream) : Option (Located Token) := s.ahead? 0

/-- The current token without its place. -/
def token? (s : TokenStream) : Option Token := s.current?.map (·.value)

/-- The token `n` places ahead, without its place. -/
def peek? (s : TokenStream) (n : Nat) : Option Token := (s.ahead? n).map (·.value)

/-- Where the current token stands; behind the last one, where the text's last token stands. -/
def currentSpan (s : TokenStream) : Span :=
  match s.current? with
  | some token => token.span
  | none => s.lastSpan.getD Span.placeholder

/-- Where the significant token of an index stands. -/
def spanAt? (s : TokenStream) (index : Nat) : Option Span :=
  (s.significant[index]?).map (·.span)

/-- Where the token before the current one stands. -/
def previousSpan (s : TokenStream) : Span :=
  match s.position with
  | 0 => s.currentSpan
  | before + 1 => (s.spanAt? before).getD s.currentSpan

/-- The stretch from the token of an index up to the last token passed. -/
def spanFrom (s : TokenStream) (index : Nat) : Span :=
  match s.spanAt? index with
  | some start => if index < s.position then start.merge s.previousSpan else start
  | none => s.currentSpan

/-- One token further; at the end the stream stays where it is. -/
def advance (s : TokenStream) : TokenStream :=
  if s.position < s.significant.size then { s with position := s.position + 1 } else s

/-- At the end of the input, or behind the last token. -/
def atEnd (s : TokenStream) : Bool :=
  match s.token? with
  | none => true
  | some .endOfInput => true
  | some _ => false

/-- Whether the current token is of the same kind as the expected one. -/
def check (s : TokenStream) (expected : Token) : Bool :=
  match s.token? with
  | some token => token.sameKind expected
  | none => false

/-- Moves to an index, at most to the end. -/
def moveTo (s : TokenStream) (index : Nat) : TokenStream :=
  { s with position := min index s.significant.size }

/-- Whether the last significant token is the end of the input. -/
def hasEnd (s : TokenStream) : Bool :=
  match s.significant.back? with
  | some token => token.value == .endOfInput
  | none => false

theorem rest_eq_cons {s : TokenStream} {token : Located Token} (h : s.current? = some token) :
    s.rest = token :: s.advance.rest := by
  simp only [current?, ahead?, Nat.add_zero] at h
  obtain ⟨hlt, hget⟩ := Array.getElem?_eq_some_iff.mp h
  have hlt' : s.position < s.significant.toList.length := by simpa using hlt
  simp only [rest, advance, hlt, if_true]
  rw [List.drop_eq_getElem_cons hlt']
  simp [hget]

theorem remaining_advance_lt {s : TokenStream} {token : Located Token}
    (h : s.current? = some token) : s.advance.remaining < s.remaining := by
  simp only [current?, ahead?, Nat.add_zero] at h
  obtain ⟨hlt, _⟩ := Array.getElem?_eq_some_iff.mp h
  simp only [advance, remaining, hlt, if_true]; omega

/-- There are more tokens left than one can look ahead. -/
theorem lt_remaining_of_peek? {s : TokenStream} {n : Nat} {token : Token}
    (h : s.peek? n = some token) : n < s.remaining := by
  obtain ⟨located, ht, _⟩ := Option.map_eq_some_iff.mp h
  obtain ⟨hlt, _⟩ := Array.getElem?_eq_some_iff.mp ht
  simp only [remaining]; omega

theorem remaining_advance_lt_of_token? {s : TokenStream} {token : Token}
    (h : s.token? = some token) : s.advance.remaining < s.remaining := by
  obtain ⟨located, ht, _⟩ := Option.map_eq_some_iff.mp h
  exact remaining_advance_lt ht

end TokenStream

/-- Places a token behind the tokens already there: it covers the next stretch of text. -/
def placeTokens (start : Position) : List (Token × List Char) → List (Located Token) × Position
  | [] => ([], start)
  | (token, text) :: rest =>
    let stop := start.advanceOver text
    let placed := placeTokens stop rest
    (⟨token, ⟨start, stop⟩⟩ :: placed.1, placed.2)

end AnnotatedGrammar
