import AnnotatedGrammar.Proofs.Source.Excerpt
import AnnotatedGrammar.Proofs.Token.LineBreaks
import AnnotatedGrammar.Proofs.Token.Words

/-!
# Statistics of a scan

The statistics are taken down while the pieces of a text are read: comments and literals where they
are read, and every token once more when it is put behind the others. The tokens themselves are
sorted into those with a meaning and the layout afterwards. In a text without lexical errors every
piece gives a token, and what is taken down tallies with the tokens.
-/

namespace AnnotatedGrammar

namespace Token

/-- Whether the token is a comment. -/
def isComment : Token → Bool
  | comment _ => true
  | _ => false

/-- The number of characters that a literal stands for. -/
def literalLength? : Token → Option Nat
  | literal text => some text.length
  | _ => none

/-- Neither a comment nor a literal: nothing is measured while such a token is read. -/
def IsPlain (token : Token) : Prop := token.isComment = false ∧ token.literalLength? = none

theorem isPlain_ofSymbol? {c : Char} {token : Token} (h : ofSymbol? c = some token) :
    token.IsPlain := by
  have hsymbols : ∀ token ∈ symbols, token.isComment = false ∧ token.literalLength? = none := by
    decide
  exact hsymbols token (mem_symbols h)

end Token

theorem Piece.isPlain_symbol (c : Char) (rest : List Char) {token : Token}
    (h : (next c rest).1.reading = .symbol token) : token.IsPlain := by
  unfold next at h
  split at h
  · cases h
  split at h
  · cases h
  split at h
  · cases h
  split at h
  · unfold ofBlockComment at h
    split at h <;> cases h
  split at h
  · unfold ofLiteral at h
    dsimp only at h
    split at h
    · cases h
    · split at h <;> cases h
  split at h
  · unfold ofPattern at h
    split at h
    · cases h
    · split at h <;> cases h
    · cases h
  split at h
  · cases h
  split at h
  · cases h
    exact Token.isPlain_ofSymbol? ‹_›
  · cases h

namespace ScanMetrics

variable {preferences : TokenPreferences} {metrics : ScanMetrics}

/-! ## Counts of classes -/

theorem sum_countClass (cls : TokenClass) (counts : List (TokenClass × Nat)) :
    ((countClass cls counts).map Prod.snd).sum = (counts.map Prod.snd).sum + 1 := by
  induction counts with
  | nil => rfl
  | cons entry rest ih =>
    rw [countClass]
    split
    · rw [List.map_cons, List.sum_cons, List.map_cons, List.sum_cons, Nat.add_right_comm]
    · rw [List.map_cons, List.sum_cons, List.map_cons, List.sum_cons, ih, Nat.add_assoc]

theorem getD_lookup_cons (cls other : TokenClass) (n : Nat) (counts : List (TokenClass × Nat)) :
    (((cls, n) :: counts).lookup other).getD 0 =
      if cls = other then n else (counts.lookup other).getD 0 := by
  by_cases h : cls = other
  · rw [if_pos h, h, List.lookup_cons_self]
    rfl
  · rw [if_neg h, List.lookup_cons, beq_eq_false_iff_ne.mpr (Ne.symm h)]

/-- One more token of a class changes the number of its own class only. -/
theorem getD_lookup_countClass (cls other : TokenClass) (counts : List (TokenClass × Nat)) :
    ((countClass cls counts).lookup other).getD 0 =
      (counts.lookup other).getD 0 + if cls = other then 1 else 0 := by
  induction counts with
  | nil =>
    rw [countClass, getD_lookup_cons]
    split <;> rfl
  | cons entry rest ih =>
    obtain ⟨key, n⟩ := entry
    rw [countClass]
    by_cases hkey : cls = key
    · subst hkey
      rw [if_pos rfl, getD_lookup_cons, getD_lookup_cons]
      split <;> rfl
    · rw [if_neg hkey, getD_lookup_cons, getD_lookup_cons, ih]
      by_cases hother : key = other
      · subst hother
        rw [if_pos rfl, if_pos rfl, if_neg hkey, Nat.add_zero]
      · rw [if_neg hother, if_neg hother]

/-! ## Pieces and their tokens -/

/-- While a piece that gives a token is read, a comment is counted and a literal is measured. -/
theorem recordReading_of_token {reading : Reading} {token : Token}
    (hplain : ∀ symbol, reading = .symbol symbol → symbol.IsPlain)
    (htoken : reading.token? = some token) (metrics : ScanMetrics) :
    ∃ longest, metrics.recordReading reading = { metrics with
      commentCount := metrics.commentCount + if token.isComment then 1 else 0
      longestComment := longest
      longestLiteral := max metrics.longestLiteral (token.literalLength?.getD 0) } := by
  have hnone {token : Token} (h : token.IsPlain) :
      ∃ longest, metrics = { metrics with
        commentCount := metrics.commentCount + if token.isComment then 1 else 0
        longestComment := longest
        longestLiteral := max metrics.longestLiteral (token.literalLength?.getD 0) } := by
    refine ⟨metrics.longestComment, ?_⟩
    rw [h.1, h.2, Option.getD_none, Nat.max_zero]
    rfl
  cases reading with
  | openComment | openLiteral | badPattern | stray => cases htoken
  | blank | lineBreak | pattern =>
    obtain rfl := Option.some.inj htoken
    exact hnone ⟨rfl, rfl⟩
  | symbol symbol =>
    obtain rfl := Option.some.inj htoken
    exact hnone (hplain symbol rfl)
  | word name =>
    rw [Reading.token?] at htoken
    split at htoken
    · cases htoken
    · obtain rfl := Option.some.inj htoken
      exact hnone ⟨rfl, rfl⟩
  | lineComment body | blockComment body =>
    obtain rfl := Option.some.inj htoken
    refine ⟨max metrics.longestComment body.length, ?_⟩
    simp [recordReading, Token.isComment, Token.literalLength?]
  | literal parts =>
    rw [Reading.token?] at htoken
    split at htoken
    · cases htoken
    · obtain rfl := Option.some.inj htoken
      refine ⟨metrics.longestComment, ?_⟩
      simp [recordReading, Token.isComment, Token.literalLength?]

/-! ## Tallying -/

/-- Statistics that tally with the tokens read so far. -/
structure Tallies (preferences : TokenPreferences) (read : List Token) (metrics : ScanMetrics) :
    Prop where
  total : metrics.totalTokens = read.length
  significant : metrics.significantTokens = read.countP Token.isSignificant
  comments : metrics.commentCount = read.countP Token.isComment
  literals : metrics.longestLiteral = (read.filterMap Token.literalLength?).max?.getD 0
  classSum : preferences.classCounts = true →
    (metrics.classCounts.map Prod.snd).sum = read.length
  classes : preferences.classCounts = true →
    ∀ cls, metrics.countOf cls = read.countP fun token => token.tokenClass = cls

theorem tallies_zero (preferences : TokenPreferences) : Tallies preferences [] zero :=
  ⟨rfl, rfl, rfl, rfl, fun _ => rfl, fun _ _ => rfl⟩

theorem countP_concat_ite {p : Token → Bool} (read : List Token) (token : Token) :
    (read ++ [token]).countP p = read.countP p + if p token = true then 1 else 0 := by
  rw [List.countP_append, List.countP_singleton]

theorem max?_literals_concat (read : List Token) (token : Token) :
    ((read ++ [token]).filterMap Token.literalLength?).max?.getD 0 =
      max ((read.filterMap Token.literalLength?).max?.getD 0) (token.literalLength?.getD 0) := by
  rw [List.filterMap_append]
  cases hlength : token.literalLength? with
  | none =>
    rw [List.filterMap_cons_none hlength, List.filterMap_nil, List.append_nil, Option.getD_none,
      Nat.max_zero]
  | some length =>
    rw [List.filterMap_cons_some hlength, List.filterMap_nil]
    cases read.filterMap Token.literalLength? with
    | nil => simp
    | cons first others => simp [List.max?_cons', -List.max?_cons]

/-- Taking down one piece keeps the tally. -/
theorem Tallies.recordPiece {read : List Token} {metrics : ScanMetrics}
    (h : Tallies preferences read metrics) {p : PlacedPiece} {token : Token}
    (hplain : ∀ symbol, p.piece.reading = .symbol symbol → symbol.IsPlain)
    (htoken : p.piece.reading.token? = some token) :
    Tallies preferences (read ++ [token]) (metrics.recordPiece preferences p) := by
  obtain ⟨longest, hnoted⟩ := recordReading_of_token hplain htoken metrics
  unfold ScanMetrics.recordPiece
  rw [htoken, hnoted]
  refine ⟨?_, ?_, ?_, ?_, fun hset => ?_, fun hset cls => ?_⟩
  · rw [List.length_append, ← h.total]
    rfl
  · rw [countP_concat_ite, ← h.significant]
    simp only [recordToken]
    split <;> rfl
  · rw [countP_concat_ite, ← h.comments]
    rfl
  · rw [max?_literals_concat, ← h.literals]
    rfl
  · rw [List.length_append, ← h.classSum hset]
    simp only [recordToken, hset, if_true]
    exact sum_countClass _ _
  · rw [countP_concat_ite, ← h.classes hset]
    simp only [recordToken, hset, if_true, countOf, decide_eq_true_eq]
    exact getD_lookup_countClass _ _ _

/-- Taking down pieces that all give tokens keeps the tally. -/
theorem Tallies.foldl_recordPiece {read : List Token} {metrics : ScanMetrics}
    (h : Tallies preferences read metrics) {placed : List PlacedPiece}
    (hplaced : ∀ p ∈ placed, (∀ symbol, p.piece.reading = .symbol symbol → symbol.IsPlain) ∧
      ∃ token, p.piece.reading.token? = some token) :
    Tallies preferences (read ++ placed.filterMap fun p => p.piece.reading.token?)
      (placed.foldl (ScanMetrics.recordPiece preferences) metrics) := by
  induction placed generalizing read metrics with
  | nil => rwa [List.filterMap_nil, List.append_nil]
  | cons p rest ih =>
    obtain ⟨⟨hplain, token, htoken⟩, hrest⟩ := List.forall_mem_cons.mp hplaced
    have hstep := ih (h.recordPiece hplain htoken) hrest
    rw [List.append_assoc, List.singleton_append] at hstep
    simp only [List.filterMap_cons, htoken]
    exact hstep

/-! ## Statistics of a text -/

/-- The tokens without the end of the input. -/
def countedTokens (tokens : List (Located Token)) : List Token :=
  (tokens.map (·.value)).filter (· ≠ .endOfInput)

/-- Statistics that agree with the tokens of a text. -/
structure Agrees (metrics : ScanMetrics) (preferences : TokenPreferences) (text : List Char)
    (tokens : List (Located Token)) : Prop where
  /-- Every token is counted, the end of the input left out. -/
  total : metrics.totalTokens = (countedTokens tokens).length
  /-- The stream of the tokens holds the significant ones and the end of the input. -/
  significant : metrics.significantTokens + 1 = (TokenStream.ofTokens tokens).size
  /-- If classes are counted, their numbers make up the number of all tokens. -/
  classSum : preferences.classCounts = true →
    (metrics.classCounts.map Prod.snd).sum = metrics.totalTokens
  /-- If classes are counted, every token is counted in its class. -/
  classes : preferences.classCounts = true → ∀ cls,
    metrics.countOf cls = (countedTokens tokens).countP fun token => token.tokenClass = cls
  comments : metrics.commentCount = (tokens.map (·.value)).countP Token.isComment
  /-- The longest literal is measured; without literals this is nothing. -/
  literals : metrics.longestLiteral =
    ((tokens.map (·.value)).filterMap Token.literalLength?).max?.getD 0
  /-- Every line break ends a line, and one more line is behind the last of them. -/
  lines : metrics.lines = text.count '\n' + 1

end ScanMetrics

namespace Scan

/-- A text without lexical errors is scanned to its end. -/
theorem ofText_of_result {text : List Char} {tokens : List (Located Token)}
    (h : (ofText text).result = .ok tokens) :
    ofText text =
      ⟨laidFrom Position.start (Piece.cut text), Position.start.advanceOver text, false⟩ := by
  refine ofText_of_not_overflow ?_
  obtain ⟨herrors, -⟩ := result_eq_ok_iff.mp h
  by_contra hover
  rw [Bool.not_eq_false] at hover
  simp [errors, hover] at herrors

/-- The tokens of a text are those of its pieces, each of which gives one, and the end of the
input. -/
theorem map_value_tokens {text : List Char} {tokens : List (Located Token)}
    (h : (ofText text).result = .ok tokens) :
    tokens.map (·.value) = ((ofText text).placed.filterMap fun p => p.piece.reading.token?) ++
      [.endOfInput] := by
  obtain ⟨-, rfl⟩ := result_eq_ok h
  rw [ofText_of_result h, List.map_append, List.map_filterMap]
  congr 1
  refine List.filterMap_congr fun p _ => ?_
  simp [PlacedPiece.token?, Function.comp_def]

/-- What the pieces of a text without lexical errors give. -/
theorem piece_of_result {text : List Char} {tokens : List (Located Token)}
    (h : (ofText text).result = .ok tokens) : ∀ p ∈ (ofText text).placed,
      (∀ symbol, p.piece.reading = .symbol symbol → symbol.IsPlain) ∧
        ∃ token, p.piece.reading.token? = some token ∧ token ≠ .endOfInput := by
  obtain ⟨hfaults, -⟩ := result_eq_ok h
  rw [ofText_of_result h]
  intro p hp
  obtain ⟨token, htoken⟩ := PlacedPiece.exists_token_of_faults (hfaults p hp)
  obtain ⟨c, rest, hnext⟩ := Piece.exists_next_of_mem_cut
    (map_piece_laidFrom Position.start (Piece.cut text) ▸ List.mem_map_of_mem hp)
  rw [hnext] at htoken ⊢
  exact ⟨fun symbol => Piece.isPlain_symbol c rest,
    token, htoken, (Piece.isRead_next c rest htoken).ne_endOfInput⟩

/-- Of the tokens of a text only the end of the input is not counted. -/
theorem countedTokens_of_result {text : List Char} {tokens : List (Located Token)}
    (h : (ofText text).result = .ok tokens) : ScanMetrics.countedTokens tokens =
      (ofText text).placed.filterMap fun p => p.piece.reading.token? := by
  have hne : ∀ token ∈ (ofText text).placed.filterMap fun p => p.piece.reading.token?,
      token ≠ .endOfInput := by
    intro token htoken
    obtain ⟨p, hp, hgives⟩ := List.mem_filterMap.mp htoken
    obtain ⟨-, other, hother, hne⟩ := piece_of_result h p hp
    exact Option.some.inj (hgives.symm.trans hother) ▸ hne
  rw [ScanMetrics.countedTokens, map_value_tokens h, List.filter_append,
    List.filter_eq_self.mpr fun token htoken => decide_eq_true (hne token htoken)]
  exact List.append_nil _

theorem size_ofTokens (tokens : List (Located Token)) :
    (TokenStream.ofTokens tokens).size = (tokens.map (·.value)).countP Token.isSignificant := by
  rw [List.countP_map, List.countP_eq_length_filter]
  exact List.size_toArray

/-- What is taken down while a text is read agrees with its tokens. -/
theorem metrics_agree (preferences : TokenPreferences) (text : List Char)
    (tokens : List (Located Token)) (h : (ofText text).result = .ok tokens) :
    ((ofText text).metrics preferences).Agrees preferences text tokens := by
  have hvalues := map_value_tokens h
  have htally := (ScanMetrics.tallies_zero preferences).foldl_recordPiece fun p hp =>
    ⟨(piece_of_result h p hp).1, (piece_of_result h p hp).2.imp fun _ => And.left⟩
  rw [List.nil_append, ← countedTokens_of_result h] at htally
  rw [← countedTokens_of_result h] at hvalues
  refine ⟨htally.total, ?_, fun hset => ?_, htally.classes, ?_, ?_, ?_⟩
  · rw [size_ofTokens, hvalues, ScanMetrics.countP_concat_ite]
    exact congrArg (· + 1) htally.significant
  · exact (htally.classSum hset).trans htally.total.symm
  · rw [hvalues, ScanMetrics.countP_concat_ite]
    exact htally.comments
  · rw [hvalues, ScanMetrics.max?_literals_concat]
    exact htally.literals.trans (Nat.max_zero _).symm
  · change (ofText text).stop.line = _
    rw [ofText_of_result h, Position.start_advanceOver]

/-- A comment over two lines, one up to the end of a line, and literals with an escape. -/
theorem metrics_agree_comments :
    ∃ tokens, (ofText "(* a\nb *) X = 'é\\n' \"abc\"?; //c\n".toList).result = .ok tokens ∧
      tokens.map (·.value) =
        [.comment " a\nb ", .blank, .identifier "X", .blank, .equals, .blank, .literal "é\n",
          .blank, .literal "abc", .question, .semicolon, .blank, .comment "c", .lineBreak,
          .endOfInput] ∧
      (ofText "(* a\nb *) X = 'é\\n' \"abc\"?; //c\n".toList).metrics ⟨true, true⟩ =
        ⟨14, 6, 2, 5, 3, 0, 3, [(.special, 2), (.whitespace, 6), (.identifier, 1),
          (.punctuation, 2), (.terminal, 2), (.quantifier, 1)]⟩ ∧
      ((ofText "(* a\nb *) X = 'é\\n' \"abc\"?; //c\n".toList).metrics ⟨true, true⟩).Agrees
        ⟨true, true⟩ "(* a\nb *) X = 'é\\n' \"abc\"?; //c\n".toList tokens := by
  have hvalues : (ofText "(* a\nb *) X = 'é\\n' \"abc\"?; //c\n".toList).result.map
      (List.map (·.value)) =
        .ok [.comment " a\nb ", .blank, .identifier "X", .blank, .equals, .blank, .literal "é\n",
          .blank, .literal "abc", .question, .semicolon, .blank, .comment "c", .lineBreak,
          .endOfInput] := by
    cbv
  cases hresult : (ofText "(* a\nb *) X = 'é\\n' \"abc\"?; //c\n".toList).result with
  | error errors =>
    rw [hresult] at hvalues
    cases hvalues
  | ok tokens =>
    rw [hresult] at hvalues
    exact ⟨tokens, rfl, Except.ok.inj hvalues, by cbv, metrics_agree ⟨true, true⟩ _ tokens hresult⟩

end Scan
end AnnotatedGrammar
