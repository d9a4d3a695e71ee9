import AnnotatedGrammar.Proofs.Model.Built
import AnnotatedGrammar.Proofs.Model.Names
import AnnotatedGrammar.Proofs.Syntax.Recognition
import AnnotatedGrammar.Proofs.Token.Tiling

/-!
# Names in texts

Every word of a text is a name as it stands, and so is the name of every rule.
-/

namespace AnnotatedGrammar

namespace Token

/-- A token that a piece of text may give: not the end of the input, and if a name then one that may
stand in generated files. -/
structure IsRead (token : Token) : Prop where
  ne_endOfInput : token ≠ .endOfInput
  isIdentifier : ∀ name, token = .identifier name → Naming.isIdentifier name = true

theorem isRead_of_name? {token : Token} (hend : token ≠ .endOfInput) (hname : token.name? = none) :
    token.IsRead :=
  ⟨hend, fun name h => by simp [h, name?] at hname⟩

/-- The tokens that are written as one character. -/
def symbols : List Token :=
  [equals, pipe, semicolon, leftParen, rightParen, question, star, plus, atSign, percent]

theorem mem_symbols {c : Char} {token : Token} (h : ofSymbol? c = some token) :
    token ∈ symbols := by
  unfold ofSymbol? at h
  iterate 10
    obtain ⟨-, h⟩ | ⟨-, h⟩ := ite_eq_iff.mp h
    · obtain rfl := Option.some.inj h
      decide
  cases h

theorem isRead_ofSymbol? {c : Char} {token : Token} (h : ofSymbol? c = some token) :
    token.IsRead := by
  have hsymbols : ∀ token ∈ symbols, token ≠ endOfInput ∧ token.name? = none := by decide
  obtain ⟨hend, hname⟩ := hsymbols token (mem_symbols h)
  exact isRead_of_name? hend hname

end Token

/-- A word begins with a letter and goes on with letters and digits. -/
theorem isIdentifier_word {c : Char} (hc : isNameStart c = true) (rest : List Char) :
    Naming.isIdentifier (String.ofList (c :: rest.takeWhile isNameChar)) = true := by
  refine Naming.isIdentifier_iff.mpr ⟨c, _, String.toList_ofList, hc, fun x hx => ?_⟩
  exact List.mem_takeWhile_imp hx

namespace Piece

theorem isRead_next (c : Char) (rest : List Char) {token : Token}
    (h : (next c rest).1.reading.token? = some token) : token.IsRead := by
  unfold next at h
  split at h
  · obtain rfl := Option.some.inj h
    exact Token.isRead_of_name? (by simp) rfl
  split at h
  · obtain rfl := Option.some.inj h
    exact Token.isRead_of_name? (by simp) rfl
  split at h
  · obtain rfl := Option.some.inj h
    exact Token.isRead_of_name? (by simp) rfl
  split at h
  · unfold ofBlockComment at h
    split at h
    · obtain rfl := Option.some.inj h
      exact Token.isRead_of_name? (by simp) rfl
    · cases h
  split at h
  · revert h
    unfold ofLiteral
    dsimp only
    split
    · simp [Reading.token?]
    · split
      · simp only [Reading.token?]
        split
        · simp
        · rintro ⟨⟩
          exact Token.isRead_of_name? (by simp) rfl
      · simp [Reading.token?]
  split at h
  · revert h
    unfold ofPattern
    split
    · simp [Reading.token?]
    · split
      · rintro ⟨⟩
        exact Token.isRead_of_name? (by simp) rfl
      · simp [Reading.token?]
    · simp [Reading.token?]
  split at h
  · rename_i hstart
    dsimp only [Reading.token?] at h
    split at h
    · cases h
    · obtain rfl := Option.some.inj h
      exact ⟨by simp, fun name hname => Token.identifier.inj hname ▸ isIdentifier_word hstart rest⟩
  split at h
  · obtain rfl := Option.some.inj h
    exact Token.isRead_ofSymbol? ‹_›
  · cases h

end Piece

/-- The tokens of a text up to its end. -/
theorem Scan.exists_read_tokens {text : List Char} {tokens : List (Located Token)}
    (h : (Scan.ofText text).result = .ok tokens) :
    ∃ read stop, tokens = read ++ [⟨.endOfInput, stop⟩] ∧
      ∀ token ∈ read, token.value.IsRead := by
  obtain ⟨-, rfl⟩ := Scan.result_eq_ok h
  refine ⟨_, _, rfl, fun token htoken => ?_⟩
  obtain ⟨p, hp, hpt⟩ := List.mem_filterMap.mp htoken
  obtain ⟨value, hvalue, rfl⟩ := Option.map_eq_some_iff.mp hpt
  obtain ⟨c, rest, hnext⟩ := Piece.exists_next_of_mem_cut
    (map_piece_laidFrom Position.start (Piece.cut text) ▸ List.mem_map_of_mem hp)
  rw [hnext] at hvalue
  exact Piece.isRead_next c rest hvalue

/-- The rules of a grammar text have names that may stand in generated files. -/
theorem GenerationOptions.isIdentifier_ruleName {o : GenerationOptions} {source : List Char}
    {m : GrammarModel} (h : (o.frontEnd source).result = .ok m) :
    ∀ rule ∈ m.grammar.rules.toList, Naming.isIdentifier rule.name = true := by
  obtain ⟨tokens, htokens, grammar, hgrammar, hmodel⟩ := frontEnd_eq_ok.mp h
  obtain ⟨read, stop, rfl, hread⟩ := Scan.exists_read_tokens htokens
  obtain ⟨text, hspelled, rfl⟩ := TokenStream.grammar_sound rfl
    (fun token htoken => (hread token htoken).ne_endOfInput) hgrammar
  obtain ⟨-, -, rfl⟩ := Grammar.buildModel_eq_ok hmodel
  intro rule hrule
  have hname : rule.name ∈ (text.filterMap Written.Item.rule?).map (·.name) := by
    have hmem := List.mem_map_of_mem (f := (·.name)) hrule
    have hrules : text.grammar.rules.toList =
        (Rule.numberedAll [] 0 (text.filterMap Written.Item.rule?)).1 := rfl
    simpa [DraftedModel.model, hrules, Rule.map_numberedAll (·.name) fun _ _ => rfl] using hmem
  obtain ⟨r, hr, hname⟩ := List.mem_map.mp hname
  obtain ⟨item, hitem, hr⟩ := List.mem_filterMap.mp hr
  cases item with
  | directive d => cases hr
  | rule w =>
    obtain rfl := Option.some.inj hr
    have hmem : (⟨.identifier w.name.value, w.name.span⟩ : Located Token) ∈ text.tokens := by
      refine List.mem_flatMap.mpr ⟨_, hitem, ?_⟩
      simp [Written.Item.tokens, Written.Rule.tokens]
    rw [hspelled.tokens_eq] at hmem
    rw [← hname]
    exact (hread _ (List.mem_filter.mp hmem).1).isIdentifier _ rfl

end AnnotatedGrammar
