import Mathlib
import AnnotatedGrammar.Proofs.Model.Names
import AnnotatedGrammar.TokenCatalog

/-!
# Names of tokens

A token name is written in capitals, digits and underscores behind `TOK_`, and ends with an
underscore only if nothing stands behind that. The names in a catalog are all different.
-/

namespace AnnotatedGrammar

namespace Naming

/-- A capital letter or a digit. -/
def isCapital (c : Char) : Bool := c.isUpper || c.isDigit

theorem isLetterOrDigit_of_isCapital {c : Char} (h : isCapital c = true) :
    isLetterOrDigit c = true := by
  refine isLetterOrDigit_of_isAlphanum ?_
  rcases Bool.or_eq_true_iff.mp h with h | h <;> simp [Char.isAlphanum, Char.isAlpha, h]

theorem not_isLower_of_isCapital {c : Char} (h : isCapital c = true) : ¬c.isLower = true := by
  intro hlower
  rcases Bool.or_eq_true_iff.mp h with h | h
  · exact Char.not_isUpper_of_isLower hlower h
  · rw [Char.isDigit_iff_toNat] at h
    rw [Char.isLower, Bool.and_eq_true, decide_eq_true_eq] at hlower
    exact absurd (Nat.le_trans (UInt32.le_iff_toNat_le.mp hlower.1) h.2) (by decide)

theorem isCapital_toUpper {c : Char} (h : c.isAlphanum = true) : isCapital c.toUpper = true := by
  rw [isCapital, Bool.or_eq_true]
  by_cases halpha : c.isAlpha = true
  · exact .inl (by rw [Char.isUpper_toUpper_eq_isAlpha, halpha])
  · rw [Char.isAlphanum, Bool.or_eq_true] at h
    have hlower : ¬c.isLower = true := fun h => halpha (by rw [Char.isAlpha, h, Bool.or_true])
    rw [Char.toUpper_eq_of_not_isLower hlower]
    exact .inr (h.resolve_left halpha)

/-! ## Words of a literal -/

/-- A part of a token name: capitals and digits, and at least one of them. -/
structure IsTokenWord (word : List Char) : Prop where
  ne_nil : word ≠ []
  capitals : ∀ c ∈ word, isCapital c = true

theorem isCapital_hexDigit : ∀ d < 16, isCapital (Text.hexDigit d).toUpper = true := by
  decide

theorem isCapital_hexDigits (n : Nat) : ∀ c ∈ Text.hexDigits n, isCapital c.toUpper = true := by
  fun_induction Text.hexDigits n with
  | case1 n h => simpa using isCapital_hexDigit n h
  | case2 n h ih =>
    intro c hc
    rcases List.mem_append.mp hc with hc | hc
    · exact ih c hc
    · rw [List.mem_singleton.mp hc]
      exact isCapital_hexDigit _ (Nat.mod_lt n (by decide))

theorem isTokenWord_codePoint (c : Char) : IsTokenWord ('U' :: codePointDigits c) := by
  refine ⟨List.cons_ne_nil _ _, List.forall_mem_cons.mpr ⟨by decide, fun x hx => ?_⟩⟩
  rcases List.mem_append.mp hx with hx | hx
  · rw [List.eq_of_mem_replicate hx]
    decide
  · obtain ⟨y, hy, rfl⟩ := List.mem_map.mp hx
    exact isCapital_hexDigits _ y hy

theorem isTokenWord_spelled {c : Char} {word : String} (h : spellPunctuation? c = some word) :
    IsTokenWord word.toList := by
  have hall {table : List (Char × String)} (h : table.lookup c = some word)
      (htable : table.all (fun e => !e.2.toList.isEmpty && e.2.toList.all isCapital) = true) :
      IsTokenWord word.toList := by
    obtain ⟨before, after, rfl, -⟩ := List.lookup_eq_some_iff.mp h
    have hword := List.all_eq_true.mp htable (c, word) (by simp)
    simp only [Bool.and_eq_true, Bool.not_eq_true', List.isEmpty_eq_false_iff,
      List.all_eq_true] at hword
    exact ⟨hword.1, hword.2⟩
  exact hall h (by decide +kernel)

/-- A character that is no letter or digit gets a word of its own behind the current run. -/
theorem tokenWords_of_other {c : Char} (hother : ¬c.isAlphanum = true) (run rest : List Char) :
    tokenWords run (c :: rest) =
      (if run.isEmpty then [] else [String.ofList run.reverse]) ++
        (spellPunctuation? c).getD (String.ofList ('U' :: codePointDigits c)) ::
          tokenWords [] rest := by
  rw [tokenWords, if_neg hother]
  cases spellPunctuation? c <;> cases run <;> rfl

theorem isTokenWord_tokenWords {run text : List Char} (hrun : ∀ c ∈ run, isCapital c = true) :
    ∀ word ∈ tokenWords run text, IsTokenWord word.toList := by
  have hread {run : List Char} (hempty : ¬run.isEmpty = true)
      (hrun : ∀ c ∈ run, isCapital c = true) :
      IsTokenWord (String.ofList run.reverse).toList := by
    rw [String.toList_ofList]
    refine ⟨fun h => hempty ?_, fun c hc => hrun c (List.mem_reverse.mp hc)⟩
    rw [List.reverse_eq_nil_iff.mp h]
    rfl
  have hother (c : Char) : IsTokenWord
      ((spellPunctuation? c).getD (String.ofList ('U' :: codePointDigits c))).toList := by
    cases hspelled : spellPunctuation? c with
    | some word => exact isTokenWord_spelled hspelled
    | none =>
      rw [Option.getD_none, String.toList_ofList]
      exact isTokenWord_codePoint c
  induction text generalizing run with
  | nil =>
    rw [tokenWords]
    split
    · simp
    · exact List.forall_mem_singleton.mpr (hread ‹_› hrun)
  | cons c rest ih =>
    by_cases halphanum : c.isAlphanum = true
    · rw [tokenWords, if_pos halphanum]
      exact ih (List.forall_mem_cons.mpr ⟨isCapital_toUpper halphanum, hrun⟩)
    · rw [tokenWords_of_other halphanum]
      refine List.forall_mem_append.mpr ⟨?_, List.forall_mem_cons.mpr ⟨hother c, ih (by simp)⟩⟩
      split
      · simp
      · exact List.forall_mem_singleton.mpr (hread ‹_› hrun)

/-! ## Token names -/

/-- A name that a token may have. -/
structure IsTokenName (name : String) : Prop where
  begins : "TOK_".toList <+: name.toList
  capitals : ∀ c ∈ name.toList, isCapital c = true ∨ c = '_'
  ends : name = "TOK_" ∨ ∃ c, name.toList.getLast? = some c ∧ isCapital c = true

theorem IsTokenName.isIdentifier {name : String} (h : IsTokenName name) :
    isIdentifier name = true := by
  obtain ⟨rest, hrest⟩ := h.begins
  refine isIdentifier_iff.mpr
    ⟨'T', 'O' :: 'K' :: '_' :: rest, hrest.symm, by decide, fun c hc => ?_⟩
  rcases h.capitals c (by rw [← hrest]; exact List.mem_cons_of_mem _ hc) with hc | rfl
  · exact isLetterOrDigit_of_isCapital hc
  · rfl

theorem IsTokenName.numbered {name : String} (h : IsTokenName name) (n : Nat) :
    IsTokenName (numbered name n) := by
  have hne : Nat.toDigits 10 n ≠ [] := Nat.toDigits_ne_nil
  have hdigit : ∀ c ∈ Nat.toDigits 10 n, isCapital c = true := fun c hc =>
    Bool.or_eq_true_iff.mpr (.inr (Nat.isDigit_of_mem_toDigits (by decide) (by decide) hc))
  refine ⟨?_, fun c hc => ?_, .inr ⟨_, ?_, hdigit _ (List.getLast_mem hne)⟩⟩
  · rw [toList_numbered]
    exact h.begins.trans (List.prefix_append _ _)
  · rw [toList_numbered] at hc
    rcases List.mem_append.mp hc with hc | hc
    · exact h.capitals c hc
    · rcases List.mem_cons.mp hc with rfl | hc
      · exact .inr rfl
      · exact .inl (hdigit c hc)
  · rw [toList_numbered, List.getLast?_append, List.getLast?_cons_of_ne_nil hne,
      List.getLast?_eq_some_getLast hne]
    rfl

theorem getLast?_intercalate {separator : List Char} {words : List (List Char)}
    (hwords : ∀ word ∈ words, IsTokenWord word) (hne : words ≠ []) :
    ∃ c, (separator.intercalate words).getLast? = some c ∧ isCapital c = true := by
  induction words with
  | nil => exact absurd rfl hne
  | cons word rest ih =>
    obtain ⟨hword, hrest⟩ := List.forall_mem_cons.mp hwords
    cases rest with
    | nil =>
      refine ⟨_, ?_, hword.capitals _ (List.getLast_mem hword.ne_nil)⟩
      rw [List.intercalate_singleton, List.getLast?_eq_some_getLast hword.ne_nil]
    | cons other more =>
      obtain ⟨c, hc, hcapital⟩ := ih hrest (List.cons_ne_nil _ _)
      refine ⟨c, ?_, hcapital⟩
      rw [List.intercalate_cons_cons, List.getLast?_append, hc]
      rfl

theorem mem_intercalate {separator : List Char} {words : List (List Char)} {c : Char}
    (h : c ∈ separator.intercalate words) : c ∈ separator ∨ ∃ word ∈ words, c ∈ word := by
  induction words with
  | nil => simp at h
  | cons word rest ih =>
    cases rest with
    | nil =>
      rw [List.intercalate_singleton] at h
      exact .inr ⟨word, List.mem_cons_self, h⟩
    | cons other more =>
      rw [List.intercalate_cons_cons, List.mem_append, List.mem_append] at h
      rcases h with (h | h) | h
      · exact .inr ⟨word, List.mem_cons_self, h⟩
      · exact .inl h
      · exact (ih h).imp_right fun ⟨found, hfound, hc⟩ =>
          ⟨found, List.mem_cons_of_mem _ hfound, hc⟩

theorem isTokenName_literalTokenId (lexeme : String) : IsTokenName (literalTokenId lexeme) := by
  have hlist : (literalTokenId lexeme).toList = "TOK_".toList ++
      ['_'].intercalate ((tokenWords [] lexeme.toList).map String.toList) := by
    rw [literalTokenId, String.toList_append, String.toList_intercalate]
    rfl
  have hwords : ∀ word ∈ (tokenWords [] lexeme.toList).map String.toList, IsTokenWord word :=
    List.forall_mem_map.mpr (isTokenWord_tokenWords (by simp))
  refine ⟨?_, fun c hc => ?_, ?_⟩
  · rw [hlist]
    exact List.prefix_append _ _
  · rw [hlist] at hc
    rcases List.mem_append.mp hc with hc | hc
    · have htok : ∀ c ∈ "TOK_".toList, isCapital c = true ∨ c = '_' := by
        simp [isCapital, Char.isUpper]
      exact htok c hc
    · rcases mem_intercalate hc with hc | ⟨word, hword, hc⟩
      · exact .inr (List.mem_singleton.mp hc)
      · exact .inl ((hwords word hword).capitals c hc)
  · cases hnone : tokenWords [] lexeme.toList with
    | nil =>
      refine .inl ?_
      rw [literalTokenId, hnone]
      rfl
    | cons word rest =>
      obtain ⟨c, hc, hcapital⟩ := @getLast?_intercalate ['_'] _ hwords (by simp [hnone])
      refine .inr ⟨c, ?_, hcapital⟩
      rw [hlist, List.getLast?_append, hc]
      rfl

end Naming

namespace TokenCatalog

open Naming

theorem isTokenName_patternTokenName (p : Pattern) : IsTokenName (patternTokenName p) := by
  have hends : (patternTokenName p).toList.getLast?.any isCapital = true := by
    cases p <;> decide
  have hcapitals : (patternTokenName p).toList.all (fun c => isCapital c || c == '_') = true := by
    cases p <;> decide
  refine ⟨by cases p <;> decide, fun c hc => ?_, .inr ?_⟩
  · simpa using List.all_eq_true.mp hcapitals c hc
  · rwa [Option.any_eq_true] at hends

/-- Names of literals differ from each other and from those taken before. -/
theorem literalEntries_nodup {taken : List String} (texts : List String) (h : taken.Nodup) :
    ((literalEntries taken texts).map (·.name) ++ taken).Nodup := by
  induction texts generalizing taken with
  | nil => exact h
  | cons text rest ih =>
    have hfresh := uniqueAmong_fresh (literalTokenId text) taken
    exact List.perm_middle.nodup_iff.mp (ih (List.nodup_cons.mpr ⟨hfresh, h⟩))

theorem isTokenName_literalEntries {taken : List String} (texts : List String) :
    ∀ e ∈ literalEntries taken texts, IsTokenName e.name := by
  induction texts generalizing taken with
  | nil => simp [literalEntries]
  | cons text rest ih =>
    have hname := isTokenName_literalTokenId text
    exact List.forall_mem_cons.mpr
      ⟨uniqueName_induction _ _ hname hname.numbered, ih⟩

theorem isTokenName_of_mem {terminals : List Terminal} :
    ∀ e ∈ (ofTerminals terminals).entries, IsTokenName e.name := by
  intro e he
  rcases List.mem_append.mp he with he | he
  · exact isTokenName_literalEntries _ e he
  · obtain ⟨p, -, rfl⟩ := List.mem_map.mp he
    exact isTokenName_patternTokenName p

/-- All tokens of a catalog have different names. -/
theorem names_nodup (terminals : List Terminal) :
    ((ofTerminals terminals).entries.map (·.name)).Nodup := by
  have hpatterns : ((patterns terminals).map patternTokenName).Nodup :=
    ((Pattern.all.filter_sublist).map patternTokenName).nodup (by decide)
  have hall := literalEntries_nodup (literals terminals) hpatterns
  rw [ofTerminals, List.map_append, List.map_map]
  simpa [Function.comp_def] using hall

end TokenCatalog

end AnnotatedGrammar
