import Mathlib
import AnnotatedGrammar.Production.Quantifier
import AnnotatedGrammar.Model.Query

/-!
# The language of an expression

An expression denotes a language over terminals once every rule is read as a language. The rules of
a grammar then denote the least reading under which every rule contains the language of its body.
Markers play no part. The main fact about expressions is that the collapse of quantifiers keeps the
language.
-/

namespace AnnotatedGrammar

open scoped Computability

/-- A language for every rule. -/
abbrev RuleReading := RuleId → Language Terminal

namespace Quantifier

/-- The language of a quantifier applied to a language. -/
def apply (L : Language Terminal) : Quantifier → Language Terminal
  | optional => 1 + L
  | zeroOrMore => L∗
  | oneOrMore => L * L∗

theorem apply_mono {L L' : Language Terminal} (h : L ≤ L') (q : Quantifier) :
    q.apply L ≤ q.apply L' := by
  cases q with
  | optional => exact add_le_add_right h 1
  | zeroOrMore => exact kstar_mono h
  | oneOrMore => exact mul_le_mul' h (kstar_mono h)

theorem one_add_kstar (L : Language Terminal) : (1 + L)∗ = L∗ := by
  apply le_antisymm
  · apply kstar_le_of_mul_le_left one_le_kstar
    rw [mul_add, mul_one]
    exact add_le le_rfl kstar_mul_le_kstar
  · exact kstar_mono (by simp)

/-- `X*` under another quantifier is `X*`. -/
theorem apply_kstar (L : Language Terminal) (q : Quantifier) : q.apply L∗ = L∗ := by
  cases q with
  | optional => exact add_eq_right_iff_le.mpr one_le_kstar
  | zeroOrMore => exact kstar_idem L
  | oneOrMore => rw [apply, kstar_idem, kstar_mul_kstar]

theorem kstar_mul_kstar_self (L : Language Terminal) : (L * L∗)∗ = L∗ := by
  rw [← one_add_kstar, one_add_mul_kstar, kstar_idem]

/-- A quantifier around another has the language of the one they come down to. -/
theorem apply_combine (L : Language Terminal) (outer inner : Quantifier) :
    (outer.combine inner).apply L = outer.apply (inner.apply L) := by
  cases inner with
  | zeroOrMore => cases outer <;> exact (apply_kstar L _).symm
  | optional =>
    cases outer with
    | optional => simp only [combine, apply, ← add_assoc, add_idem]
    | zeroOrMore => exact (one_add_kstar L).symm
    | oneOrMore =>
      calc L∗ = (1 + L) * L∗ := by
            rw [add_mul, one_mul, add_eq_left_iff_le.mpr mul_kstar_le_kstar]
        _ = (1 + L) * (1 + L)∗ := by rw [one_add_kstar]
  | oneOrMore =>
    cases outer with
    | optional => exact one_add_mul_kstar.symm
    | zeroOrMore => exact (kstar_mul_kstar_self L).symm
    | oneOrMore =>
      calc L * L∗ = L * (L∗ * L∗) := by rw [kstar_mul_kstar]
        _ = L * L∗ * (L * L∗)∗ := by rw [kstar_mul_kstar_self, mul_assoc]

end Quantifier

namespace SymbolTable

/-- The language of a name. -/
def language (symbols : SymbolTable) (σ : RuleReading) (name : String) : Language Terminal :=
  match symbols.resolve? name with
  | some (.rule id) => σ id
  | some (.builtin p) => {[.pattern p]}
  | none => 0

theorem language_mono (symbols : SymbolTable) {σ σ' : RuleReading} (h : σ ≤ σ') (name : String) :
    symbols.language σ name ≤ symbols.language σ' name := by
  unfold language
  split
  · exact h _
  · exact le_rfl
  · exact le_rfl

end SymbolTable

namespace Expr

mutual

/-- The language of an expression when the rules are read as given languages. -/
def language (symbols : SymbolTable) (σ : RuleReading) : Expr → Language Terminal
  | terminal _ t => {[t]}
  | reference _ name => symbols.language σ name
  | sequence _ items => languageInRow symbols σ items
  | alternation _ branches => languageOfAny symbols σ branches
  | optional _ body => Quantifier.optional.apply (language symbols σ body)
  | repeated _ body kind => (Quantifier.ofRepetition kind).apply (language symbols σ body)
  | group _ body => language symbols σ body

/-- The language of several expressions in a row. -/
def languageInRow (symbols : SymbolTable) (σ : RuleReading) : List Expr → Language Terminal
  | [] => 1
  | e :: rest => language symbols σ e * languageInRow symbols σ rest

/-- The language of several expressions as alternatives. -/
def languageOfAny (symbols : SymbolTable) (σ : RuleReading) : List Expr → Language Terminal
  | [] => 0
  | e :: rest => language symbols σ e + languageOfAny symbols σ rest

end

variable {symbols : SymbolTable} {σ σ' : RuleReading}

mutual

theorem language_mono (h : σ ≤ σ') (e : Expr) : e.language symbols σ ≤ e.language symbols σ' := by
  cases e with
  | terminal => exact le_rfl
  | reference _ name => exact symbols.language_mono h name
  | sequence _ items => exact languageInRow_mono h items
  | alternation _ branches => exact languageOfAny_mono h branches
  | optional _ body => exact Quantifier.apply_mono (language_mono h body) _
  | repeated _ body kind => exact Quantifier.apply_mono (language_mono h body) _
  | group _ body => exact language_mono h body

theorem languageInRow_mono (h : σ ≤ σ') (items : List Expr) :
    languageInRow symbols σ items ≤ languageInRow symbols σ' items := by
  cases items with
  | nil => exact le_rfl
  | cons e rest => exact mul_le_mul' (language_mono h e) (languageInRow_mono h rest)

theorem languageOfAny_mono (h : σ ≤ σ') (branches : List Expr) :
    languageOfAny symbols σ branches ≤ languageOfAny symbols σ' branches := by
  cases branches with
  | nil => exact le_rfl
  | cons e rest => exact add_le_add (language_mono h e) (languageOfAny_mono h rest)

end

/-- Parentheses without markers do not matter. -/
theorem language_core (e : Expr) : e.core.language symbols σ = e.language symbols σ := by
  unfold core
  fun_induction stripGroups e with
  | case1 => rfl
  | case2 _ _ _ _ ih => exact ih
  | case3 => rfl

/-- What an expression contributes to its class is all of it. -/
theorem language_classContent (e : Expr) :
    e.classContent.1.language symbols σ = e.language symbols σ := by
  cases e <;> rfl

theorem language_classAlternatives {content : Expr} {branches : List Expr}
    (h : content.classAlternatives? = some branches) :
    languageOfAny symbols σ branches = content.language symbols σ := by
  rw [← language_core]
  unfold classAlternatives? at h
  split at h
  · rename_i hcore
    obtain rfl := Option.some.inj h
    rw [hcore, language]
  · simp at h

/-- The collapse of quantifiers keeps the language. -/
theorem language_absorb (quantifier : Quantifier) (carrier : Option Expr) (e : Expr) :
    (e.absorb quantifier carrier).quantifier.apply
        ((e.absorb quantifier carrier).atom.language symbols σ) =
      quantifier.apply (e.language symbols σ) := by
  fun_induction absorb quantifier carrier e with
  | case1 _ _ _ _ _ _ _ _ ih => exact ih.trans (Quantifier.apply_combine _ _ _)
  | case2 => rfl
  | case3 _ _ _ _ _ _ _ _ _ ih => exact ih.trans (Quantifier.apply_combine _ _ _)
  | case4 => rfl
  | case5 _ _ _ _ _ ih => exact ih
  | case6 => rfl
  | case7 => rfl

end Expr

namespace GrammarModel

/-- The language of the body of a rule when the rules are read as given languages. -/
def bodyLanguage (m : GrammarModel) (σ : RuleReading) (id : RuleId) : Language Terminal :=
  match m.grammar.rules[id]? with
  | some rule => rule.body.language m.symbols σ
  | none => 0

variable {m : GrammarModel} {σ σ' : RuleReading} {id : RuleId}

theorem bodyLanguage_some {rule : Rule} (h : m.grammar.rules[id]? = some rule) :
    m.bodyLanguage σ id = rule.body.language m.symbols σ := by
  simp only [bodyLanguage, h]

theorem bodyLanguage_none (h : m.grammar.rules[id]? = none) : m.bodyLanguage σ id = 0 := by
  simp only [bodyLanguage, h]

theorem bodyLanguage_mono (h : σ ≤ σ') (id : RuleId) :
    m.bodyLanguage σ id ≤ m.bodyLanguage σ' id := by
  cases hrule : m.grammar.rules[id]? with
  | none => simp [bodyLanguage_none hrule]
  | some rule =>
    rw [bodyLanguage_some hrule, bodyLanguage_some hrule]
    exact Expr.language_mono h rule.body

/-- The languages of the bodies of all rules. -/
def bodyLanguages (m : GrammarModel) : RuleReading →o RuleReading where
  toFun := m.bodyLanguage
  monotone' _ _ h := bodyLanguage_mono h

/-- The languages of the rules: the least ones that contain the languages of the bodies. -/
def ruleLanguage (m : GrammarModel) : RuleReading := m.bodyLanguages.lfp

end GrammarModel
end AnnotatedGrammar
