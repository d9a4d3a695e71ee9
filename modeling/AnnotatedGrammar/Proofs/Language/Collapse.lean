import Mathlib
import AnnotatedGrammar.Proofs.Language.Expression
import AnnotatedGrammar.Production.Draft

/-!
# What a collapse of quantifiers takes up

A collapse goes from a quantifier down through quantifiers and parentheses to its operand. Whatever
lies on this path is accounted for: every quantifier is taken up once, in order, and no marker is
passed but the field markers of one quantifier. The expression and its operand under the quantifier
found have the same language.
-/

namespace AnnotatedGrammar

/-- Quantifiers taken up one after the other: each of them meets what those before came down to. -/
inductive Absorption.Chained : Quantifier → List Absorption → Quantifier → Prop
  | nil (q : Quantifier) : Chained q [] q
  | cons (a : Absorption) {rest : List Absorption} {last : Quantifier}
      (h : Chained a.result rest last) : Chained a.outer (a :: rest) last

namespace Expr

/-- What a quantifier or parentheses enclose. -/
def enclosed? : Expr → Option Expr
  | optional _ body | repeated _ body _ | group _ body => some body
  | _ => none

/-- The quantifier that an expression applies. -/
def quantifier? (e : Expr) : Option Quantifier := e.quantified?.map Prod.fst

/-- Going down through quantifiers and parentheses. The path begins with the expression itself and
ends in front of what it leads to. -/
inductive LeadsTo : Expr → List Expr → Expr → Prop
  | here (e : Expr) : LeadsTo e [] e
  | down {e body atom : Expr} {path : List Expr} (h : e.enclosed? = some body)
      (rest : LeadsTo body path atom) : LeadsTo e (e :: path) atom

/-- An operand has been reached: no quantifier and no parentheses, unless they are marked. -/
def IsOperand (e : Expr) : Prop := e.enclosed? ≠ none → e.isUnmarked = false

/-- What going down from the operand of a quantifier has found on a path. `carrier` is the marked
quantifier passed above the path, if there was one. -/
structure TakesUp (outer : Quantifier) (carrier : Option Expr) (path : List Expr)
    (found : Collapsed) : Prop where
  chained : Absorption.Chained outer found.absorbed found.quantifier
  taken : found.absorbed.map (·.inner) = path.filterMap quantifier?
  marked : carrier.toList ++ path.filter (fun e => !e.isUnmarked) = found.carrier.toList

namespace TakesUp

variable {outer : Quantifier} {carrier : Option Expr} {path : List Expr} {found : Collapsed}
  {e : Expr}

theorem here (quantifier : Quantifier) (carrier : Option Expr) (e : Expr) :
    TakesUp quantifier carrier [] ⟨e, quantifier, carrier, []⟩ :=
  ⟨.nil quantifier, rfl, List.append_nil _⟩

/-- Parentheses that are passed carry no markers and take nothing up. -/
theorem group {info : NodeInfo} {body : Expr} (hunmarked : (Expr.group info body).isUnmarked = true)
    (h : TakesUp outer carrier path found) :
    TakesUp outer carrier (.group info body :: path) found where
  chained := h.chained
  taken := h.taken
  marked := by
    rw [← h.marked, List.filter_cons_of_neg (by simp [hunmarked])]

/-- A quantifier that is passed is taken up. If it is marked, then it is the first marked one, and
the carrier below it. -/
theorem quantifier {inner : Quantifier} (hinner : e.quantifier? = some inner)
    (hpassed : e.isTransparent carrier.isSome = true)
    (h : TakesUp (outer.combine inner) (if e.isUnmarked then carrier else some e) path found) :
    TakesUp outer carrier (e :: path)
      { found with absorbed := ⟨outer, inner⟩ :: found.absorbed } where
  chained := .cons ⟨outer, inner⟩ h.chained
  taken := by
    rw [List.map_cons, h.taken, List.filterMap_cons_some hinner]
  marked := by
    rw [← h.marked]
    by_cases hunmarked : e.isUnmarked = true
    · rw [if_pos hunmarked, List.filter_cons_of_neg (by simp [hunmarked])]
    · have hnone : carrier = none := by
        simp only [isTransparent, hunmarked, Bool.false_or, Bool.and_eq_true, Bool.not_eq_true',
          Option.isSome_eq_false_iff, Option.isNone_iff_eq_none] at hpassed
        exact hpassed.1
      rw [if_neg hunmarked, List.filter_cons_of_pos (by simp [hunmarked]), hnone]
      rfl

end TakesUp

/-- A quantifier that is not passed is marked. -/
theorem isUnmarked_eq_false_of_not_isTransparent {e : Expr} {carrier : Bool}
    (h : ¬e.isTransparent carrier = true) : e.isUnmarked = false := by
  simp only [isTransparent, Bool.or_eq_true, not_or, Bool.not_eq_true] at h
  exact h.1

/-- A collapse goes down to an operand and takes up what it passes on the way. -/
theorem absorb_takesUp (quantifier : Quantifier) (carrier : Option Expr) (e : Expr) :
    ∃ path, e.LeadsTo path (e.absorb quantifier carrier).atom ∧
      TakesUp quantifier carrier path (e.absorb quantifier carrier) ∧
      (e.absorb quantifier carrier).atom.IsOperand := by
  fun_induction absorb quantifier carrier e with
  | case1 quantifier carrier info body hpassed step found inner ih
  | case3 quantifier carrier info body kind hpassed step found inner ih =>
    obtain ⟨path, hpath, htakes, hoperand⟩ := ih
    exact ⟨_ :: path, .down rfl hpath, htakes.quantifier rfl hpassed, hoperand⟩
  | case2 quantifier carrier info body hstopped
  | case4 quantifier carrier info body kind hstopped =>
    exact ⟨[], .here _, .here _ _ _, fun _ => isUnmarked_eq_false_of_not_isTransparent hstopped⟩
  | case5 quantifier carrier info body hunmarked ih =>
    obtain ⟨path, hpath, htakes, hoperand⟩ := ih
    exact ⟨_ :: path, .down rfl hpath, htakes.group hunmarked, hoperand⟩
  | case6 quantifier carrier info body hmarked =>
    exact ⟨[], .here _, .here _ _ _, fun _ => by simpa using hmarked⟩
  | case7 quantifier carrier e hoptional hrepeated hgroup =>
    refine ⟨[], .here _, .here _ _ _, fun henclosed => absurd ?_ henclosed⟩
    cases e with
    | optional info body => exact absurd rfl (hoptional info body)
    | repeated info body kind => exact absurd rfl (hrepeated info body kind)
    | group info body => exact absurd rfl (hgroup info body)
    | _ => rfl

/-- The markers of the carrier are field markers. -/
theorem carriesOnlyFieldMarkers_of_absorb {quantifier : Quantifier} {carrier : Option Expr}
    {e : Expr} (h : ∀ c ∈ carrier, c.carriesOnlyFieldMarkers = true) :
    ∀ c ∈ (e.absorb quantifier carrier).carrier, c.carriesOnlyFieldMarkers = true := by
  have hfound {e : Expr} {carrier : Option Expr} (hpassed : e.isTransparent carrier.isSome = true)
      (h : ∀ c ∈ carrier, c.carriesOnlyFieldMarkers = true) :
      ∀ c ∈ (if e.isUnmarked then carrier else some e), c.carriesOnlyFieldMarkers = true := by
    by_cases hunmarked : e.isUnmarked = true
    · rwa [if_pos hunmarked]
    · simp only [isTransparent, hunmarked, Bool.false_or, Bool.and_eq_true] at hpassed
      rw [if_neg hunmarked]
      rintro c ⟨⟩
      exact hpassed.2
  fun_induction absorb quantifier carrier e with
  | case1 quantifier carrier info body hpassed step found inner ih => exact ih (hfound hpassed h)
  | case3 quantifier carrier info body kind hpassed step found inner ih =>
    exact ih (hfound hpassed h)
  | case5 quantifier carrier info body hunmarked ih => exact ih h
  | case2 | case4 | case6 | case7 => exact h

/-- A quantified expression and what its quantifiers come down to. -/
structure CollapsesTo (e : Expr) (found : Collapsed) : Prop where
  /-- Both have the same language, however names are read. -/
  language : ∀ (symbols : SymbolTable) (σ : RuleReading),
    e.language symbols σ = found.quantifier.apply (found.atom.language symbols σ)
  /-- On the way to the operand every quantifier is taken up, and nothing is marked but the
  carrier. -/
  path : ∃ written body between, e.quantified? = some (written, body) ∧
    body.LeadsTo between found.atom ∧ TakesUp written none between found
  /-- Users are warned of every quantifier taken up, in this order. -/
  warnings : ∀ (sc : LoweringScope) (d : ProductionDraft), ∃ d',
    Lowering.warnNested sc e found.absorbed d = .ok () d' ∧
      d'.warnings.toList.map (·.toAbsorption) =
        d.warnings.toList.map (·.toAbsorption) ++ found.absorbed
  carrier_fieldMarkers : ∀ c ∈ found.carrier, c.carriesOnlyFieldMarkers = true
  operand : found.atom.IsOperand

theorem language_of_quantified? {e body : Expr} {written : Quantifier}
    (h : e.quantified? = some (written, body)) (symbols : SymbolTable) (σ : RuleReading) :
    e.language symbols σ = written.apply (body.language symbols σ) := by
  cases e with
  | optional info body => obtain ⟨rfl, rfl⟩ := Prod.mk.inj (Option.some.inj h); rfl
  | repeated info body kind => obtain ⟨rfl, rfl⟩ := Prod.mk.inj (Option.some.inj h); rfl
  | _ => cases h

/-- The collapse of quantifiers is exact. Every quantified expression has one, and no other
expression. It keeps the language. Between the expression and the operand there is one absorption
for each quantifier; each starts from what the one before came down to, and the last one gives the
quantifier found. Of the expressions in between only the carrier is marked, with field markers
alone. No quantifier and no parentheses without markers are left over. -/
theorem collapse_exact (e : Expr) :
    e.collapse?.isSome = e.quantified?.isSome ∧
      ∀ found, e.collapse? = some found → e.CollapsesTo found := by
  refine ⟨Option.isSome_map, fun found h => ?_⟩
  obtain ⟨⟨written, body⟩, hquantified, rfl⟩ := Option.map_eq_some_iff.mp h
  obtain ⟨between, hpath, htakes, hoperand⟩ := body.absorb_takesUp written none
  refine ⟨fun symbols σ => ?_, ⟨written, body, between, hquantified, hpath, htakes⟩,
    fun sc d => ⟨_, rfl, ?_⟩, carriesOnlyFieldMarkers_of_absorb (by simp), hoperand⟩
  · rw [language_absorb, language_of_quantified? hquantified]
  · simp [Function.comp_def]

/-- The quantifiers of `((<number>+ @field(xs))?)*` come down to `*`, and its field marker speaks of
every number. -/
theorem collapse_exact_field_marked :
    let plain : NodeInfo := ⟨0, [], Span.placeholder⟩
    let number := Expr.terminal plain (.pattern .number)
    let marked := Expr.repeated ⟨0, [⟨"field", some "xs", Span.placeholder⟩], Span.placeholder⟩
      number .oneOrMore
    let e := Expr.repeated plain (.group plain (.optional plain (.group plain marked))) .zeroOrMore
    let found : Collapsed := ⟨number, .zeroOrMore, some marked,
      [⟨.zeroOrMore, .optional⟩, ⟨.zeroOrMore, .oneOrMore⟩]⟩
    e.collapse? = some found ∧ e.CollapsesTo found := by
  intro plain number marked e found
  have hfound : e.collapse? = some found := by rfl
  exact ⟨hfound, (collapse_exact e).2 found hfound⟩

end Expr
end AnnotatedGrammar
