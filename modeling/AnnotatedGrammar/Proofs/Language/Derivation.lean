import Mathlib
import AnnotatedGrammar.Proofs.Lowering.Growth

/-!
# What a production set derives

A nonterminal derives what the terms of one of its productions derive one after another. A reading
of the nonterminals as languages is closed when every production stays inside it; what is derivable
is the least closed reading.
-/

namespace AnnotatedGrammar

namespace ProductionSet

mutual

/-- The texts that a nonterminal derives. -/
inductive Derives (set : ProductionSet) : NonterminalId → List Terminal → Prop
  | production {p : Production} {text : List Terminal} (hp : p ∈ set.productions)
      (hbody : DerivesInRow set p.body text) : Derives set p.lhs text

/-- The texts that terms derive one after another. -/
inductive DerivesInRow (set : ProductionSet) : List Term → List Terminal → Prop
  | nil : DerivesInRow set [] []
  | terminal {t : Terminal} {rest : List Term} {text : List Terminal}
      (hrest : DerivesInRow set rest text) : DerivesInRow set (.terminal t :: rest) (t :: text)
  | nonterminal {n : NonterminalId} {rest : List Term} {front back : List Terminal}
      (hfront : Derives set n front) (hback : DerivesInRow set rest back) :
      DerivesInRow set (.nonterminal n :: rest) (front ++ back)

end

/-- The language of a nonterminal. -/
def language (set : ProductionSet) (n : NonterminalId) : Language Terminal :=
  {text | set.Derives n text}

end ProductionSet

/-- A language for every nonterminal. -/
abbrev TermReading := NonterminalId → Language Terminal

namespace Term

/-- The language of a term when the nonterminals are read as given languages. -/
def language (ρ : TermReading) : Term → Language Terminal
  | terminal t => {[t]}
  | nonterminal n => ρ n

/-- The language of terms in a row. -/
def languageInRow (ρ : TermReading) (terms : List Term) : Language Terminal :=
  (terms.map (Term.language ρ)).prod

variable {ρ ρ' : TermReading}

@[simp] theorem languageInRow_nil : languageInRow ρ [] = 1 := rfl

@[simp] theorem languageInRow_cons (t : Term) (rest : List Term) :
    languageInRow ρ (t :: rest) = t.language ρ * languageInRow ρ rest := by
  simp [languageInRow]

@[simp] theorem languageInRow_append (front back : List Term) :
    languageInRow ρ (front ++ back) = languageInRow ρ front * languageInRow ρ back := by
  simp [languageInRow]

theorem language_congr {t : Term} {bound : NonterminalId} (h : t.Below bound)
    (hagree : ∀ n < bound, ρ' n = ρ n) : t.language ρ' = t.language ρ := by
  cases t with
  | terminal => rfl
  | nonterminal n => exact hagree n h

theorem languageInRow_congr {terms : List Term} {bound : NonterminalId}
    (h : ∀ t ∈ terms, t.Below bound) (hagree : ∀ n < bound, ρ' n = ρ n) :
    languageInRow ρ' terms = languageInRow ρ terms := by
  unfold languageInRow
  exact congrArg List.prod (List.map_congr_left fun t ht => language_congr (h t ht) hagree)

end Term

/-- Every production stays inside a reading. -/
def TermReading.Closed (ρ : TermReading) (productions : Array Production) : Prop :=
  ∀ p ∈ productions, Term.languageInRow ρ p.body ≤ ρ p.lhs

namespace ProductionSet

variable {set : ProductionSet} {ρ : TermReading}

mutual

/-- A closed reading contains everything that is derivable. -/
theorem Derives.mem_of_closed (hclosed : ρ.Closed set.productions) {n : NonterminalId}
    {text : List Terminal} : set.Derives n text → text ∈ ρ n
  | .production hp hbody => hclosed _ hp (hbody.mem_of_closed hclosed)

theorem DerivesInRow.mem_of_closed (hclosed : ρ.Closed set.productions) {terms : List Term}
    {text : List Terminal} :
    set.DerivesInRow terms text → text ∈ Term.languageInRow ρ terms
  | .nil => rfl
  | .terminal hrest =>
    ⟨[_], rfl, _, hrest.mem_of_closed hclosed, rfl⟩
  | .nonterminal hfront hback =>
    ⟨_, hfront.mem_of_closed hclosed, _, hback.mem_of_closed hclosed, rfl⟩

end

theorem derivesInRow_of_mem {terms : List Term} {text : List Terminal}
    (h : text ∈ Term.languageInRow set.language terms) : set.DerivesInRow terms text := by
  induction terms generalizing text with
  | nil =>
    obtain rfl : text = [] := h
    exact .nil
  | cons t rest ih =>
    rw [Term.languageInRow_cons] at h
    obtain ⟨front, hfront, back, hback, rfl⟩ := Language.mem_mul.mp h
    cases t with
    | terminal t =>
      obtain rfl : front = [t] := hfront
      exact .terminal (ih hback)
    | nonterminal n => exact .nonterminal hfront (ih hback)

/-- What is derivable is closed. -/
theorem closed_language (set : ProductionSet) :
    TermReading.Closed set.language set.productions :=
  fun _ hp _ hbody => .production hp (derivesInRow_of_mem hbody)

end ProductionSet
end AnnotatedGrammar
